/-
  Sickle.Poll.Handover — the token of an event is the one published last.

  `published` reads off a history the token that the latest transition of an `update`
  published. The write position's slot has it (`Published`), and from its last look at the
  state until the event the consumer has what that slot had at that look.

  - `token_not_torn`: on every path of a node from its creation: `update` is never about to
    write the slot that the consumer is about to read; an event has the token that the
    write slot had at the consumer's last look, the latest one published by then; and no
    `unreachable!()` is reached.
-/

import Sickle.Poll.NodeInv
import Sickle.Poll.Token

namespace Sickle.Poll

open Function (update)
open Sickle.Lib Sickle.Lib.Word

variable {ι κ J : Type}

/-- The slot that the consumer is about to read, if the state stays as it is. -/
def NodeSt.reads (s : NodeSt ι κ J) : Option (BitVec 64) :=
  match s.consumer with
  | .load | .swap _ => some s.node.state.tokenWritePos
  | .putBack next _ | .requeue next _ | .token next _ => some next.tokenReadPos
  | _ => none

section History

variable [DecidableEq ι]

/-- The token of the `update` that each thread called last, if it called that, and the
    token that was published last. -/
structure Tokens (ι : Type) where
  called : ι → Option TokenEntry
  token : TokenEntry

def noteToken (x : Tokens ι) : NodeEv ι κ J → Tokens ι
  | .called i (.update a) => { x with called := update x.called i (some a.token) }
  | .called i (.setReadiness _) => { x with called := update x.called i none }
  | .wrote i _ => { x with token := (x.called i).getD x.token }
  | _ => x

/-- After a history of a node that was created with the token `t`. -/
def tokens (t : TokenEntry) (τ : List (NodeEv ι κ J)) : Tokens ι := τ.foldl noteToken ⟨fun _ => none, t⟩

/-- The token that was published last. -/
def published (t : TokenEntry) (τ : List (NodeEv ι κ J)) : TokenEntry := (tokens t τ).token

theorem tokens_snoc (t : TokenEntry) (τ : List (NodeEv ι κ J)) (e : NodeEv ι κ J) :
    tokens t (τ ++ [e]) = noteToken (tokens t τ) e := by
  unfold tokens
  rw [List.foldl_append, List.foldl_cons, List.foldl_nil]

end History

/-- A thread that may still write the state does so for the call it made last. -/
def Carries (p : Pc κ J) (t : Option TokenEntry) : Prop :=
  match p with
  | .setLoad _ | .setSwap _ _ => t = none
  | .updQueue a | .updAssociate a | .updRef a | .updLock a | .updLoad a | .updToken a _ | .updSlot a _ _ | .updSwap a _ _ =>
    t = some a.token
  | _ => True

structure Published (n : ReadinessNode κ J) (pc : ι → Pc κ J) (x : Tokens ι) : Prop where
  written : n.token n.state.tokenWritePos = some x.token
  carried : ∀ i, Carries (pc i) (x.called i)

/-- After its last look the consumer has the token `t`, or reads it in a slot that stays. -/
def Has (n : ReadinessNode κ J) (c : ConsumerPc) (t : TokenEntry) : Prop :=
  match c with
  | .putBack next _ | .requeue next _ | .token next _ => n.token next.tokenReadPos = some t
  | .push _ t' => t' = t
  | _ => True

/-- The consumer is past its last look at the state, and has not pushed the event. -/
def ConsumerPc.past (c : ConsumerPc) : Bool :=
  match c with
  | .putBack _ _ | .requeue _ _ | .token _ _ | .push _ _ => true
  | _ => false

namespace Published

variable {n n' : ReadinessNode κ J} {pc : ι → Pc κ J} {x : Tokens ι} {i : ι} {p p' : Pc κ J}

theorem same (h : Published n pc x) (hw : n'.state.tokenWritePos = n.state.tokenWritePos) (ht : n'.token = n.token) :
    Published n' pc x := ⟨by rw [ht, hw]; exact h.written, h.carried⟩

theorem at_pc (h : Published n pc x) (hpc : pc i = p) : Carries p (x.called i) := hpc ▸ h.carried i

/-- A thread moves on within its call. -/
theorem move [DecidableEq ι] (h : Published n pc x) (hpc : pc i = p) (hp : Carries p (x.called i) → Carries p' (x.called i)) :
    Published n (update pc i p') x := by
  refine ⟨h.written, ?_⟩
  exact (Function.forall_update_iff pc fun j q => Carries q (x.called j)).mpr ⟨hp (h.at_pc hpc), fun j _ => h.carried j⟩

/-- A thread makes a call. -/
theorem call [DecidableEq ι] (h : Published n pc x) {t : Option TokenEntry} (hp : Carries p' t) :
    Published n (update pc i p') { x with called := update x.called i t } := by
  refine ⟨h.written, fun j => ?_⟩
  show Carries (update pc i p' j) (update x.called i t j)
  by_cases e : j = i
  · subst e
    rw [Function.update_self, Function.update_self]
    exact hp
  · rw [Function.update_of_ne e, Function.update_of_ne e]
    exact h.carried j

end Published

theorem setTop_carries (ready : Ready4) (state : ReadinessState) {t : Option TokenEntry} (h : t = none) :
    Carries (setTop ready state : Pc κ J) t := by
  unfold setTop
  split
  · trivial
  · exact h

theorem setDone_carries (state next : ReadinessState) (t : Option TokenEntry) : Carries (setDone state next : Pc κ J) t := by
  unfold setDone
  split <;> trivial

theorem checkQueue_carries [DecidableEq κ] (a : UpdateArgs κ J) (q : κ) {t : Option TokenEntry} (h : t = some a.token) :
    Carries (checkQueue a q) t := by
  unfold checkQueue
  split
  · exact h
  · trivial

theorem placeToken_carries (a : UpdateArgs κ J) (state : ReadinessState) (current : Option TokenEntry) {t : Option TokenEntry}
    (h : t = some a.token) : Carries (placeToken a state current) t :=
  placeToken_meets (P := fun p => Carries p t) trivial h fun _ _ => h

theorem updDone_carries (a : UpdateArgs κ J) (turned : Bool) (t : Option TokenEntry) : Carries (updDone a turned) t := by
  cases turned <;> trivial

theorem published_step [DecidableEq ι] [DecidableEq κ] {s s' : NodeSt ι κ J} {e : NodeEv ι κ J} {x : Tokens ι}
    (hi : Slots s.node s.pc s.consumer) (h : Published s.node s.pc x) (hs : NodeStep s e s') :
    Published s'.node s'.pc (noteToken x e) := by
  cases hs with
  | setCall i ready hpc => exact h.call rfl
  | setLoad i ready hpc => exact h.move hpc (setTop_carries _ _)
  | setSwap i ready state hpc hst =>
    subst hst
    have hc : x.called i = none := h.at_pc hpc
    have hx : noteToken x (.wrote i (s.node.state.setReadinessNext ready) : NodeEv ι κ J) = x := by
      show (⟨x.called, (x.called i).getD x.token⟩ : Tokens ι) = x
      rw [hc]
      rfl
    rw [hx]
    have h' : Published s.node (update s.pc i (setDone s.node.state (s.node.state.setReadinessNext ready))) x :=
      h.move hpc fun _ => setDone_carries ..
    exact h'.same (s.node.state.set_readiness_positions ready.2).2 rfl
  | setRetry i ready state hpc hst => exact h.move hpc (setTop_carries _ _)
  | loadNull i hpc hq => exact h.move hpc fun _ => trivial
  | loadQueue i q hpc hq => exact h.move hpc fun _ => trivial
  | link i hpc => exact h.move hpc fun _ => trivial
  | wakeup i ok hpc => exact h.move hpc fun _ => trivial
  | returned i ok hpc => exact h.move hpc fun _ => trivial
  | updCall i a hpc hf => exact h.call rfl
  | updNull i a hpc hq => exact h.move hpc id
  | updQueue i a q hpc hq => exact h.move hpc (checkQueue_carries a q)
  | updAssociate i a hpc hq =>
    have h' : Published s.node (update s.pc i (.updRef a)) x := h.move hpc id
    exact h'.same rfl rfl
  | updTaken i a q hpc hq => exact h.move hpc (checkQueue_carries a q)
  | updRef i a hpc =>
    have h' : Published s.node (update s.pc i (.updLock a)) x := h.move hpc id
    exact h'.same rfl rfl
  | updLock i a hpc hl =>
    have h' : Published s.node (update s.pc i (.updLoad a)) x := h.move hpc id
    exact h'.same rfl rfl
  | updLocked i a hpc hl => exact h.move hpc fun _ => trivial
  | updLoad i a hpc => exact h.move hpc id
  | updToken i a state hpc => exact h.move hpc (placeToken_carries _ _ _)
  | updSlot i a state pos hpc =>
    obtain ⟨-, hnw, -⟩ := hi.at_pc hpc
    obtain ⟨hst, -⟩ := s.node.setToken_frame pos a.token
    have h' : Published s.node (update s.pc i (.updSwap a state pos)) x := h.move hpc id
    refine ⟨?_, h'.carried⟩
    show (s.node.setToken pos a.token).token (s.node.setToken pos a.token).state.tokenWritePos = some x.token
    rw [hst, s.node.token_setToken_ne a.token (Ne.symm hnw)]
    exact h.written
  | updSwap i a state pos hpc hst =>
    subst hst
    obtain ⟨hle, ht⟩ := hi.at_pc hpc
    have hc : x.called i = some a.token := h.at_pc hpc
    obtain ⟨-, -, -, hw⟩ := s.node.state.update_fields (ReadinessState.within_of_slot hle) a.interest.2 a.opt.2
    have h' : Published s.node (update s.pc i (.updUnlock a (turnedOn s.node.state (s.node.state.updateNext pos a.interest a.opt)))) x :=
      h.move hpc fun _ => trivial
    refine ⟨?_, h'.carried⟩
    show s.node.token (s.node.state.updateNext pos a.interest a.opt).tokenWritePos = some ((x.called i).getD x.token)
    rw [hw, hc]
    exact ht
  | updRetry i a state pos hpc hst => exact h.move hpc id
  | updUnlock i a turned hpc =>
    have h' : Published s.node (update s.pc i (updDone a turned)) x := h.move hpc fun _ => updDone_carries ..
    exact h'.same rfl rfl
  | updJob i a hpc =>
    have h' : Published s.node (update s.pc i .enqueue) x := h.move hpc fun _ => trivial
    exact h'.same rfl rfl
  | drop i hpc hf hu =>
    refine Published.same (h.move hpc fun _ => ?_) s.node.state.flagged_positions.2 rfl
    split <;> trivial
  | pollSwap state hc hst =>
    subst hst
    exact h.same s.node.state.poll_tokenWritePos rfl
  | release hc => exact h.same rfl rfl
  | resetJob hc => exact h.same rfl rfl
  | _ => exact h

/-! ## The consumer's token -/

/-- The slot at the read position stays. -/
theorem Has.keep {n n' : ReadinessNode κ J} {c : ConsumerPc} {t : TokenEntry} (h : Has n c t) (hr : ReadOk n.state c)
    (ht : n'.token n.state.tokenReadPos = n.token n.state.tokenReadPos) : Has n' c t := by
  cases c <;> simp only [Has, ReadOk] at h hr ⊢
  all_goals first | exact h | (rw [hr] at h ⊢; rw [ht]; exact h)

theorem emit_has {n : ReadinessNode κ J} {next : ReadinessState} {t : TokenEntry} (readiness : Ready)
    (h : n.token next.tokenReadPos = some t) : Has n (emit next readiness) t := by
  unfold emit
  split
  · trivial
  · exact h

theorem settle_has {n : ReadinessNode κ J} {next : ReadinessState} {t : TokenEntry} (readiness : Ready)
    (h : n.token next.tokenReadPos = some t) : Has n (settle next readiness) t := by
  unfold settle
  split
  · exact h
  · exact emit_has readiness h

theorem pollTop_has {n : ReadinessNode κ J} {t : TokenEntry} (h : n.token n.state.tokenWritePos = some t) :
    Has n (pollTop n.state) t := by
  have hn : n.token n.state.pollNext.tokenReadPos = some t := by rw [n.state.poll_tokenReadPos, h]
  unfold pollTop
  split
  · trivial
  · split
    · exact settle_has _ hn
    · trivial

variable [DecidableEq ι] [DecidableEq κ]

/-- A look gives the consumer the token at the write position, and no other step changes
    what it has. -/
theorem has_step {s s' : NodeSt ι κ J} {e : NodeEv ι κ J} {x : Tokens ι} (hi : Slots s.node s.pc s.consumer)
    (hp : Published s.node s.pc x) (hs : NodeStep s e s') :
    (e = .observed s.node.state ∧ Has s'.node s'.consumer x.token) ∨ ((∀ st, e ≠ .observed st) ∧
      (s'.consumer.past = true → s.consumer.past = true ∧ ∀ t, Has s.node s.consumer t → Has s'.node s'.consumer t)) := by
  cases hs with
  | updSlot i a state pos hpc =>
    obtain ⟨-, -, hnr⟩ := hi.at_pc hpc
    refine .inr ⟨by simp, fun hc => ⟨hc, fun t h => h.keep hi.reader ?_⟩⟩
    exact s.node.token_setToken_ne a.token (Ne.symm hnr)
  | dequeue hc hl => exact .inr ⟨by simp, by simp [ConsumerPc.past]⟩
  | pollLoad hc => exact .inl ⟨rfl, pollTop_has hp.written⟩
  | pollSwap state hc hst =>
    subst hst
    refine .inl ⟨rfl, settle_has _ ?_⟩
    show s.node.token s.node.state.pollNext.tokenReadPos = some x.token
    rw [s.node.state.poll_tokenReadPos]
    exact hp.written
  | pollRetry state hc hst => exact .inl ⟨rfl, pollTop_has hp.written⟩
  | release hc => exact .inr ⟨by simp, by simp [ConsumerPc.past]⟩
  | putBack next readiness hc =>
    refine .inr ⟨by simp, fun _ => ⟨by rw [hc]; rfl, fun t h => ?_⟩⟩
    rw [hc] at h
    exact h
  | requeueLink next readiness hc =>
    refine .inr ⟨by simp, fun _ => ⟨by rw [hc]; rfl, fun t h => ?_⟩⟩
    rw [hc] at h
    exact emit_has (n := s.node) readiness h
  | token next readiness t hc ht =>
    refine .inr ⟨by simp, fun _ => ⟨by rw [hc]; rfl, fun t' h => ?_⟩⟩
    rw [hc] at h
    exact Option.some.inj (ht.symm.trans h)
  | noToken next readiness hc ht => exact .inr ⟨by simp, by simp [ConsumerPc.past]⟩
  | push readiness t hc => exact .inr ⟨by simp, by simp [ConsumerPc.past]⟩
  | resetJob hc => exact .inr ⟨by simp, by simp [ConsumerPc.past]⟩
  | _ => exact .inr ⟨by simp, fun hc => ⟨hc, fun t h => h.keep hi.reader rfl⟩⟩

/-- On a path from the node's creation: the write slot had the token `t` when the consumer
    looked at the state for the last time, and `t` was the one published last. -/
def LastLook (s₀ : NodeSt ι κ J) (p : List (NodeEv ι κ J × NodeSt ι κ J)) (t : TokenEntry) : Prop :=
  ∃ p₁ u u' p₂, p = p₁ ++ (.observed u.node.state, u') :: p₂ ∧ (∀ y ∈ p₂, ∀ st, y.1 ≠ .observed st) ∧
    Path (node ι κ J) s₀ p₁ u ∧ u.node.token u.node.state.tokenWritePos = some t ∧
    published s₀.node.token0 (p₁.map Prod.fst) = t

theorem LastLook.more {s₀ s' : NodeSt ι κ J} {p : List (NodeEv ι κ J × NodeSt ι κ J)} {t : TokenEntry} {e : NodeEv ι κ J}
    (h : LastLook s₀ p t) (he : ∀ st, e ≠ .observed st) : LastLook s₀ (p ++ [(e, s')]) t := by
  obtain ⟨p₁, u, u', p₂, rfl, hq, hpath, ht, hpub⟩ := h
  refine ⟨p₁, u, u', p₂ ++ [(e, s')], by rw [List.append_assoc, List.cons_append], fun y hy => ?_, hpath, ht, hpub⟩
  rcases List.mem_append.mp hy with hy | hy
  · exact hq y hy
  · obtain rfl := List.mem_singleton.mp hy
    exact he

structure Handed (s₀ : NodeSt ι κ J) (p : List (NodeEv ι κ J × NodeSt ι κ J)) (s : NodeSt ι κ J) : Prop where
  published : Published s.node s.pc (tokens s₀.node.token0 (p.map Prod.fst))
  taken : s.consumer.past = true → ∃ t, LastLook s₀ p t ∧ Has s.node s.consumer t

theorem handed_step {s₀ s s' : NodeSt ι κ J} {p : List (NodeEv ι κ J × NodeSt ι κ J)} {e : NodeEv ι κ J}
    (hpath : Path (node ι κ J) s₀ p s) (hi : Slots s.node s.pc s.consumer) (h : Handed s₀ p s) (hs : NodeStep s e s') :
    Handed s₀ (p ++ [(e, s')]) s' := by
  constructor
  · rw [List.map_append, List.map_singleton, tokens_snoc]
    exact published_step hi h.published hs
  · intro hc
    rcases has_step hi h.published hs with ⟨rfl, hhas⟩ | ⟨hne, hkeep⟩
    · exact ⟨_, ⟨p, s, s', [], rfl, by simp, hpath, h.published.written, rfl⟩, hhas⟩
    · obtain ⟨hc', hkeep⟩ := hkeep hc
      obtain ⟨t, hlast, hhas⟩ := h.taken hc'
      exact ⟨t, hlast.more hne, hkeep t hhas⟩

omit [DecidableEq κ] in
theorem fresh_published {s : NodeSt ι κ J} (h : s.Fresh) : Published s.node s.pc (tokens s.node.token0 ([] : List (NodeEv ι κ J))) := by
  obtain ⟨n, rfl, hn⟩ := h
  have first : ∀ (queue : Option κ) token (interest : Ready4) (opt : PollOpt4) refCount,
      (.new queue token interest opt refCount : ReadinessNode κ J).token (ReadinessState.new interest opt).tokenWritePos = some token := by
    intro queue token interest opt refCount
    rw [(new_positions interest opt).2]
    rfl
  rcases hn with rfl | ⟨queue, token, interest, opt, rfl⟩
  · exact ⟨first .., fun _ => trivial⟩
  · exact ⟨first .., fun _ => trivial⟩

theorem handed_run {s₀ s : NodeSt ι κ J} {p : List (NodeEv ι κ J × NodeSt ι κ J)} (h0 : s₀.Fresh)
    (h : Path (node ι κ J) s₀ p s) : Handed s₀ p s := by
  refine h.inv_run (.init h0) (P := fun p s => Handed s₀ p s) ⟨fresh_published h0, ?_⟩ ?_
  · obtain ⟨n, rfl, -⟩ := h0
    intro hc
    cases hc
  · intro p t e t' hr hp hh hs
    exact handed_step hp (slots_run hr) hh hs

/-- On every path of a node from its creation: no `update` is about to write the slot that
    the consumer is about to read; an event has the token that the write slot had when the
    consumer looked at the state for the last time, the latest one published by then; and
    the positions name slots, so that nobody panics. -/
theorem token_not_torn {s₀ s : NodeSt ι κ J} {p : List (NodeEv ι κ J × NodeSt ι κ J)} (h0 : s₀.Fresh)
    (h : Path (node ι κ J) s₀ p s) :
    (∀ i a state pos, s.pc i = .updSlot a state pos → s.reads ≠ some pos) ∧
      (∀ x s', NodeStep s (.event x) s' → LastLook s₀ p x.tokenEntry) ∧
      s.node.state.tokenReadPos.toNat ≤ 2 ∧ s.node.state.tokenWritePos.toNat ≤ 2 ∧
      (∀ i, s.pc i ≠ .panicked) ∧ s.consumer ≠ .panicked := by
  have hi : Slots s.node s.pc s.consumer := slots_run (h.run (.init h0))
  have hh := handed_run h0 h
  refine ⟨?_, ?_, hi.read, hi.write, ?_, ?_⟩
  · intro i a state pos hpc hr
    obtain ⟨-, hnw, hnr⟩ := hi.at_pc hpc
    have hreader := hi.reader
    unfold NodeSt.reads at hr
    -- before its last look the consumer goes to the write position, after it to the read position
    cases hc : s.consumer with
    | load =>
      rw [hc] at hr
      exact hnw (Option.some.inj hr).symm
    | swap st =>
      rw [hc] at hr
      exact hnw (Option.some.inj hr).symm
    | putBack next readiness =>
      rw [hc] at hr hreader
      exact hnr ((Option.some.inj hr).symm.trans hreader)
    | requeue next readiness =>
      rw [hc] at hr hreader
      exact hnr ((Option.some.inj hr).symm.trans hreader)
    | token next readiness =>
      rw [hc] at hr hreader
      exact hnr ((Option.some.inj hr).symm.trans hreader)
    | _ =>
      rw [hc] at hr
      cases hr
  · intro x s' hs
    generalize he : (NodeEv.event x : NodeEv ι κ J) = e at hs
    cases hs with
    | push readiness t hc =>
      cases he
      obtain ⟨t', hlast, hhas⟩ := hh.taken (by rw [hc]; rfl)
      rw [hc] at hhas
      obtain rfl : t = t' := hhas
      exact hlast
    | _ => cases he
  · intro i hpc
    exact hi.at_pc hpc
  · intro hc
    have hreader := hi.reader
    rw [hc] at hreader
    exact hreader

/-- A socket's token. -/
def SOCKET_7 : TokenEntry := ⟨.socketEvent, ⟨7#64⟩⟩

/-- The registration gets another token and is signalled; the poll puts it back and reads the token. -/
theorem token_not_torn_reregistered : ∃ (s₀ s : NodeSt Unit Unit Unit) (p : List (NodeEv Unit Unit Unit × NodeSt Unit Unit Unit))
    (readiness : Ready), Path (node Unit Unit Unit) s₀ p s ∧ s.consumer = .push readiness SOCKET_7 ∧ LastLook s₀ p SOCKET_7 := by
  have h0 : Path (node Unit Unit Unit) ⟨readableNode, fun _ => .idle, .away, 0, false, false⟩ [] _ := .nil
  have h1 := h0.step (.updCall _ () ⟨(), SOCKET_7, READABLE4, LEVEL4, none⟩ rfl rfl)
  have h2 := h1.step (.updQueue _ () _ () rfl rfl)
  have h3 := h2.step (.updLock _ () _ rfl rfl)
  have h4 := h3.step (.updLoad _ () _ rfl)
  have h5 := h4.step (.updToken _ () _ _ rfl)
  have h6 := h5.step (.updSlot _ () ⟨(), SOCKET_7, READABLE4, LEVEL4, none⟩ readableNode.state 1#64 rfl)
  have h7 := h6.step (.updSwap _ () ⟨(), SOCKET_7, READABLE4, LEVEL4, none⟩ readableNode.state 1#64 rfl rfl)
  have h8 := h7.step (.updUnlock _ () _ false rfl)
  have h9 := h8.step (.returned _ () true rfl)
  have h10 := h9.step (.setCall _ () READABLE4 rfl)
  have h11 := h10.step (.setLoad _ () READABLE4 rfl)
  have h12 := h11.step (.setSwap _ () READABLE4 _ rfl rfl)
  have h13 := h12.step (.loadQueue _ () () rfl rfl)
  have h14 := h13.step (.link _ () rfl)
  have h15 := h14.step (.dequeue _ rfl Nat.one_pos)
  have h16 := h15.step (.pollLoad _ rfl)
  have h17 := h16.step (.pollSwap _ _ rfl rfl)
  have h18 := h17.step (.putBack _ _ _ rfl)
  have h19 := h18.step (.requeueLink _ _ _ rfl)
  have h20 := h19.step (.token _ _ _ SOCKET_7 rfl rfl)
  exact ⟨_, _, _, _, h20, rfl, (token_not_torn ⟨_, rfl, .inr ⟨_, _, _, _, rfl⟩⟩ h20).2.1 _ _ (.push _ _ SOCKET_7 rfl)⟩

end Sickle.Poll
