/-
  Sickle.Poll.Token — the token slots of a node.

  `update` writes its token to a slot that is neither the write position's nor the read
  position's, and publishes it with its transition of the state; the consumer moves the
  read position to the write position with its own, and reads that slot afterwards. The
  word `update` picks the slot from may be old by then: but the write position only moves
  with the lock held, and the read position only to where the write position is.

  - `Slots`: the lock has one holder, the positions name slots, and the slot that the
    holder is about to write is neither; `slots_run`: in every reachable state.
-/

import Sickle.Poll.Fields
import Sickle.Poll.Node

namespace Sickle.Poll

open Function (update)
open Sickle.Lib Sickle.Lib.Word

variable {ι κ J : Type}

namespace ReadinessState

/-- The next position is a slot's, neither the one that was written nor the one that is read. -/
theorem nextTokenPos_spec {s : ReadinessState} (hw : s.tokenWritePos.toNat ≤ 2) (hr : s.tokenReadPos.toNat ≤ 2) :
    ∃ pos, s.nextTokenPos = some pos ∧ pos.toNat ≤ 2 ∧ pos ≠ s.tokenWritePos ∧ pos ≠ s.tokenReadPos := by
  have apart : ∀ {a b : BitVec 64}, a.toNat ≠ b.toNat → a ≠ b := fun h e => h (congrArg BitVec.toNat e)
  unfold nextTokenPos
  have hw' : s.tokenWritePos.toNat = 0 ∨ s.tokenWritePos.toNat = 1 ∨ s.tokenWritePos.toNat = 2 := by omega
  have hr' : s.tokenReadPos.toNat = 0 ∨ s.tokenReadPos.toNat = 1 ∨ s.tokenReadPos.toNat = 2 := by omega
  rcases hw' with hw | hw | hw <;> rcases hr' with hr | hr | hr <;> rw [hw, hr]
  all_goals exact ⟨_, rfl, by decide, apart (by rw [hw]; decide), apart (by rw [hr]; decide)⟩

theorem set_readiness_positions (state : ReadinessState) {ready : Ready} (hr : Within ready.bits MASK_4) :
    (state.setReadinessNext ready).tokenReadPos = state.tokenReadPos ∧
      (state.setReadinessNext ready).tokenWritePos = state.tokenWritePos :=
  ⟨(get_queueIfReady (by decide)).trans (get_set_of_disjoint hr (by decide)), (state.set_readiness_fields hr).2.2.2⟩

theorem update_tokenReadPos (state : ReadinessState) {pos : BitVec 64} {interest : Ready} {opt : PollOpt} (hp : Within pos MASK_2)
    (hi : Within interest.bits MASK_4) (ho : Within opt.bits MASK_4) :
    (state.updateNext pos interest opt).tokenReadPos = state.tokenReadPos := by
  unfold updateNext
  exact (get_queueIfReady (by decide)).trans ((get_set_of_disjoint ho (by decide)).trans
    ((get_set_of_disjoint hi (by decide)).trans (get_set_of_disjoint hp (by decide))))

theorem flagged_positions (state : ReadinessState) :
    state.flagged.tokenReadPos = state.tokenReadPos ∧ state.flagged.tokenWritePos = state.tokenWritePos :=
  ⟨get_flagged (by decide), get_flagged (by decide)⟩

/-- A slot's position fits its field. -/
theorem within_of_slot {pos : BitVec 64} (h : pos.toNat ≤ 2) : Within pos MASK_2 := by
  have hpos : pos = 0#64 ∨ pos = 1#64 ∨ pos = 2#64 := by
    rcases (by omega : pos.toNat = 0 ∨ pos.toNat = 1 ∨ pos.toNat = 2) with e | e | e
    · exact .inl (BitVec.eq_of_toNat_eq e)
    · exact .inr (.inl (BitVec.eq_of_toNat_eq e))
    · exact .inr (.inr (BitVec.eq_of_toNat_eq e))
  rcases hpos with rfl | rfl | rfl <;> decide

end ReadinessState

namespace ReadinessNode

theorem token_setToken (n : ReadinessNode κ J) {pos : BitVec 64} (t : TokenEntry) (h : pos.toNat ≤ 2) :
    (n.setToken pos t).token pos = some t := by
  unfold setToken token
  rcases (by omega : pos.toNat = 0 ∨ pos.toNat = 1 ∨ pos.toNat = 2) with e | e | e <;> rw [e] <;> rfl

theorem token_setToken_ne (n : ReadinessNode κ J) {pos pos' : BitVec 64} (t : TokenEntry) (h : pos' ≠ pos) :
    (n.setToken pos t).token pos' = n.token pos' := by
  have h : pos'.toNat ≠ pos.toNat := fun e => h (BitVec.eq_of_toNat_eq e)
  unfold token
  split
  next e' =>
    unfold setToken
    split <;> first | rfl | omega
  next e' =>
    unfold setToken
    split <;> first | rfl | omega
  next e' =>
    unfold setToken
    split <;> first | rfl | omega
  next => rfl

end ReadinessNode

/-! ## The lock and the slots -/

/-- Between taking and giving back the update lock. -/
def Pc.critical {κ J : Type} (p : Pc κ J) : Bool :=
  match p with
  | .updLoad _ | .updToken _ _ | .updSlot _ _ _ | .updSwap _ _ _ | .updUnlock _ _ => true
  | _ => false

/-- What the holder of the lock knows of the positions, where it is. -/
def SlotOk (n : ReadinessNode κ J) (p : Pc κ J) : Prop :=
  match p with
  | .updToken _ state => state.tokenWritePos = n.state.tokenWritePos ∧ state.tokenReadPos.toNat ≤ 2 ∧
      (state.tokenReadPos = n.state.tokenReadPos ∨ n.state.tokenReadPos = n.state.tokenWritePos)
  | .updSlot _ _ pos => pos.toNat ≤ 2 ∧ pos ≠ n.state.tokenWritePos ∧ pos ≠ n.state.tokenReadPos
  | .updSwap a _ pos => pos.toNat ≤ 2 ∧ n.token pos = some a.token
  | .panicked => False
  | _ => True

/-- The word that the consumer stored, or found, has the read position. -/
def ReadOk (state : ReadinessState) (c : ConsumerPc) : Prop :=
  match c with
  | .putBack next _ | .requeue next _ | .token next _ => next.tokenReadPos = state.tokenReadPos
  | .panicked => False
  | _ => True

structure Slots (n : ReadinessNode κ J) (pc : ι → Pc κ J) (c : ConsumerPc) : Prop where
  one : ∀ i j, (pc i).critical = true → (pc j).critical = true → i = j
  lock : n.updateLock = true ↔ ∃ i, (pc i).critical = true
  read : n.state.tokenReadPos.toNat ≤ 2
  write : n.state.tokenWritePos.toNat ≤ 2
  threads : ∀ i, SlotOk n (pc i)
  reader : ReadOk n.state c

/-- Nobody but the holder of the lock looks at the slots. -/
theorem SlotOk.elsewhere {n n' : ReadinessNode κ J} {p : Pc κ J} (h : SlotOk n p) (hp : p.critical = false) : SlotOk n' p := by
  cases p <;> first | exact h | cases hp

theorem emit_reads {state next : ReadinessState} (readiness : Ready) (h : next.tokenReadPos = state.tokenReadPos) :
    ReadOk state (emit next readiness) := by
  unfold emit
  split
  · trivial
  · exact h

theorem settle_reads {state next : ReadinessState} (readiness : Ready) (h : next.tokenReadPos = state.tokenReadPos) :
    ReadOk state (settle next readiness) := by
  unfold settle
  split
  · exact h
  · exact emit_reads readiness h

theorem pollTop_reads (state : ReadinessState) : ReadOk state (pollTop state) := by
  unfold pollTop
  split
  · trivial
  · split
    · exact settle_reads _ (congrArg ReadinessState.tokenReadPos (by symm; assumption))
    · trivial

namespace Slots

variable {n n' : ReadinessNode κ J} {pc : ι → Pc κ J} {c : ConsumerPc}

/-- The node changes where the slots have no part. -/
theorem same (h : Slots n pc c) (hr : n'.state.tokenReadPos = n.state.tokenReadPos)
    (hw : n'.state.tokenWritePos = n.state.tokenWritePos) (ht : n'.token = n.token) (hl : n'.updateLock = n.updateLock) :
    Slots n' pc c := by
  refine ⟨h.one, by rw [hl]; exact h.lock, by rw [hr]; exact h.read, by rw [hw]; exact h.write, fun i => ?_, ?_⟩
  · have hi := h.threads i
    generalize pc i = p at hi
    cases p <;> simp only [SlotOk, hr, hw, ht] at hi ⊢ <;> exact hi
  · have hc := h.reader
    cases c <;> simp only [ReadOk, hr] at hc ⊢ <;> exact hc

/-- The consumer moves. -/
theorem poll (h : Slots n pc c) {c' : ConsumerPc} (hc : ReadOk n.state c') : Slots n pc c' :=
  ⟨h.one, h.lock, h.read, h.write, h.threads, hc⟩

/-- The read position goes to the write position. -/
theorem turn (h : Slots n pc c) {c' : ConsumerPc} (hr : n'.state.tokenReadPos = n.state.tokenWritePos)
    (hw : n'.state.tokenWritePos = n.state.tokenWritePos) (ht : n'.token = n.token) (hl : n'.updateLock = n.updateLock)
    (hc : ReadOk n'.state c') : Slots n' pc c' := by
  refine ⟨h.one, by rw [hl]; exact h.lock, by rw [hr]; exact h.write, by rw [hw]; exact h.write, fun i => ?_, hc⟩
  have hi := h.threads i
  generalize pc i = p at hi
  cases p with
  | updToken a state =>
    obtain ⟨h1, h2, -⟩ := hi
    exact ⟨h1.trans hw.symm, h2, .inr (hr.trans hw.symm)⟩
  | updSlot a state pos =>
    obtain ⟨h1, h2, -⟩ := hi
    exact ⟨h1, by rw [hw]; exact h2, by rw [hr]; exact h2⟩
  | updSwap a state pos =>
    obtain ⟨h1, h2⟩ := hi
    exact ⟨h1, by rw [ht]; exact h2⟩
  | _ => exact hi

variable [DecidableEq ι] {i : ι} {p p' : Pc κ J}

omit [DecidableEq ι] in
theorem at_pc (h : Slots n pc c) (hpc : pc i = p) : SlotOk n p := hpc ▸ h.threads i

theorem critical_update (hpc : pc i = p) (hp : p'.critical = p.critical) (j : ι) :
    (update pc i p' j).critical = (pc j).critical := by
  by_cases e : j = i
  · subst e
    rw [Function.update_self, hp, hpc]
  · rw [Function.update_of_ne e]

/-- A thread moves, in the lock or outside. -/
theorem move (h : Slots n pc c) (hpc : pc i = p) (hp : p'.critical = p.critical) (ok : SlotOk n p') :
    Slots n (update pc i p') c := by
  have hcrit := critical_update hpc hp
  refine ⟨fun j k hj hk => ?_, ?_, h.read, h.write, ?_, h.reader⟩
  · rw [hcrit] at hj hk
    exact h.one j k hj hk
  · simp only [hcrit]
    exact h.lock
  · exact (Function.forall_update_iff pc fun _ => SlotOk n).mpr ⟨ok, fun j _ => h.threads j⟩

/-- The holder of the lock moves, and the node with it. -/
theorem hold (h : Slots n pc c) (hpc : pc i = p) (hp : p.critical = true) (hp' : p'.critical = true)
    (hl : n'.updateLock = n.updateLock) (hr : n'.state.tokenReadPos = n.state.tokenReadPos)
    (hw : n'.state.tokenWritePos.toNat ≤ 2) (ok : SlotOk n' p') : Slots n' (update pc i p') c := by
  have hcrit := critical_update hpc (hp'.trans hp.symm)
  refine ⟨fun j k hj hk => ?_, ?_, by rw [hr]; exact h.read, hw, ?_, ?_⟩
  · rw [hcrit] at hj hk
    exact h.one j k hj hk
  · simp only [hcrit, hl]
    exact h.lock
  · refine (Function.forall_update_iff pc fun _ => SlotOk n').mpr ⟨ok, fun j hne => ?_⟩
    refine (h.threads j).elsewhere (Bool.eq_false_iff.mpr fun hj => hne ?_)
    exact h.one j i hj (by rw [hpc]; exact hp)
  · have hc := h.reader
    cases c <;> simp only [ReadOk, hr] at hc ⊢ <;> exact hc

theorem take (h : Slots n pc c) {a : UpdateArgs κ J} (hl : n.updateLock = false) :
    Slots { n with updateLock := true } (update pc i (.updLoad a)) c := by
  have none : ∀ j, ¬ (pc j).critical = true := by
    intro j hj
    have := h.lock.mpr ⟨j, hj⟩
    rw [hl] at this
    cases this
  have self : ∀ j, (update pc i (.updLoad a) j).critical = true → j = i := by
    intro j hj
    by_contra e
    rw [Function.update_of_ne e] at hj
    exact none j hj
  refine ⟨fun j k hj hk => (self j hj).trans (self k hk).symm, ⟨fun _ => ⟨i, ?_⟩, fun _ => rfl⟩, h.read, h.write, ?_, h.reader⟩
  · rw [Function.update_self]
    rfl
  · refine (Function.forall_update_iff pc fun _ => SlotOk { n with updateLock := true }).mpr ⟨trivial, fun j _ => ?_⟩
    exact (h.threads j).elsewhere (Bool.eq_false_iff.mpr (none j))

theorem give (h : Slots n pc c) (hpc : pc i = p) (hp : p.critical = true) (hp' : p'.critical = false) (ok : SlotOk n p') :
    Slots { n with updateLock := false } (update pc i p') c := by
  have others : ∀ j, j ≠ i → (pc j).critical = false := fun j hne =>
    Bool.eq_false_iff.mpr fun hj => hne (h.one j i hj (by rw [hpc]; exact hp))
  have none : ∀ j, (update pc i p' j).critical = false :=
    (Function.forall_update_iff pc fun _ q => q.critical = false).mpr ⟨hp', others⟩
  refine ⟨fun j _ hj => absurd hj (Bool.eq_false_iff.mp (none j)), ⟨nofun, fun hj => ?_⟩, h.read, h.write, ?_, h.reader⟩
  · obtain ⟨j, hj⟩ := hj
    exact absurd hj (Bool.eq_false_iff.mp (none j))
  · refine (Function.forall_update_iff pc fun _ => SlotOk { n with updateLock := false }).mpr ⟨ok.elsewhere hp', fun j hne => ?_⟩
    exact (h.threads j).elsewhere (others j hne)

end Slots

/-! ## The steps -/

theorem setTop_slot (n : ReadinessNode κ J) (ready : Ready4) (state : ReadinessState) :
    (setTop ready state : Pc κ J).critical = false ∧ SlotOk n (setTop ready state) := by
  unfold setTop
  split <;> exact ⟨rfl, trivial⟩

theorem setDone_slot (n : ReadinessNode κ J) (state next : ReadinessState) :
    (setDone state next : Pc κ J).critical = false ∧ SlotOk n (setDone state next) := by
  unfold setDone
  split <;> exact ⟨rfl, trivial⟩

theorem checkQueue_slot [DecidableEq κ] (n : ReadinessNode κ J) (a : UpdateArgs κ J) (q : κ) :
    (checkQueue a q).critical = false ∧ SlotOk n (checkQueue a q) := by
  unfold checkQueue
  split <;> exact ⟨rfl, trivial⟩

theorem updDone_slot (n : ReadinessNode κ J) (a : UpdateArgs κ J) (turned : Bool) :
    (updDone a turned).critical = false ∧ SlotOk n (updDone a turned) := by
  cases turned <;> exact ⟨rfl, trivial⟩

/-- Where the token goes: where it is already, or to the next slot. -/
theorem placeToken_slot {n : ReadinessNode κ J} {a : UpdateArgs κ J} {state : ReadinessState} (h : SlotOk n (.updToken a state))
    (hw : n.state.tokenWritePos.toNat ≤ 2) : (placeToken a state (n.token state.tokenWritePos)).critical = true ∧
      SlotOk n (placeToken a state (n.token state.tokenWritePos)) := by
  obtain ⟨h1, h2, h3⟩ := h
  have hw' : state.tokenWritePos.toNat ≤ 2 := by rw [h1]; exact hw
  obtain ⟨t, ht⟩ := n.token_some hw'
  obtain ⟨pos, hpos, hle, hnw, hnr⟩ := state.nextTokenPos_spec hw' h2
  unfold placeToken
  rw [ht]
  by_cases e : a.token = t
  · simp only [if_pos e]
    exact ⟨rfl, hw', ht.trans (congrArg some e.symm)⟩
  · simp only [if_neg e, hpos]
    refine ⟨rfl, hle, by rw [← h1]; exact hnw, ?_⟩
    rcases h3 with h3 | h3
    · rw [← h3]
      exact hnr
    · rw [h3, ← h1]
      exact hnw

theorem slots_step [DecidableEq ι] [DecidableEq κ] {s s' : NodeSt ι κ J} {e : NodeEv ι κ J} (h : Slots s.node s.pc s.consumer)
    (hs : NodeStep s e s') : Slots s'.node s'.pc s'.consumer := by
  cases hs with
  | setCall i ready hpc => exact h.move hpc rfl trivial
  | setLoad i ready hpc =>
    obtain ⟨hc, hok⟩ := setTop_slot s.node ready s.node.state
    exact h.move hpc hc hok
  | setSwap i ready state hpc hst =>
    subst hst
    obtain ⟨hr, hw⟩ := s.node.state.set_readiness_positions ready.2
    obtain ⟨hc, hok⟩ := setDone_slot s.node s.node.state (s.node.state.setReadinessNext ready)
    exact (h.move hpc hc hok).same hr hw rfl rfl
  | setRetry i ready state hpc hst =>
    obtain ⟨hc, hok⟩ := setTop_slot s.node ready s.node.state
    exact h.move hpc hc hok
  | loadNull i hpc hq => exact h.move hpc rfl trivial
  | loadQueue i q hpc hq => exact h.move hpc rfl trivial
  | link i hpc => exact h.move hpc rfl trivial
  | wakeup i ok hpc => exact h.move hpc rfl trivial
  | returned i ok hpc => exact h.move hpc rfl trivial
  | updCall i a hpc hf => exact h.move hpc rfl trivial
  | updNull i a hpc hq => exact h.move hpc rfl trivial
  | updQueue i a q hpc hq =>
    obtain ⟨hc, hok⟩ := checkQueue_slot s.node a q
    exact h.move hpc hc hok
  | updAssociate i a hpc hq =>
    have h' : Slots s.node (update s.pc i (.updRef a)) s.consumer := h.move hpc rfl trivial
    exact h'.same rfl rfl rfl rfl
  | updTaken i a q hpc hq =>
    obtain ⟨hc, hok⟩ := checkQueue_slot s.node a q
    exact h.move hpc hc hok
  | updRef i a hpc =>
    have h' : Slots s.node (update s.pc i (.updLock a)) s.consumer := h.move hpc rfl trivial
    exact h'.same rfl rfl rfl rfl
  | updLock i a hpc hl => exact h.take hl
  | updLocked i a hpc hl => exact h.move hpc rfl trivial
  | updLoad i a hpc => exact h.move hpc rfl ⟨rfl, h.read, .inl rfl⟩
  | updToken i a state hpc =>
    obtain ⟨hc, hok⟩ := placeToken_slot (h.at_pc hpc) h.write
    exact h.move hpc hc hok
  | updSlot i a state pos hpc =>
    obtain ⟨hle, -, -⟩ := h.at_pc hpc
    obtain ⟨hst, hl, -⟩ := s.node.setToken_frame pos a.token
    exact h.hold hpc rfl rfl hl (by rw [hst]) (by rw [hst]; exact h.write) ⟨hle, s.node.token_setToken a.token hle⟩
  | updSwap i a state pos hpc hst =>
    subst hst
    obtain ⟨hle, -⟩ := h.at_pc hpc
    have hp := ReadinessState.within_of_slot hle
    obtain ⟨-, -, -, hw⟩ := s.node.state.update_fields hp a.interest.2 a.opt.2
    exact h.hold hpc rfl rfl rfl (s.node.state.update_tokenReadPos hp a.interest.2 a.opt.2) (by rw [hw]; exact hle) trivial
  | updRetry i a state pos hpc hst =>
    have hok : SlotOk s.node (.updSwap a state pos) := h.at_pc hpc
    exact h.move hpc rfl hok
  | updUnlock i a turned hpc =>
    obtain ⟨hc, hok⟩ := updDone_slot s.node a turned
    exact h.give hpc rfl hc hok
  | updJob i a hpc =>
    have h' : Slots s.node (update s.pc i .enqueue) s.consumer := h.move hpc rfl trivial
    exact h'.same rfl rfl rfl rfl
  | drop i hpc hf hu =>
    obtain ⟨hr, hw⟩ := s.node.state.flagged_positions
    refine Slots.same (h.move hpc ?_ ?_) hr hw rfl rfl
    · split <;> rfl
    · split <;> trivial
  | dequeue hc hl => exact h.poll trivial
  | pollLoad hc => exact h.poll (pollTop_reads _)
  | pollSwap state hc hst =>
    subst hst
    exact h.turn s.node.state.poll_tokenReadPos s.node.state.poll_tokenWritePos rfl rfl (settle_reads _ rfl)
  | pollRetry state hc hst => exact h.poll (pollTop_reads _)
  | release hc =>
    have h' : Slots s.node s.pc .away := h.poll trivial
    exact h'.same rfl rfl rfl rfl
  | putBack next readiness hc =>
    have hr := h.reader
    rw [hc] at hr
    exact h.poll hr
  | requeueLink next readiness hc =>
    have hr := h.reader
    rw [hc] at hr
    exact h.poll (emit_reads readiness hr)
  | token next readiness t hc ht => exact h.poll trivial
  | noToken next readiness hc ht =>
    have hr := h.reader
    rw [hc] at hr
    have hle : next.tokenReadPos.toNat ≤ 2 := by
      rw [show next.tokenReadPos = s.node.state.tokenReadPos from hr]
      exact h.read
    obtain ⟨t, ht'⟩ := s.node.token_some hle
    rw [ht] at ht'
    cases ht'
  | push readiness t hc => exact h.poll trivial
  | resetJob hc =>
    have h' : Slots s.node s.pc .away := h.poll trivial
    exact h'.same rfl rfl rfl rfl

/-- A new word has both positions at the first slot. -/
theorem new_positions (interest : Ready4) (opt : PollOpt4) : (ReadinessState.new interest opt).tokenReadPos = 0#64 ∧
    (ReadinessState.new interest opt).tokenWritePos = 0#64 := by
  have hz : SameOutside ReadinessState.NEW_FIELDS (ReadinessState.new interest opt).bits 0#64 := by
    rw [ReadinessState.new_frame, BitVec.and_or_distrib_right, interest.2.shift (by decide), opt.2.shift (by decide), BitVec.or_zero]
  exact ⟨(hz.field (by decide)).trans (by decide), (hz.field (by decide)).trans (by decide)⟩

theorem new_slots (queue : Option κ) (token : TokenEntry) (interest : Ready4) (opt : PollOpt4) (refCount : Nat) :
    Slots (.new queue token interest opt refCount : ReadinessNode κ J) (fun _ : ι => .idle) .away := by
  obtain ⟨hr, hw⟩ := new_positions interest opt
  refine ⟨fun i j hi => (by cases hi), ⟨nofun, fun hi => ?_⟩, ?_, ?_, fun i => trivial, trivial⟩
  · obtain ⟨i, hi⟩ := hi
    cases hi
  · show (ReadinessState.new interest opt).tokenReadPos.toNat ≤ 2
    rw [hr]
    decide
  · show (ReadinessState.new interest opt).tokenWritePos.toNat ≤ 2
    rw [hw]
    decide

theorem fresh_slots {s : NodeSt ι κ J} (h : s.Fresh) : Slots s.node s.pc s.consumer := by
  obtain ⟨n, rfl, hn⟩ := h
  rcases hn with rfl | ⟨queue, token, interest, opt, rfl⟩
  · exact new_slots ..
  · exact new_slots ..

theorem slots_run [DecidableEq ι] [DecidableEq κ] {τ : List (NodeEv ι κ J)} {s : NodeSt ι κ J} (h : Run (node ι κ J) τ s) :
    Slots s.node s.pc s.consumer :=
  Run.inv (P := fun s : NodeSt ι κ J => Slots s.node s.pc s.consumer) (fun _ hi => fresh_slots hi)
    (fun _ _ _ hi hs => slots_step hi hs) h

end Sickle.Poll
