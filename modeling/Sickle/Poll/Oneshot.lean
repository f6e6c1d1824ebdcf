/-
  Sickle.Poll.Oneshot — how often a oneshot registration fires.

  `poll` disarms a oneshot registration when it delivers an event, but only in the branch
  for edge; the epoll selector asks for EPOLLONESHOT whatever else the options are.

  - `budget_step`: with edge, or with no interest, the events delivered, the one under way
    and the interest that is left are one at most.
  - `fires_twice`: otherwise one signal is delivered by every poll.
  - `oneshot_fires_once_iff`: so after an `update` with a oneshot option at most one event is
    delivered exactly when the options have edge too, or there is no interest.
-/

import Sickle.Poll.Publish
import Sickle.Sys.Selector

namespace Sickle.Poll

open Function (update)
open Sickle.Lib Sickle.Lib.Word

variable {ι κ J : Type}

def NodeEv.isEvent : NodeEv ι κ J → Bool
  | .event _ => true
  | _ => false

/-- How many events were delivered on a path. -/
def delivered (p : List (NodeEv ι κ J × NodeSt ι κ J)) : Nat := p.countP fun x => x.1.isEvent

def NodeEv.isUpdate : NodeEv ι κ J → Bool
  | .called _ (.update _) => true
  | _ => false

/-- No call of `update` on the path. -/
def NoUpdate (p : List (NodeEv ι κ J × NodeSt ι κ J)) : Prop := ∀ x ∈ p, x.1.isUpdate = false

/-- Nobody is inside a call, nor has the consumer the node. -/
structure Settled (s : NodeSt ι κ J) : Prop where
  idle : ∀ i, s.pc i = .idle
  away : s.consumer = .away

section Once

variable [DecidableEq ι] [DecidableEq κ]

/-- Whatever the threads signal and however the consumer polls, until the next `update` at
    most one event is delivered. -/
def FiresOnce (s : NodeSt ι κ J) : Prop := ∀ p s', Path (node ι κ J) s p s' → NoUpdate p → delivered p ≤ 1

/-- The labels with which anybody else would come in. -/
def NodeEv.starts : NodeEv ι κ J → Bool
  | .called _ _ | .dropped _ | .dequeued | .returned _ _ => true
  | _ => false

/-- A whole call of `update` that returns Ok, with nobody else about. -/
def Updates (s : NodeSt ι κ J) (i : ι) (a : UpdateArgs κ J) (s' : NodeSt ι κ J) : Prop :=
  ∃ s₁ p s₂, NodeStep s (.called i (.update a)) s₁ ∧ Path (node ι κ J) s₁ p s₂ ∧ (∀ x ∈ p, x.1.starts = false) ∧
    NodeStep s₂ (.returned i true) s'

end Once

/-! ## With edge -/

/-- Events that the consumer has taken out of the state and not delivered. -/
def ConsumerPc.emitting (c : ConsumerPc) : Nat :=
  match c with
  | .putBack _ readiness | .requeue _ readiness => if readiness.isEmpty then 0 else 1
  | .token _ _ | .push _ _ => 1
  | _ => 0

/-- One as long as there is an interest. -/
def ReadinessState.armed (s : ReadinessState) : Nat := if s.interest.isEmpty then 0 else 1

structure Budget (n : Nat) (s : NodeSt ι κ J) : Prop where
  bound : n + s.consumer.emitting + s.node.state.armed ≤ 1
  oneshot : s.node.state.pollOpt.isOneshot = true
  edge : s.node.state.pollOpt.isEdge = true ∨ s.node.state.interest = Ready.empty
  threads : ∀ i, (s.pc i).updating = false

theorem emit_emitting (next : ReadinessState) (readiness : Ready) :
    (emit next readiness).emitting = if readiness.isEmpty then 0 else 1 := by
  unfold emit
  split <;> rfl

theorem settle_emitting (next : ReadinessState) (readiness : Ready) :
    (settle next readiness).emitting = if readiness.isEmpty then 0 else 1 := by
  unfold settle
  split
  · rfl
  · exact emit_emitting next readiness

namespace ReadinessState

/-- What is ready somebody has an interest in. -/
theorem interest_of_ready {s : ReadinessState} (h : s.effectiveReadiness.isEmpty = false) : s.interest ≠ Ready.empty := by
  intro hi
  rw [effectiveReadiness_of_no_interest hi] at h
  cases h

theorem poll_pollOpt (s : ReadinessState) : s.pollNext.pollOpt = s.pollOpt :=
  congrArg PollOpt.mk (s.poll_keeps (by decide) (by decide) (by decide))

theorem poll_readiness (s : ReadinessState) : s.pollNext.readiness = s.readiness :=
  congrArg Ready.mk (s.poll_keeps (by decide) (by decide) (by decide))

theorem flagged_fields (s : ReadinessState) : s.flagged.interest = s.interest ∧ s.flagged.pollOpt = s.pollOpt :=
  ⟨congrArg Ready.mk (get_flagged (by decide)), congrArg PollOpt.mk (get_flagged (by decide))⟩

/-- What a look takes out of the state comes out of the interest. -/
theorem poll_armed {s : ReadinessState} (ho : s.pollOpt.isOneshot = true) (he : s.pollOpt.isEdge = true ∨ s.interest = Ready.empty) :
    (if s.effectiveReadiness.isEmpty then 0 else 1) + s.pollNext.armed = s.armed := by
  unfold armed
  rw [s.poll_interest, ho]
  cases hr : s.effectiveReadiness.isEmpty with
  | true => simp
  | false =>
    have hi := interest_of_ready hr
    have hi' : s.interest.isEmpty = false := beq_eq_false_iff_ne.mpr hi
    rw [he.resolve_right hi, hi']
    rfl

end ReadinessState

namespace Budget

variable {n : Nat} {s s' : NodeSt ι κ J}

/-- A thread moves, and writes the state so that its interest and its options stay. -/
theorem turn [DecidableEq ι] (h : Budget n s) {i : ι} {p : Pc κ J} {node : ReadinessNode κ J} {linked : Nat} {flagged : Bool}
    (hp : p.updating = false) (hi : node.state.interest = s.node.state.interest) (ho : node.state.pollOpt = s.node.state.pollOpt) :
    Budget n { s with node := node, pc := update s.pc i p, linked := linked, flagged := flagged } := by
  have ha : node.state.armed = s.node.state.armed := by
    unfold ReadinessState.armed
    rw [hi]
  refine ⟨?_, ?_, ?_, ?_⟩
  · show n + s.consumer.emitting + node.state.armed ≤ 1
    rw [ha]
    exact h.bound
  · show node.state.pollOpt.isOneshot = true
    rw [ho]
    exact h.oneshot
  · show node.state.pollOpt.isEdge = true ∨ node.state.interest = Ready.empty
    rw [ho, hi]
    exact h.edge
  · exact (Function.forall_update_iff s.pc fun _ p => p.updating = false).mpr ⟨hp, fun j _ => h.threads j⟩

/-- The consumer moves. -/
theorem moves (h : Budget n s) {c : ConsumerPc} {m : Nat} {node : ReadinessNode κ J} {linked : Nat} {released : Bool}
    (hc : m + c.emitting = n + s.consumer.emitting) (hst : node.state = s.node.state) :
    Budget m { s with node := node, consumer := c, linked := linked, released := released } := by
  have hb := h.bound
  refine ⟨?_, ?_, ?_, h.threads⟩
  · show m + c.emitting + node.state.armed ≤ 1
    rw [hst]
    omega
  · show node.state.pollOpt.isOneshot = true
    rw [hst]
    exact h.oneshot
  · show node.state.pollOpt.isEdge = true ∨ node.state.interest = Ready.empty
    rw [hst]
    exact h.edge

/-- The consumer looks at the state. -/
theorem look (h : Budget n s) (hc : s.consumer.emitting = 0) : Budget n { s with consumer := pollTop s.node.state } := by
  have hb := h.bound
  have ha := ReadinessState.poll_armed h.oneshot h.edge
  refine ⟨?_, h.oneshot, h.edge, h.threads⟩
  show n + (pollTop s.node.state).emitting + s.node.state.armed ≤ 1
  unfold pollTop
  split
  · exact (by rwa [hc] at hb)
  · split
    next hsame =>
      rw [settle_emitting]
      rw [← hsame] at ha
      omega
    next => exact (by rwa [hc] at hb)

/-- And takes the node's event out of it. -/
theorem swap (h : Budget n s) (hc : s.consumer.emitting = 0) : Budget n { s with
    node.state := s.node.state.pollNext
    consumer := settle s.node.state.pollNext s.node.state.effectiveReadiness } := by
  have hb := h.bound
  have ha := ReadinessState.poll_armed h.oneshot h.edge
  refine ⟨?_, ?_, ?_, h.threads⟩
  · show n + (settle s.node.state.pollNext s.node.state.effectiveReadiness).emitting + s.node.state.pollNext.armed ≤ 1
    rw [settle_emitting]
    omega
  · show s.node.state.pollNext.pollOpt.isOneshot = true
    rw [ReadinessState.poll_pollOpt]
    exact h.oneshot
  · show s.node.state.pollNext.pollOpt.isEdge = true ∨ s.node.state.pollNext.interest = Ready.empty
    rw [ReadinessState.poll_pollOpt, s.node.state.poll_interest]
    refine h.edge.imp id fun hi => ?_
    rw [hi]
    exact ite_self _

theorem at_pc (h : Budget n s) {i : ι} {p : Pc κ J} (hpc : s.pc i = p) : p.updating = false := hpc ▸ h.threads i

end Budget

theorem setTop_updating (ready : Ready4) (state : ReadinessState) : (setTop ready state : Pc κ J).updating = false := by
  unfold setTop
  split <;> rfl

theorem setDone_updating (state next : ReadinessState) : (setDone state next : Pc κ J).updating = false := by
  unfold setDone
  split <;> rfl

/-- One step: what is delivered comes out of the budget. -/
theorem budget_step [DecidableEq ι] [DecidableEq κ] {n : Nat} {s s' : NodeSt ι κ J} {e : NodeEv ι κ J} (h : Budget n s)
    (hs : NodeStep s e s') (hu : e.isUpdate = false) : Budget (n + if e.isEvent then 1 else 0) s' := by
  cases hs with
  | setCall i ready hpc => exact h.turn rfl rfl rfl
  | setLoad i ready hpc => exact h.turn (setTop_updating ..) rfl rfl
  | setSwap i ready state hpc hst =>
    subst hst
    obtain ⟨-, hi, ho, -⟩ := s.node.state.set_readiness_fields ready.2
    exact h.turn (setDone_updating ..) hi ho
  | setRetry i ready state hpc hst => exact h.turn (setTop_updating ..) rfl rfl
  | loadNull i hpc hq => exact h.turn rfl rfl rfl
  | loadQueue i q hpc hq => exact h.turn rfl rfl rfl
  | link i hpc => exact h.turn rfl rfl rfl
  | wakeup i ok hpc => exact h.turn rfl rfl rfl
  | returned i ok hpc => exact h.turn rfl rfl rfl
  | updCall => cases hu
  | drop i hpc hf hall =>
    obtain ⟨hi, ho⟩ := s.node.state.flagged_fields
    refine h.turn ?_ hi ho
    split <;> rfl
  | dequeue hc hl => exact h.moves (by rw [hc]; rfl) rfl
  | pollLoad hc => exact h.look (by rw [hc]; rfl)
  | pollSwap state hc hst =>
    subst hst
    exact h.swap (by rw [hc]; rfl)
  | pollRetry state hc hst => exact h.look (by rw [hc]; rfl)
  | release hc => exact h.moves (by rw [hc]; rfl) rfl
  | putBack next readiness hc => exact h.moves (by rw [hc]; rfl) rfl
  | requeueLink next readiness hc => exact h.moves (by rw [hc, emit_emitting]; rfl) rfl
  | token next readiness t hc ht => exact h.moves (by rw [hc]; rfl) rfl
  | noToken next readiness hc ht =>
    have hb := h.bound
    rw [hc] at hb
    exact ⟨Nat.le_trans (Nat.add_le_add_right (Nat.le_add_right n 1) _) hb, h.oneshot, h.edge, h.threads⟩
  | push readiness t hc => exact h.moves (by rw [hc]; rfl) rfl
  | resetJob hc => exact h.moves (by rw [hc]; rfl) rfl
  | updNull i a hpc => cases h.at_pc hpc
  | updQueue i a q hpc => cases h.at_pc hpc
  | updAssociate i a hpc => cases h.at_pc hpc
  | updTaken i a q hpc => cases h.at_pc hpc
  | updRef i a hpc => cases h.at_pc hpc
  | updLock i a hpc => cases h.at_pc hpc
  | updLocked i a hpc => cases h.at_pc hpc
  | updLoad i a hpc => cases h.at_pc hpc
  | updToken i a state hpc => cases h.at_pc hpc
  | updSlot i a state pos hpc => cases h.at_pc hpc
  | updSwap i a state pos hpc => cases h.at_pc hpc
  | updRetry i a state pos hpc => cases h.at_pc hpc
  | updUnlock i a turned hpc => cases h.at_pc hpc
  | updJob i a hpc => cases h.at_pc hpc

theorem budget_run [DecidableEq ι] [DecidableEq κ] {s s' : NodeSt ι κ J} {p : List (NodeEv ι κ J × NodeSt ι κ J)}
    (hp : Path (node ι κ J) s p s') (h : Budget 0 s) (hu : NoUpdate p) : Budget (delivered p) s' := by
  induction hp with
  | nil => exact h
  | @step p t t' e _ he ih =>
    have hb := budget_step (ih fun x hx => hu x (List.mem_append_left _ hx)) he
      (hu (e, t') List.mem_concat_self)
    rwa [delivered, List.countP_append, List.countP_singleton]

/-! ## A call of `update` -/

/-- The transition of the call was made, and stands. -/
structure Made (a : UpdateArgs κ J) (n : ReadinessNode κ J) : Prop where
  interest : n.state.interest = a.interest
  opt : n.state.pollOpt = a.opt
  queue : n.readinessQueue ≠ none

theorem Made.same {a : UpdateArgs κ J} {n n' : ReadinessNode κ J} (h : Made a n) (hs : n'.state = n.state := by rfl)
    (hq : n'.readinessQueue = n.readinessQueue := by rfl) : Made a n' :=
  ⟨by rw [hs]; exact h.interest, by rw [hs]; exact h.opt, by rw [hq]; exact h.queue⟩

/-- How far the call is, by where its thread is. -/
def Halfway (a : UpdateArgs κ J) (n : ReadinessNode κ J) (pc : Pc κ J) : Prop :=
  match pc with
  | .updQueue b | .updAssociate b => b = a
  | .updRef b | .updLock b | .updLoad b | .updToken b _ | .updSlot b _ _ | .updSwap b _ _ => b = a ∧ n.readinessQueue ≠ none
  | .updUnlock _ _ | .updJob _ | .enqueue | .wakeup | .ret true => Made a n
  | .ret false | .panicked => True
  | _ => False

/-- One thread is in the call, and nobody else in any. -/
structure Alone (i : ι) (a : UpdateArgs κ J) (s : NodeSt ι κ J) : Prop where
  others : ∀ j, j ≠ i → s.pc j = .idle
  away : s.consumer = .away
  present : s.flagged = false
  call : Halfway a s.node (s.pc i)

namespace Alone

variable {i : ι} {a : UpdateArgs κ J} {s : NodeSt ι κ J}

/-- Who is in a call is the thread. -/
theorem who (h : Alone i a s) {j : ι} {p : Pc κ J} (hpc : s.pc j = p) (hp : p ≠ .idle) : j = i := by
  by_contra hne
  exact hp (hpc.symm.trans (h.others j hne))

theorem at_pc (h : Alone i a s) {j : ι} {p : Pc κ J} (hpc : s.pc j = p) (hp : p ≠ .idle) : Halfway a s.node p := by
  obtain rfl := h.who hpc hp
  exact hpc ▸ h.call

theorem move [DecidableEq ι] (h : Alone i a s) {j : ι} {p p' : Pc κ J} {n : ReadinessNode κ J} {linked : Nat}
    (hpc : s.pc j = p) (hp : p ≠ .idle) (hw : Halfway a s.node p → Halfway a n p') :
    Alone i a { s with node := n, pc := update s.pc j p', linked := linked } := by
  have hw := hw (h.at_pc hpc hp)
  obtain rfl := h.who hpc hp
  refine ⟨fun k hk => ?_, h.away, h.present, ?_⟩
  · show update s.pc j p' k = .idle
    rw [Function.update_of_ne hk]
    exact h.others k hk
  · show Halfway a n (update s.pc j p' j)
    rwa [Function.update_self]

end Alone

theorem checkQueue_halfway [DecidableEq κ] {a b : UpdateArgs κ J} {n : ReadinessNode κ J} {q : κ} (hb : b = a)
    (hq : n.readinessQueue = some q) : Halfway a n (checkQueue b q) := by
  unfold checkQueue
  split
  · exact ⟨hb, by rw [hq]; simp⟩
  · trivial

theorem placeToken_halfway {a b : UpdateArgs κ J} {n : ReadinessNode κ J} (hb : b = a) (hq : n.readinessQueue ≠ none)
    (state : ReadinessState) (t : Option TokenEntry) : Halfway a n (placeToken b state t) :=
  placeToken_meets trivial ⟨hb, hq⟩ fun _ _ => ⟨hb, hq⟩

theorem alone_step [DecidableEq ι] [DecidableEq κ] {s s' : NodeSt ι κ J} {e : NodeEv ι κ J} {i : ι} {a : UpdateArgs κ J}
    (hi : Slots s.node s.pc s.consumer) (h : Alone i a s) (hs : NodeStep s e s') (he : e.starts = false) : Alone i a s' := by
  have hc := h.away
  cases hs with
  | setCall | returned | updCall | drop | dequeue => cases he
  | setLoad j ready hpc => exact (h.at_pc hpc (by simp)).elim
  | setSwap j ready state hpc => exact (h.at_pc hpc (by simp)).elim
  | setRetry j ready state hpc => exact (h.at_pc hpc (by simp)).elim
  | loadNull j hpc => exact (h.at_pc hpc (by simp)).elim
  | loadQueue j q hpc => exact (h.at_pc hpc (by simp)).elim
  | link j hpc => exact h.move hpc (by simp) id
  | wakeup j ok hpc =>
    refine h.move hpc (by simp) fun hm => ?_
    cases ok with
    | true => exact hm
    | false => trivial
  | updNull j b hpc hq => exact h.move hpc (by simp) id
  | updQueue j b q hpc hq => exact h.move hpc (by simp) fun hb => checkQueue_halfway hb hq
  | updAssociate j b hpc hq => exact h.move hpc (by simp) fun hb => ⟨hb, by simp⟩
  | updTaken j b q hpc hq => exact h.move hpc (by simp) fun hb => checkQueue_halfway hb hq
  | updRef j b hpc => exact h.move hpc (by simp) id
  | updLock j b hpc hl => exact h.move hpc (by simp) id
  | updLocked j b hpc hl =>
    obtain ⟨k, hk⟩ := hi.lock.mp hl
    obtain rfl := h.who hpc (by simp)
    by_cases e : k = j
    · subst e
      rw [hpc] at hk
      cases hk
    · rw [h.others k e] at hk
      cases hk
  | updLoad j b hpc => exact h.move hpc (by simp) id
  | updToken j b state hpc => exact h.move hpc (by simp) fun hb => placeToken_halfway hb.1 hb.2 ..
  | updSlot j b state pos hpc =>
    obtain ⟨-, -, hq, -⟩ := s.node.setToken_frame pos b.token
    exact h.move hpc (by simp) fun hb => ⟨hb.1, by rw [hq]; exact hb.2⟩
  | updSwap j b state pos hpc hst =>
    subst hst
    refine h.move hpc (by simp) fun hb => ?_
    obtain ⟨rfl, hq⟩ := hb
    obtain ⟨hle, -⟩ := hi.at_pc hpc
    obtain ⟨-, hint, hopt, -⟩ := s.node.state.update_fields (ReadinessState.within_of_slot hle) b.interest.2 b.opt.2
    exact ⟨hint, hopt, hq⟩
  | updRetry j b state pos hpc hst => exact h.move hpc (by simp) id
  | updUnlock j b turned hpc =>
    refine h.move hpc (by simp) fun hm => ?_
    cases turned with
    | true => exact hm.same
    | false => exact hm.same
  | updJob j b hpc => exact h.move hpc (by simp) fun hm => hm.same
  | pollLoad hc' => rw [hc] at hc'; cases hc'
  | pollSwap state hc' => rw [hc] at hc'; cases hc'
  | pollRetry state hc' => rw [hc] at hc'; cases hc'
  | release hc' => rw [hc] at hc'; cases hc'
  | putBack next readiness hc' => rw [hc] at hc'; cases hc'
  | requeueLink next readiness hc' => rw [hc] at hc'; cases hc'
  | token next readiness t hc' => rw [hc] at hc'; cases hc'
  | noToken next readiness hc' => rw [hc] at hc'; cases hc'
  | push readiness t hc' => rw [hc] at hc'; cases hc'
  | resetJob hc' => rw [hc] at hc'; cases hc'

/-- Nobody is about, and the registration is there with these options and this interest. -/
structure Waiting (interest : Ready) (opt : PollOpt) (s : NodeSt ι κ J) : Prop where
  settled : Settled s
  present : s.flagged = false
  queue : s.node.readinessQueue ≠ none
  interest : s.node.state.interest = interest
  opt : s.node.state.pollOpt = opt

/-- After the call. -/
theorem updates_waiting [DecidableEq ι] [DecidableEq κ] {τ : List (NodeEv ι κ J)} {s₀ s : NodeSt ι κ J} {i : ι} {a : UpdateArgs κ J}
    (h : Run (node ι κ J) τ s₀) (hs : Settled s₀) (hu : Updates s₀ i a s) :
    (∃ τ', Run (node ι κ J) τ' s) ∧ Waiting a.interest a.opt s := by
  obtain ⟨s₁, p, s₂, hcall, hp, hin, hret⟩ := hu
  have h1 := h.step hcall
  have h0 : Alone i a s₁ := by
    cases hcall with
    | updCall _ _ hpc hf =>
      refine ⟨fun j hj => ?_, hs.away, hf, ?_⟩
      · show update s₀.pc i _ j = .idle
        rw [Function.update_of_ne hj]
        exact hs.idle j
      · show Halfway a s₀.node (update s₀.pc i _ i)
        rw [Function.update_self]
        exact rfl
  have h2 : (∀ x ∈ p, x.1.starts = false) → Alone i a s₂ := by
    refine hp.inv_run h1 (P := fun p s => (∀ x ∈ p, x.1.starts = false) → Alone i a s) (fun _ => h0) ?_
    intro p t e t' hr _ ih he hin
    exact alone_step (slots_run hr) (ih fun x hx => hin x (List.mem_append_left _ hx)) he
      (hin (e, t') List.mem_concat_self)
  have h2 := h2 hin
  refine ⟨⟨_, (hp.run h1).step hret⟩, ?_⟩
  generalize he : (NodeEv.returned i true : NodeEv ι κ J) = e at hret
  cases hret with
  | returned j ok hpc =>
    cases he
    have hm : Made a s₂.node := h2.at_pc hpc (by simp)
    refine ⟨⟨?_, h2.away⟩, h2.present, hm.queue, hm.interest, hm.opt⟩
    exact (Function.forall_update_iff s₂.pc fun _ p => p = .idle).mpr ⟨rfl, h2.others⟩
  | _ => cases he

/-! ## Without edge -/

section Twice

variable [DecidableEq ι] [DecidableEq κ] {τ : List (NodeEv ι κ J)} {s : NodeSt ι κ J} {interest : Ready} {opt : PollOpt}

theorem Waiting.undropped (h : Waiting interest opt s) (hr : Run (node ι κ J) τ s) : s.node.state.isDropped = false := by
  obtain ⟨own, hi⟩ := node_inv hr
  exact hi.dropped.trans h.present

omit [DecidableEq ι] [DecidableEq κ] in
theorem Waiting.again (h : Waiting interest opt s) {s' : NodeSt ι κ J} (hpc : ∀ i, s'.pc i = .idle) (hc : s'.consumer = .away)
    (hf : s'.flagged = s.flagged) (hq : s'.node.readinessQueue = s.node.readinessQueue)
    (hi : s'.node.state.interest = s.node.state.interest) (ho : s'.node.state.pollOpt = s.node.state.pollOpt) :
    Waiting interest opt s' :=
  ⟨⟨hpc, hc⟩, hf.trans h.present, hq ▸ h.queue, hi.trans h.interest, ho.trans h.opt⟩

/-- A thread signals. -/
theorem signals (hr : Run (node ι κ J) τ s) (h : Waiting interest opt s) (i : ι) (ready : Ready4) :
    ∃ p s', Path (node ι κ J) s p s' ∧ NoUpdate p ∧ delivered p = 0 ∧ Waiting interest opt s' ∧
      s'.node.state = s.node.state.setReadinessNext ready := by
  have hidle := h.settled.idle
  obtain ⟨q, hq⟩ := Option.ne_none_iff_exists'.mp h.queue
  obtain ⟨-, hi, ho, -⟩ := s.node.state.set_readiness_fields ready.2
  have p0 : Path (node ι κ J) s [] s := .nil
  have p1 := p0.step (.setCall _ i ready (hidle i))
  have p2 := p1.step (.setLoad _ i ready (by simp))
  have p3 := p2.step (.setSwap _ i ready s.node.state (by simp [setTop, h.undropped hr]) rfl)
  cases ht : turnedOn s.node.state (s.node.state.setReadinessNext ready) with
  | false =>
    have p4 := p3.step (.returned _ i true (by simp [setDone, ht]))
    refine ⟨_, _, p4, ?_, ?_, h.again (fun j => ?_) h.settled.away rfl rfl hi ho, rfl⟩
    · simp [NoUpdate, NodeEv.isUpdate]
    · simp [delivered, NodeEv.isEvent]
    · by_cases e : j = i <;> simp [e, hidle]
  | true =>
    have p4 := p3.step (.loadQueue _ i q (by simp [setDone, ht]) hq)
    have p5 := p4.step (.link _ i (by simp))
    have p6 := p5.step (.wakeup _ i true (by simp))
    have p7 := p6.step (.returned _ i true (by simp))
    refine ⟨_, _, p7, ?_, ?_, h.again (fun j => ?_) h.settled.away rfl rfl hi ho, rfl⟩
    · simp [NoUpdate, NodeEv.isUpdate]
    · simp [delivered, NodeEv.isEvent]
    · by_cases e : j = i <;> simp [e, hidle]

/-- What is ready is linked, with QUEUED set. -/
theorem Waiting.linked (hr : Run (node ι κ J) τ s) (h : Waiting interest opt s) (hq : s.node.state.isQueued = true) : 0 < s.linked := by
  obtain ⟨own, hi⟩ := node_inv hr
  have ha : s.view.associated = true := Option.isSome_iff_ne_none.mpr h.queue
  have hown : s.node.state.isQueued = own.isSome := hi.queued ha (hi.not_released h.present)
  rw [hq] at hown
  obtain ⟨o, rfl⟩ := Option.isSome_iff_exists.mp hown.symm
  have ho : Owns s o := (hi.owns_iff o).mpr rfl
  cases o with
  | queue => exact ho
  | consumer =>
    have ho : s.consumer.holds = true := ho
    rw [h.settled.away] at ho
    cases ho
  | thread i =>
    have ho : (s.pc i).holds = true := ho
    rw [h.settled.idle i] at ho
    cases ho

/-- And the other way. -/
theorem Waiting.queued (hr : Run (node ι κ J) τ s) (h : Waiting interest opt s) (hl : 0 < s.linked) : s.node.state.isQueued = true := by
  obtain ⟨own, hi⟩ := node_inv hr
  have ha : s.view.associated = true := Option.isSome_iff_ne_none.mpr h.queue
  have hown : s.node.state.isQueued = own.isSome := hi.queued ha (hi.not_released h.present)
  rw [hown, (hi.owns_iff .queue).mp hl]
  rfl

/-- The consumer has the node: it looks, and comes to put it back. -/
theorem looks {r : Ready} (hc : s.consumer = .load) (hd : s.node.state.isDropped = false) (hq : s.node.state.pollNext.isQueued = true)
    (he : s.node.state.effectiveReadiness = r) : ∃ p, Path (node ι κ J) s p { s with
      node.state := s.node.state.pollNext, consumer := .putBack s.node.state.pollNext r } ∧ NoUpdate p ∧ delivered p = 0 := by
  have p0 : Path (node ι κ J) s [] s := .nil
  have p1 := p0.step (.pollLoad _ hc)
  by_cases hsame : s.node.state = s.node.state.pollNext
  · have htop : pollTop s.node.state = .putBack s.node.state.pollNext r := by
      simp only [pollTop, hd, if_pos hsame, settle, hq, he, if_true, Bool.false_eq_true, if_false]
    have hend : { s with consumer := pollTop s.node.state } = { s with
        node.state := s.node.state.pollNext, consumer := .putBack s.node.state.pollNext r } := by
      rw [htop, ← hsame]
    rw [hend] at p1
    exact ⟨_, p1, by simp [NoUpdate, NodeEv.isUpdate], by simp [delivered, NodeEv.isEvent]⟩
  · have htop : pollTop s.node.state = .swap s.node.state := by
      simp only [pollTop, hd, if_neg hsame, Bool.false_eq_true, if_false]
    have hset : settle s.node.state.pollNext s.node.state.effectiveReadiness = .putBack s.node.state.pollNext r := by
      simp only [settle, hq, he, if_true]
    have p2 := p1.step (.pollSwap _ s.node.state htop rfl)
    rw [hset] at p2
    exact ⟨_, p2, by simp [NoUpdate, NodeEv.isUpdate], by simp [delivered, NodeEv.isEvent]⟩

/-- The consumer polls a ready node without edge: it delivers the event, and the node is as
    ready as before. -/
theorem polls (hr : Run (node ι κ J) τ s) (h : Waiting interest opt s) (hl : 0 < s.linked)
    (he : s.node.state.effectiveReadiness.isEmpty = false) (ho : opt.isEdge = false) :
    ∃ p s', Path (node ι κ J) s p s' ∧ NoUpdate p ∧ delivered p = 1 ∧ Waiting interest opt s' ∧ 0 < s'.linked ∧
      s'.node.state.effectiveReadiness.isEmpty = false := by
  have hq := h.queued hr hl
  have hnq : s.node.state.pollNext.isQueued = true := by
    rw [ReadinessState.poll_queued, hq, h.opt, ho, he]
    rfl
  have hni : s.node.state.pollNext.interest = s.node.state.interest := by
    rw [ReadinessState.poll_interest, h.opt, ho]
    rfl
  have hslots := slots_run hr
  have hpos : s.node.state.pollNext.tokenReadPos.toNat ≤ 2 := by
    rw [ReadinessState.poll_tokenReadPos]
    exact hslots.write
  obtain ⟨t, ht⟩ := s.node.token_some hpos
  have p0 : Path (node ι κ J) s [] s := .nil
  have p1 := p0.step (.dequeue _ h.settled.away hl)
  obtain ⟨p, p2, hup, hdel⟩ := looks (κ := κ) (J := J) (s := { s with linked := s.linked - 1, consumer := .load }) rfl
    (h.undropped hr) hnq rfl
  have p3 := (p1.trans p2).step (.putBack _ _ _ rfl)
  have p4 := p3.step (.requeueLink _ _ _ rfl)
  have p5 := p4.step (.token _ s.node.state.pollNext s.node.state.effectiveReadiness t (by simp [emit, he]) ht)
  have p6 := p5.step (.push _ _ _ rfl)
  have p7 := p6.step (.resetJob _ rfl)
  refine ⟨_, _, p7, ?_, ?_, h.again h.settled.idle rfl rfl rfl hni (ReadinessState.poll_pollOpt _), Nat.succ_pos _, ?_⟩
  · intro x hx
    simp only [List.append_assoc, List.mem_append, List.mem_singleton, List.nil_append] at hx
    rcases hx with rfl | hx | rfl | rfl | rfl | rfl | rfl
    · rfl
    · exact hup x hx
    all_goals rfl
  · unfold delivered at hdel ⊢
    simp only [List.countP_append, hdel]
    rfl
  · show s.node.state.pollNext.effectiveReadiness.isEmpty = false
    unfold ReadinessState.effectiveReadiness
    rw [hni, ReadinessState.poll_readiness]
    exact he

omit [DecidableEq ι] [DecidableEq κ] in
theorem NoUpdate.append {p q : List (NodeEv ι κ J × NodeSt ι κ J)} (hp : NoUpdate p) (hq : NoUpdate q) : NoUpdate (p ++ q) :=
  fun x hx => (List.mem_append.mp hx).elim (hp x) (hq x)

/-- One signal, two polls, two events. -/
theorem fires_twice (hr : Run (node ι κ J) τ s) (h : Waiting interest opt s) (i : ι) (hw : Within interest.bits MASK_4)
    (hi : interest ≠ Ready.empty) (ho : opt.isEdge = false) : ¬ FiresOnce s := by
  intro once
  obtain ⟨p₁, s₁, hp₁, hu₁, hd₁, h₁, hst⟩ := signals hr h i ⟨interest, hw⟩
  have hr₁ := hp₁.run hr
  have he : s₁.node.state.effectiveReadiness = interest := by
    obtain ⟨hready, -⟩ := s.node.state.set_readiness_fields hw
    unfold ReadinessState.effectiveReadiness
    rw [h₁.interest, hst, hready]
    exact congrArg Ready.mk BitVec.and_self
  have hne : s₁.node.state.effectiveReadiness ≠ Ready.empty := by rwa [he]
  have hq : s₁.node.state.isQueued = true := by
    rw [hst] at hne ⊢
    exact ReadinessState.queued_of_ready hne
  have he : s₁.node.state.effectiveReadiness.isEmpty = false := beq_eq_false_iff_ne.mpr hne
  obtain ⟨p₂, s₂, hp₂, hu₂, hd₂, h₂, hl₂, he₂⟩ := polls hr₁ h₁ (h₁.linked hr₁ hq) he ho
  obtain ⟨p₃, s₃, hp₃, hu₃, hd₃, -⟩ := polls (hp₂.run hr₁) h₂ hl₂ he₂ ho
  have hn := once _ _ ((hp₁.trans hp₂).trans hp₃) ((hu₁.append hu₂).append hu₃)
  unfold delivered at hn hd₁ hd₂ hd₃
  rw [List.countP_append, List.countP_append, hd₁, hd₂, hd₃] at hn
  omega

/-- After a call of `update` with a oneshot option: the registration fires at most once,
    whatever follows until the next call, exactly when its options have edge too, or there
    is nothing it is interested in. -/
theorem oneshot_fires_once_iff {s₀ : NodeSt ι κ J} {i : ι} {a : UpdateArgs κ J} (h : Run (node ι κ J) τ s₀) (hs : Settled s₀)
    (hu : Updates s₀ i a s) (ho : a.opt.1.isOneshot = true) :
    FiresOnce s ↔ a.opt.1.isEdge = true ∨ a.interest.1 = Ready.empty := by
  obtain ⟨⟨τ', hr⟩, hw⟩ := updates_waiting h hs hu
  constructor
  · intro once
    by_contra hn
    obtain ⟨he, hi⟩ := not_or.mp hn
    exact fires_twice hr hw i a.interest.2 hi (by simpa using he) once
  · intro hc p s' hp hup
    have hb : Budget 0 s := by
      refine ⟨?_, ?_, ?_, fun j => ?_⟩
      · rw [hw.settled.away]
        show 0 + 0 + s.node.state.armed ≤ 1
        unfold ReadinessState.armed
        split <;> omega
      · rw [hw.opt]
        exact ho
      · rw [hw.opt, hw.interest]
        exact hc
      · rw [hw.settled.idle j]
        rfl
    have hb := (budget_run hp hb hup).bound
    omega

end Twice

/-! ## A registration for reading -/

def ONESHOT_LEVEL4 : PollOpt4 := ⟨⟨0b0110#64⟩, by decide⟩
def ONESHOT_EDGE4 : PollOpt4 := ⟨⟨0b0101#64⟩, by decide⟩

def oneshotArgs (opt : PollOpt4) : UpdateArgs Unit Unit := ⟨(), NO_TOKEN, READABLE4, opt, none⟩

def readableSt : NodeSt Unit Unit Unit := ⟨readableNode, fun _ => .idle, .away, 0, false, false⟩

theorem readable_run : Run (node Unit Unit Unit) [] readableSt := .init ⟨readableNode, rfl, .inr ⟨_, _, _, _, rfl⟩⟩

theorem oneshot_updates (opt : PollOpt4)
    (h : turnedOn readableNode.state (readableNode.state.updateNext readableNode.state.tokenWritePos READABLE4 opt) = false) :
    ∃ s, Updates readableSt () (oneshotArgs opt) s := by
  have hplace : placeToken (oneshotArgs opt) readableNode.state (readableNode.token readableNode.state.tokenWritePos) =
      .updSwap (oneshotArgs opt) readableNode.state readableNode.state.tokenWritePos := by
    rw [show readableNode.token readableNode.state.tokenWritePos = some NO_TOKEN by decide]
    unfold placeToken
    exact if_pos rfl
  have hcall : NodeStep readableSt _ _ := .updCall _ () (oneshotArgs opt) rfl rfl
  have p0 : Path (node Unit Unit Unit) _ [] _ := .after hcall
  have p1 := p0.step (.updQueue _ () (oneshotArgs opt) () rfl rfl)
  have p2 := p1.step (.updLock _ () (oneshotArgs opt) rfl rfl)
  have p3 := p2.step (.updLoad _ () (oneshotArgs opt) rfl)
  have p4 := p3.step (.updToken _ () (oneshotArgs opt) _ rfl)
  have p5 := p4.step (.updSwap _ () (oneshotArgs opt) _ _ (by simp only [Function.update_self]; exact hplace) rfl)
  have p6 := p5.step (.updUnlock _ () (oneshotArgs opt) false (congrArg (Pc.updUnlock _) h))
  exact ⟨_, _, _, _, hcall, p6, by simp [NodeEv.starts], .returned _ () true rfl⟩

theorem oneshot_fires_once_iff_edge : ∃ s, Updates readableSt () (oneshotArgs ONESHOT_EDGE4) s ∧
    (FiresOnce s ↔ ONESHOT_EDGE4.1.isEdge = true ∨ READABLE4.1 = Ready.empty) := by
  obtain ⟨s, hu⟩ := oneshot_updates ONESHOT_EDGE4 (by decide)
  exact ⟨s, hu, oneshot_fires_once_iff readable_run ⟨fun _ => rfl, rfl⟩ hu (by decide)⟩

/-- With oneshot and level one signal is delivered twice; epoll would be asked for
    EPOLLONESHOT with the same options. -/
theorem oneshot_level_fires_twice : ∃ s, Updates readableSt () (oneshotArgs ONESHOT_LEVEL4) s ∧ ONESHOT_LEVEL4.1.isOneshot = true ∧
    Sys.ioeventToEpoll READABLE4.1 ONESHOT_LEVEL4.1 &&& Sys.EPOLLONESHOT = Sys.EPOLLONESHOT ∧ ¬ FiresOnce s := by
  obtain ⟨s, hu⟩ := oneshot_updates ONESHOT_LEVEL4 (by decide)
  obtain ⟨⟨τ, hr⟩, hw⟩ := updates_waiting readable_run ⟨fun _ => rfl, rfl⟩ hu
  exact ⟨s, hu, by decide, by decide, fires_twice hr hw () READABLE4.2 (by decide) (by decide)⟩

end Sickle.Poll
