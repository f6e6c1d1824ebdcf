/-
  Sickle.Poll.Pending — no readiness is lost.

  `Pending` is what a `set_readiness` or an `update` that leaves something ready brings
  about: the node is queued, and the consumer is not about to release it. Every step
  keeps it but the consumer's own looks at the state, so it lasts until the consumer has
  seen that value or a newer one.

  - `no_lost_readiness`: for as long QUEUED is set, and the node's place in the queue has
    one owner: it is in the queue, or in the consumer's hands, or a thread is about to
    enqueue it.
-/

import Sickle.Poll.NodeInv

namespace Sickle.Poll

open Function (update)
open Sickle.Lib Sickle.Lib.Word

variable {ι κ J : Type}

/-- A `set_readiness` or an `update` left something ready. -/
def LeavesReady (e : NodeEv ι κ J) : Prop :=
  match e with
  | .wrote _ state => state.effectiveReadiness ≠ Ready.empty
  | _ => False

/-- The consumer looked at the state. -/
def Observes (e : NodeEv ι κ J) : Prop :=
  match e with
  | .observed _ => True
  | _ => False

structure Pending (s : NodeSt ι κ J) : Prop where
  associated : s.node.readinessQueue ≠ none
  queued : s.node.state.isQueued = true
  kept : s.released = false
  coming : s.consumer ≠ .release

theorem emit_ne_release (next : ReadinessState) (readiness : Ready) : emit next readiness ≠ .release := by
  unfold emit
  split
  next => intro h; cases h
  next => intro h; cases h

variable [DecidableEq ι] [DecidableEq κ]

omit [DecidableEq ι] [DecidableEq κ] in
/-- The consumer does not release a node whose `Registration` lives. -/
theorem NodeInv.coming {s : NodeSt ι κ J} {own : Option (Party ι)} (h : NodeInv s.view own) (hf : s.flagged = false) :
    s.consumer ≠ .release := by
  intro hc
  have hp : ConsumerOk s.flagged s.consumer := h.polling
  rw [hc, hf] at hp
  cases hp

theorem pending_start {s s' : NodeSt ι κ J} {e : NodeEv ι κ J} {own : Option (Party ι)} (h : NodeInv s.view own)
    (hs : NodeStep s e s') (he : LeavesReady e) : Pending s' := by
  cases hs with
  | setSwap i ready state hpc hst =>
    subst hst
    have hf : s.flagged = false := h.dropped.symm.trans (h.at_pc hpc)
    refine ⟨?_, ReadinessState.queued_of_ready he, h.not_released hf, h.coming hf⟩
    intro hq
    have ha : s.view.associated = false := by
      show s.node.readinessQueue.isSome = false
      rw [hq]
      rfl
    have hint : s.node.state.interest = Ready.empty := (h.fresh ha hf).1
    obtain ⟨hint', -⟩ := ReadinessState.set_readiness_no_interest ready.2 hint
    exact he (ReadinessState.effectiveReadiness_of_no_interest hint')
  | updSwap i a state pos hpc hst =>
    subst hst
    obtain ⟨ha, hf, -⟩ := h.at_pc hpc
    exact ⟨Option.isSome_iff_ne_none.mp ha, ReadinessState.queued_of_ready he, h.not_released hf, h.coming hf⟩
  | _ => exact he.elim

theorem pending_keep {s s' : NodeSt ι κ J} {e : NodeEv ι κ J} {own : Option (Party ι)} (h : NodeInv s.view own)
    (hp : Pending s) (hs : NodeStep s e s') (he : ¬ Observes e) : Pending s' := by
  obtain ⟨hq, hqueued, hr, hc⟩ := hp
  cases hs with
  | setSwap i ready state hpc hst =>
    subst hst
    exact ⟨hq, ReadinessState.set_readiness_keeps_queued ready.2 hqueued, hr, hc⟩
  | updAssociate i a hpc hnull => exact absurd hnull hq
  | updSlot i a state pos hpc =>
    obtain ⟨hst, -, hrq, -⟩ := s.node.setToken_frame pos a.token
    exact ⟨by rw [hrq]; exact hq, by rw [hst]; exact hqueued, hr, hc⟩
  | updSwap i a state pos hpc hst =>
    subst hst
    obtain ⟨-, -, hpos⟩ := h.at_pc hpc
    exact ⟨hq, ReadinessState.update_keeps_queued hpos a.interest.2 a.opt.2 hqueued, hr, hc⟩
  | drop i hpc hf hu => exact ⟨hq, ReadinessState.isQueued_flagged _, hr, hc⟩
  | dequeue hc' hl => exact ⟨hq, hqueued, hr, by intro h'; cases h'⟩
  | pollLoad hc' => exact absurd trivial he
  | pollSwap state hc' hst => exact absurd trivial he
  | pollRetry state hc' hst => exact absurd trivial he
  | release hc' => exact absurd hc' hc
  | putBack next readiness hc' => exact ⟨hq, hqueued, hr, by intro h'; cases h'⟩
  | requeueLink next readiness hc' => exact ⟨hq, hqueued, hr, emit_ne_release next readiness⟩
  | token next readiness t hc' => exact ⟨hq, hqueued, hr, by intro h'; cases h'⟩
  | noToken next readiness hc' => exact ⟨hq, hqueued, hr, by intro h'; cases h'⟩
  | push readiness t hc' => exact ⟨hq, hqueued, hr, by intro h'; cases h'⟩
  | resetJob hc' => exact ⟨hq, hqueued, hr, by intro h'; cases h'⟩
  | _ => exact ⟨hq, hqueued, hr, hc⟩

theorem pending_run {τ₁ τ₂ : List (NodeEv ι κ J)} {e : NodeEv ι κ J} {s : NodeSt ι κ J}
    (h : Run (node ι κ J) (τ₁ ++ e :: τ₂) s) (he : LeavesReady e) (hq : ∀ e' ∈ τ₂, ¬ Observes e') : Pending s := by
  refine Run.since LeavesReady Observes ?_ ?_ h he hq
  · intro τ s e s' hr hs he
    obtain ⟨own, hi⟩ := node_inv hr
    exact pending_start hi hs he
  · intro τ s e s' hr hp hs he
    obtain ⟨own, hi⟩ := node_inv hr
    exact pending_keep hi hp hs he

/-- After a `set_readiness` or an `update` that left the effective readiness non-empty,
    until the consumer next reads the state: QUEUED is set, and exactly one party has the
    node's place in the queue. -/
theorem no_lost_readiness {τ₁ τ₂ : List (NodeEv ι κ J)} {i : ι} {state : ReadinessState} {s : NodeSt ι κ J}
    (h : Run (node ι κ J) (τ₁ ++ .wrote i state :: τ₂) s) (hw : state.effectiveReadiness ≠ Ready.empty)
    (hq : ∀ seen, .observed seen ∉ τ₂) :
    s.node.state.isQueued = true ∧ ∃ o, Owns s o ∧ ∀ o', Owns s o' → o' = o := by
  have quiet : ∀ e ∈ τ₂, ¬ Observes e := by
    intro e he ho
    cases e with
    | observed seen => exact hq seen he
    | _ => exact ho
  have hp := pending_run h hw quiet
  obtain ⟨own, hi⟩ := node_inv h
  have hown : s.node.state.isQueued = own.isSome := hi.queued (Option.isSome_iff_ne_none.mpr hp.associated) hp.kept
  rw [hp.queued] at hown
  obtain ⟨o, rfl⟩ := Option.isSome_iff_exists.mp hown.symm
  refine ⟨hp.queued, o, (hi.owns_iff o).mpr rfl, ?_⟩
  intro o' ho'
  exact (Option.some.inj ((hi.owns_iff o').mp ho')).symm

theorem no_lost_readiness_one_signal : ∃ s : NodeSt Unit Unit Unit,
    s.node.state.isQueued = true ∧ ∃ o, Owns s o ∧ ∀ o', Owns s o' → o' = o := by
  obtain ⟨s, h, -⟩ := signal_run
  exact ⟨s, no_lost_readiness h (by decide) (by simp)⟩

end Sickle.Poll
