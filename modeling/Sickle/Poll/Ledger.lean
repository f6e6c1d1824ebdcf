/-
  Sickle.Poll.Ledger — the references to one node, counted.

  Each handle that is left has one, and the queue has one from the association of the node
  on, until it is released. `update` counts the queue's reference one step after it
  associated the node (`Pc.referring`), with the `Registration` borrowed, so the count is
  never too low to keep the node. `Ledger` is that, with what `Sickle.Poll.NodeInv` says of
  the node's place in the queue; a place that the drop of the queue took is one that nobody
  gives back.

  - `ledger_step`: every step of the node keeps it.
  - `Ledger.refuse`, `Ledger.take`, `Ledger.give`: so does what the drop of the queue does.
  - `Ledger.clone`, `Ledger.dropSetReadiness`, `Ledger.dropRegistration`: so do the handles.
-/

import Sickle.Poll.Shutdown

namespace Sickle.Poll

open Function (update)
open Sickle.Lib

/-- In `update`, between the association of the node and the count of the queue's
    reference. -/
def Pc.referring {κ J : Type} (p : Pc κ J) : Bool :=
  match p with
  | .updRef _ => true
  | _ => false

/-- The node, with the place that the queue gave up in its drop. -/
def NodeSt.placed {ι κ J : Type} (s : NodeSt ι κ J) (taken : Bool) : NodeSt ι κ J := { s with linked := s.linked + taken.toNat }

/-- The numbers: `given` if the reference was released in the drop of the queue, `released`
    if it was by the poll. -/
structure Tally (refCount handles releases frees : Nat) (associated pending released given : Bool) : Prop where
  count : refCount + releases + pending.toNat = handles + associated.toNat
  releases : releases = released.toNat + given.toNat
  frees : frees = if refCount = 0 then 1 else 0

variable {ι J : Type}

/-- `hand` while the drop of the queue has the node in hand, `pend` the thread that has still
    to count the queue's reference. -/
structure Ledger (s : NodeSt ι Unit J) (l : Life ι) (hand : Bool) (own : Option (Party ι)) (pend : Option ι) : Prop where
  node : NodeInv (s.placed l.taken).view own
  pending : ∀ i, (s.pc i).referring = true ↔ pend = some i
  tally : Tally s.node.refCount l.handles l.releases l.frees s.node.readinessQueue.isSome pend.isSome s.released
    (l.taken && !hand)
  hand : hand = true → l.taken = true
  updating : ∀ i, (s.pc i).updating = true → l.task i = some .update
  registered : s.flagged = false → l.registration = true
  dropping : ∀ i, l.task i = some .drop → l.registration = true ∧ s.flagged = true
  once : ∀ i j, l.task i = some .drop → l.task j = some .drop → i = j
  parted : l.taken = true → ∀ i, l.task i ≠ some .update

/-! ## The steps do not depend on the other place -/

theorem placed_step [DecidableEq ι] {s t : NodeSt ι Unit J} {e : NodeEv ι Unit J} (hs : NodeStep s e t) (b : Bool) :
    NodeStep (s.placed b) e (t.placed b) := by
  cases hs with
  | setCall i ready hpc => exact .setCall _ i ready hpc
  | setLoad i ready hpc => exact .setLoad _ i ready hpc
  | setSwap i ready state hpc hst => exact .setSwap _ i ready state hpc hst
  | setRetry i ready state hpc hst => exact .setRetry _ i ready state hpc hst
  | loadNull i hpc hq => exact .loadNull _ i hpc hq
  | loadQueue i q hpc hq => exact .loadQueue _ i q hpc hq
  | link i hpc =>
    unfold NodeSt.placed
    rw [Nat.add_right_comm]
    exact .link (s.placed b) i hpc
  | wakeup i ok hpc => exact .wakeup _ i ok hpc
  | returned i ok hpc => exact .returned _ i ok hpc
  | updCall i a hpc hf => exact .updCall _ i a hpc hf
  | updNull i a hpc hq => exact .updNull _ i a hpc hq
  | updQueue i a q hpc hq => exact .updQueue _ i a q hpc hq
  | updAssociate i a hpc hq => exact .updAssociate _ i a hpc hq
  | updTaken i a q hpc hq => exact .updTaken _ i a q hpc hq
  | updRef i a hpc => exact .updRef _ i a hpc
  | updLock i a hpc hl => exact .updLock _ i a hpc hl
  | updLocked i a hpc hl => exact .updLocked _ i a hpc hl
  | updLoad i a hpc => exact .updLoad _ i a hpc
  | updToken i a state hpc => exact .updToken _ i a state hpc
  | updSlot i a state pos hpc => exact .updSlot _ i a state pos hpc
  | updSwap i a state pos hpc hst => exact .updSwap _ i a state pos hpc hst
  | updRetry i a state pos hpc hst => exact .updRetry _ i a state pos hpc hst
  | updUnlock i a turned hpc => exact .updUnlock _ i a turned hpc
  | updJob i a hpc => exact .updJob _ i a hpc
  | drop i hpc hf hu => exact .drop _ i hpc hf hu
  | dequeue hc hl =>
    unfold NodeSt.placed
    rw [← Nat.sub_add_comm hl]
    exact .dequeue (s.placed b) hc (Nat.lt_add_right _ hl)
  | pollLoad hc => exact .pollLoad _ hc
  | pollSwap state hc hst => exact .pollSwap _ state hc hst
  | pollRetry state hc hst => exact .pollRetry _ state hc hst
  | release hc => exact .release _ hc
  | putBack next readiness hc => exact .putBack _ next readiness hc
  | requeueLink next readiness hc =>
    unfold NodeSt.placed
    rw [Nat.add_right_comm]
    exact .requeueLink (s.placed b) next readiness hc
  | token next readiness t hc ht => exact .token _ next readiness t hc ht
  | noToken next readiness hc ht => exact .noToken _ next readiness hc ht
  | push readiness t hc => exact .push _ readiness t hc
  | resetJob hc => exact .resetJob _ hc

/-! ## The counts move -/

namespace Tally

variable {refCount handles releases frees : Nat} {associated pending released given : Bool}

/-- One reference more, so long as the last of them is not gone. -/
theorem grow {handles' : Nat} {pending' : Bool} (h : Tally refCount handles releases frees associated pending released given)
    (hc : 0 < refCount) (hp : handles + 1 + pending'.toNat = handles' + pending.toNat) :
    Tally (refCount + 1) handles' releases frees associated pending' released given := by
  obtain ⟨h1, h2, h3⟩ := h
  refine ⟨by omega, h2, ?_⟩
  rw [if_neg (by omega)] at h3
  rw [h3, if_neg (by omega)]

/-- `release_node`, of a node that is not freed. -/
theorem shrink {handles' releases' frees' : Nat} {released' given' : Bool}
    (h : Tally refCount handles releases frees associated pending released given) (hc : 0 < refCount)
    (hp : handles + releases' = handles' + releases + 1) (hr : releases' = released'.toNat + given'.toNat)
    (hf : frees' = if refCount = 1 then frees + 1 else frees) :
    Tally (refCount - 1) handles' releases' frees' associated pending released' given' := by
  obtain ⟨h1, h2, h3⟩ := h
  refine ⟨by omega, hr, ?_⟩
  rw [if_neg (by omega)] at h3
  subst h3
  by_cases e : refCount = 1
  · simp [hf, e]
  · rw [hf, if_neg e, if_neg (by omega)]

/-- A handle that is left has its reference. -/
theorem pos (h : Tally refCount handles releases frees associated pending released given)
    (hp : pending.toNat + releases ≤ associated.toNat) (hh : 0 < handles) : 0 < refCount := by
  have := h.count
  omega

end Tally

namespace Life

variable (l : Life ι) (c : Nat)

theorem releaseNode_frees : (l.releaseNode c).frees = if c = 1 then l.frees + 1 else l.frees := by
  unfold releaseNode
  split <;> rfl

theorem releaseNode_fields : (l.releaseNode c).registration = l.registration ∧ (l.releaseNode c).setReadiness = l.setReadiness ∧
    (l.releaseNode c).task = l.task ∧ (l.releaseNode c).taken = l.taken ∧ (l.releaseNode c).releases = l.releases := by
  unfold releaseNode
  split <;> exact ⟨rfl, rfl, rfl, rfl, rfl⟩

end Life

/-! ## What the ledger says -/

namespace Ledger

variable {s : NodeSt ι Unit J} {l : Life ι} {hand : Bool} {own : Option (Party ι)} {pend : Option ι}

/-- A place that the queue gave up is the queue's. -/
theorem taken_place (h : Ledger s l hand own pend) (ht : l.taken = true) : own = some .queue ∧ s.linked = 0 := by
  have hl : (s.placed l.taken).view.linked = s.linked + 1 := by
    rw [ht]
    rfl
  have hq : own = some .queue := by
    by_contra hne
    have := h.node.held.linked.2 hne
    omega
  have := h.node.held.linked.1 hq
  exact ⟨hq, by omega⟩

/-- Who has the node's place, but for the queue, has it before the queue gave it up. -/
theorem not_taken (h : Ledger s l hand own pend) (ho : own ≠ some .queue) : l.taken = false := by
  by_contra ht
  exact ho (h.taken_place (by simpa using ht)).1

/-- Where somebody has the place in the queue, the poll has not released the node. -/
theorem not_released (h : Ledger s l hand own pend) (ho : own ≠ none) : s.released = false := by
  by_contra hr
  exact ho (h.node.released (by simpa [NodeSt.placed, NodeSt.view] using hr)).1

/-- The thread that has still to count the queue's reference has associated the node, and
    the `Registration` is there. -/
theorem pending_live (h : Ledger s l hand own pend) {i : ι} (hp : pend = some i) :
    s.node.readinessQueue.isSome = true ∧ s.flagged = false ∧ l.task i = some .update := by
  have hi := (h.pending i).mpr hp
  cases hpc : s.pc i with
  | updRef a =>
    obtain ⟨ha, hf⟩ : PcOk s.node.readinessQueue.isSome s.flagged (Pc.updRef a : Pc Unit J) := hpc ▸ h.node.threads i
    exact ⟨ha, hf, h.updating i (by rw [hpc]; rfl)⟩
  | _ => rw [hpc] at hi; cases hi

/-- Once the `Registration` is dropped the reference is counted. -/
theorem settled (h : Ledger s l hand own pend) (hf : s.flagged = true) : pend = none := by
  by_contra hp
  obtain ⟨i, hi⟩ := Option.ne_none_iff_exists'.mp hp
  rw [(h.pending_live hi).2.1] at hf
  cases hf

theorem releases_le (h : Ledger s l hand own pend) : l.releases ≤ 1 := by
  have hr := h.tally.releases
  cases ht : l.taken with
  | false =>
    rw [ht] at hr
    cases hs : s.released <;> simp [hs] at hr <;> omega
  | true =>
    rw [h.not_released (by rw [(h.taken_place ht).1]; simp)] at hr
    cases hand <;> simp [ht] at hr <;> omega

/-- The queue's reference is released only if it is there, and counted. -/
theorem debt (h : Ledger s l hand own pend) : pend.isSome.toNat + l.releases ≤ s.node.readinessQueue.isSome.toNat := by
  have hle := h.releases_le
  have hr := h.tally.releases
  cases hp : pend with
  | some i =>
    obtain ⟨ha, hf, hu⟩ := h.pending_live hp
    have ht : l.taken = false := by
      by_contra ht
      exact h.parted (by simpa using ht) i hu
    have hs : s.released = false := h.node.not_released hf
    simp [ht, hs] at hr
    simp [ha, hr]
  | none =>
    cases ha : s.node.readinessQueue.isSome with
    | true => simpa using hle
    | false =>
      obtain ⟨hs, hq, -⟩ := h.node.apart ha
      have ht : l.taken = false := h.not_taken hq
      have hs : s.released = false := hs
      simp [ht, hs] at hr
      simp [hr]

/-- While a handle is left the node is not freed. -/
theorem pos (h : Ledger s l hand own pend) (hh : 0 < l.handles) : 0 < s.node.refCount := h.tally.pos h.debt hh

/-- While the queue has its reference, a node that is associated is not freed. -/
theorem pos_queue (h : Ledger s l hand own pend) (ha : s.node.readinessQueue.isSome = true) (hr : l.releases = 0) :
    0 < s.node.refCount := by
  cases hp : pend with
  | some i =>
    obtain ⟨-, hf, -⟩ := h.pending_live hp
    refine h.pos ?_
    simp only [Life.handles, h.registered hf, Bool.toNat_true]
    omega
  | none =>
    have hc := h.tally.count
    simp [ha, hr, hp] at hc
    omega

/-- Whoever is enqueuing the node is the only one, and the node is in no queue. -/
theorem enqueuing (h : Ledger s l hand own pend) {i : ι} (hpc : s.pc i = .enqueue) :
    own = some (.thread i) ∧ s.linked = 0 ∧ ∀ j, s.pc j = .enqueue → j = i := by
  have owner : ∀ j, s.pc j = .enqueue → own = some (.thread j) := by
    intro j hj
    exact h.node.held.owner (by show (s.pc j).holds = true; rw [hj]; rfl)
  have ho := owner i hpc
  refine ⟨ho, ?_, fun j hj => ?_⟩
  · have hl : s.linked + l.taken.toNat = 0 := h.node.held.linked.2 (by rw [ho]; simp)
    omega
  · have hj' := owner j hj
    rw [ho] at hj'
    simpa using hj'.symm

/-- A node that is in the queue, or on its way there, is not freed. -/
theorem kept (h : Ledger s l hand own pend)
    (hb : 0 < s.linked ∨ (∃ i, (s.pc i).stage = .entering) ∨ s.consumer.entering = true) : 0 < s.node.refCount := by
  obtain ⟨ht, ho, ha⟩ : l.taken = false ∧ own ≠ none ∧ s.node.readinessQueue.isSome = true := by
    rcases hb with hl | ⟨i, hst⟩ | hent
    · have hq : own = some .queue := by
        by_contra hne
        have hl' : s.linked + l.taken.toNat = 0 := h.node.held.linked.2 hne
        omega
      refine ⟨?_, by rw [hq]; simp, ?_⟩
      · by_contra ht
        have := (h.taken_place (by simpa using ht)).2
        omega
      · by_contra ha
        exact (h.node.apart (by simpa [NodeSt.placed, NodeSt.view] using ha)).2.1 hq
    · have hpc : s.pc i = .enqueue := by
        cases hp : s.pc i with
        | enqueue => rfl
        | _ => rw [hp] at hst; cases hst
      have hown := (h.enqueuing hpc).1
      exact ⟨h.not_taken (by rw [hown]; simp), by rw [hown]; simp, h.node.at_pc (i := i) hpc⟩
    · obtain ⟨hown, ha, -, -⟩ := h.node.in_hand (by
        show s.consumer.holds = true
        cases hc : s.consumer with
        | requeue next readiness => rfl
        | _ => rw [hc] at hent; cases hent)
      exact ⟨h.not_taken (by rw [hown]; simp), by rw [hown]; simp, ha⟩
  refine h.pos_queue ha ?_
  have hr := h.tally.releases
  simpa [ht, h.not_released ho] using hr

end Ledger

/-! ## A step of the node -/

section Steps

variable [DecidableEq ι] {s t : NodeSt ι Unit J} {l : Life ι} {hand : Bool} {own own' : Option (Party ι)} {pend : Option ι}

theorem pending_update {pc : ι → Pc Unit J} (h : ∀ j, (pc j).referring = true ↔ pend = some j) {i : ι} {p : Pc Unit J}
    (hp : p.referring = (pc i).referring) (j : ι) : (update pc i p j).referring = true ↔ pend = some j :=
  (Function.forall_update_iff pc fun j p => p.referring = true ↔ pend = some j).mpr ⟨by rw [hp]; exact h i, fun j _ => h j⟩ j

/-- The one thread that has still to count the queue's reference, before or after its step. -/
theorem Ledger.pending_turn (h : Ledger s l hand own pend) {i : ι} {p : Pc Unit J} {pend' : Option ι}
    (hi : p.referring = true ↔ pend' = some i) (hother : ∀ j, j ≠ i → (pend = some j ↔ pend' = some j)) :
    ∀ j, (update s.pc i p j).referring = true ↔ pend' = some j :=
  (Function.forall_update_iff s.pc fun j p => p.referring = true ↔ pend' = some j).mpr
    ⟨hi, fun j hj => (h.pending j).trans (hother j hj)⟩

theorem Ledger.updating_moved (h : Ledger s l hand own pend) {i : ι} {p : Pc Unit J}
    (hp : p.updating = true → (s.pc i).updating = true) : ∀ j, (update s.pc i p j).updating = true → l.task j = some .update :=
  (Function.forall_update_iff s.pc fun j p => p.updating = true → l.task j = some .update).mpr
    ⟨fun hu => h.updating i (hp hu), fun j _ => h.updating j⟩

/-- A thread moves, and may turn to another task. -/
theorem Ledger.turn (h : Ledger s l hand own pend) (hi : NodeInv (t.placed l.taken).view own') {i : ι} {p : Pc Unit J}
    {o : Option Task} (hpc : t.pc = update s.pc i p) (hp : p.referring = (s.pc i).referring)
    (hu : p.updating = true → o = some .update)
    (hd : o = some .drop → l.registration = true ∧ t.flagged = true ∧ ∀ j, l.task j = some .drop → j = i)
    (ho : l.taken = true → o ≠ some .update) (hq : t.node.readinessQueue.isSome = s.node.readinessQueue.isSome)
    (hc : t.node.refCount = s.node.refCount) (hr : t.released = s.released) (hf : s.flagged = true → t.flagged = true) :
    Ledger t { l with task := update l.task i o } hand own' pend := by
  have tasks : ∀ j x, update l.task i o j = some x → (j = i ∧ o = some x) ∨ (j ≠ i ∧ l.task j = some x) := by
    intro j x hx
    by_cases hj : j = i
    · subst hj
      rw [Function.update_self] at hx
      exact .inl ⟨rfl, hx⟩
    · rw [Function.update_of_ne hj] at hx
      exact .inr ⟨hj, hx⟩
  refine ⟨hi, by rw [hpc]; exact pending_update h.pending hp, by rw [hc, hq, hr]; exact h.tally, h.hand, ?_, ?_, ?_, ?_, ?_⟩
  · intro j hj
    show update l.task i o j = _
    rw [hpc] at hj
    by_cases e : j = i
    · subst e
      rw [Function.update_self] at hj ⊢
      exact hu hj
    · rw [Function.update_of_ne e] at hj ⊢
      exact h.updating j hj
  · intro hn
    refine h.registered ?_
    by_contra hs
    rw [hf (by simpa using hs)] at hn
    cases hn
  · intro j hj
    rcases tasks j _ hj with ⟨-, hx⟩ | ⟨-, hx⟩
    · exact ⟨(hd hx).1, (hd hx).2.1⟩
    · exact ⟨(h.dropping j hx).1, hf (h.dropping j hx).2⟩
  · intro j k hj hk
    rcases tasks j _ hj with ⟨rfl, hx⟩ | ⟨-, hx⟩ <;> rcases tasks k _ hk with ⟨rfl, hy⟩ | ⟨-, hy⟩
    · rfl
    · exact ((hd hx).2.2 k hy).symm
    · exact (hd hy).2.2 j hx
    · exact h.once j k hx hy
  · intro ht j hj
    rcases tasks j _ hj with ⟨-, hx⟩ | ⟨-, hx⟩
    · exact ho ht hx
    · exact h.parted ht j hx

/-- A thread goes on with what it does. -/
theorem Ledger.move (h : Ledger s l hand own pend) (hi : NodeInv (t.placed l.taken).view own') {i : ι} {p : Pc Unit J}
    (hpc : t.pc = update s.pc i p) (hp : p.referring = (s.pc i).referring)
    (hu : p.updating = true → (s.pc i).updating = true)
    (hq : t.node.readinessQueue.isSome = s.node.readinessQueue.isSome) (hc : t.node.refCount = s.node.refCount)
    (hr : t.released = s.released) (hf : t.flagged = s.flagged) : Ledger t l hand own' pend := by
  have := h.turn (o := l.task i) hi hpc hp (fun hx => h.updating i (hu hx))
    (fun hx => ⟨(h.dropping i hx).1, by rw [hf]; exact (h.dropping i hx).2, fun j hj => h.once j i hj hx⟩)
    (fun ht => h.parted ht i) hq hc hr (fun hx => by rw [hf, hx])
  rwa [Function.update_eq_self] at this

omit [DecidableEq ι] in
/-- The poll goes on with the node. -/
theorem Ledger.poll (h : Ledger s l hand own pend) (hi : NodeInv (t.placed l.taken).view own') (hpc : t.pc = s.pc)
    (hq : t.node.readinessQueue = s.node.readinessQueue) (hc : t.node.refCount = s.node.refCount)
    (hr : t.released = s.released) (hf : t.flagged = s.flagged) : Ledger t l hand own' pend :=
  ⟨hi, by rw [hpc]; exact h.pending, by rw [hc, hq, hr]; exact h.tally, h.hand, by rw [hpc]; exact h.updating,
    by rw [hf]; exact h.registered, by rw [hf]; exact h.dropping, h.once, h.parted⟩

theorem setTop_away (ready : Ready4) (state : ReadinessState) :
    (setTop ready state : Pc Unit J).referring = false ∧ (setTop ready state : Pc Unit J).updating = false := by
  unfold setTop
  split <;> exact ⟨rfl, rfl⟩

theorem setDone_away (state next : ReadinessState) :
    (setDone state next : Pc Unit J).referring = false ∧ (setDone state next : Pc Unit J).updating = false := by
  unfold setDone
  split <;> exact ⟨rfl, rfl⟩

theorem checkQueue_referring (a : UpdateArgs Unit J) (q : Unit) : (checkQueue a q).referring = false := by
  unfold checkQueue
  split <;> rfl

theorem placeToken_referring (a : UpdateArgs Unit J) (state : ReadinessState) (t : Option TokenEntry) :
    (placeToken a state t).referring = false :=
  placeToken_meets (P := fun p => p.referring = false) rfl rfl fun _ _ => rfl

theorem updDone_referring (a : UpdateArgs Unit J) (turned : Bool) : (updDone a turned).referring = false := by
  unfold updDone
  split <;> rfl

/-- `update` associates the node: whoever did has still to count the queue's reference. -/
theorem Ledger.associate (h : Ledger s l hand own pend) {i : ι} {a : UpdateArgs Unit J} (hpc : s.pc i = .updAssociate a)
    (hq : s.node.readinessQueue = none)
    (hi : NodeInv (({ s with node.readinessQueue := some a.queue, pc := update s.pc i (.updRef a) } : NodeSt ι Unit J).placed
      l.taken).view own') :
    Ledger { s with node.readinessQueue := some a.queue, pc := update s.pc i (.updRef a) } l hand own' (some i) := by
  have hnone : pend = none := by
    by_contra hp
    obtain ⟨j, hj⟩ := Option.ne_none_iff_exists'.mp hp
    have := (h.pending_live hj).1
    rw [hq] at this
    cases this
  subst hnone
  refine ⟨hi, h.pending_turn (by simp [Pc.referring]) fun j hj => by simp [Ne.symm hj], ?_, h.hand,
    h.updating_moved fun _ => by rw [hpc]; rfl, h.registered, h.dropping, h.once, h.parted⟩
  obtain ⟨h1, h2, h3⟩ := h.tally
  refine ⟨?_, h2, h3⟩
  simp [hq] at h1 ⊢
  omega

/-- It counts it. -/
theorem Ledger.refer (h : Ledger s l hand own pend) {i : ι} {a : UpdateArgs Unit J} (hpc : s.pc i = .updRef a)
    (hi : NodeInv (({ s with node.refCount := s.node.refCount + 1, pc := update s.pc i (.updLock a) } : NodeSt ι Unit J).placed
      l.taken).view own') :
    Ledger { s with node.refCount := s.node.refCount + 1, pc := update s.pc i (.updLock a) } l hand own' none := by
  obtain rfl : pend = some i := (h.pending i).mp (by rw [hpc]; rfl)
  obtain ⟨-, hf, -⟩ := h.pending_live rfl
  have hpos : 0 < s.node.refCount := h.pos (by
    simp only [Life.handles, h.registered hf, Bool.toNat_true]
    omega)
  exact ⟨hi, h.pending_turn (by simp [Pc.referring]) fun j hj => by simp [Ne.symm hj], h.tally.grow hpos rfl, h.hand,
    h.updating_moved fun _ => by rw [hpc]; rfl, h.registered, h.dropping, h.once, h.parted⟩

omit [DecidableEq ι] in
theorem Ledger.none_released (h : Ledger s l hand own pend) (hr : s.released = false) (ht : (l.taken && !hand) = false) :
    l.releases = 0 := by
  have := h.tally.releases
  simpa [ht, hr] using this

omit [DecidableEq ι] in
/-- The queue's reference is released, and nothing else is touched. -/
theorem Ledger.spend (h : Ledger s l hand own pend) (ha : s.node.readinessQueue.isSome = true) (h0 : l.releases = 0)
    {released hand' : Bool} {consumer : ConsumerPc}
    (hi : NodeInv (({ s with node.refCount := s.node.refCount - 1, released := released, consumer := consumer } :
      NodeSt ι Unit J).placed l.taken).view own')
    (hrel : 1 = released.toNat + (l.taken && !hand').toNat) (hhand : hand' = true → l.taken = true) :
    Ledger { s with node.refCount := s.node.refCount - 1, released := released, consumer := consumer }
      (l.releaseQueue s.node.refCount) hand' own' pend := by
  obtain ⟨f1, f2, f3, f4, -⟩ := l.releaseNode_fields s.node.refCount
  refine ⟨?_, h.pending, ?_, ?_, ?_, ?_, ?_, ?_, ?_⟩
  · show NodeInv (NodeSt.placed _ (l.releaseNode s.node.refCount).taken).view own'
    rw [f4]
    exact hi
  · refine h.tally.shrink (h.pos_queue ha h0) ?_ ?_ (l.releaseNode_frees _)
    · simp only [Life.handles, Life.releaseQueue, f1, f2]
      omega
    · simpa only [Life.releaseQueue, h0, f4] using hrel
  · intro hh
    exact f4.trans (hhand hh)
  · simpa only [Life.releaseQueue, f3] using h.updating
  · simpa only [Life.releaseQueue, f1] using h.registered
  · simpa only [Life.releaseQueue, f1, f3] using h.dropping
  · simpa only [Life.releaseQueue, f3] using h.once
  · simpa only [Life.releaseQueue, f3, f4] using h.parted

omit [DecidableEq ι] in
/-- The poll releases a node whose `Registration` was dropped. -/
theorem Ledger.release (h : Ledger s l hand own pend) (hc : s.consumer = .release)
    (hi : NodeInv (({ s with node.refCount := s.node.refCount - 1, released := true, consumer := .away } :
      NodeSt ι Unit J).placed l.taken).view own') :
    Ledger { s with node.refCount := s.node.refCount - 1, released := true, consumer := .away }
      (l.releaseQueue s.node.refCount) hand own' pend := by
  obtain ⟨ho, ha, hr, -⟩ := h.node.in_hand (by show s.consumer.holds = true; rw [hc]; rfl)
  have ha : s.node.readinessQueue.isSome = true := ha
  have hr : s.released = false := hr
  have ht : l.taken = false := h.not_taken (by rw [ho]; simp)
  exact h.spend ha (h.none_released hr (by rw [ht]; rfl)) hi (by rw [ht]; rfl) h.hand

/-- Every step of the node, taken as the handles allow, keeps the ledger. -/
theorem ledger_step {e : NodeEv ι Unit J} {alive : Prop} (h : Ledger s l hand own pend) (hs : NodeStep s e t)
    (ha : l.Allows alive e) (hal : l.taken = true → ¬ alive) :
    ∃ own' pend', Ledger t (l.after s.node.refCount e) hand own' pend' := by
  obtain ⟨own', hi⟩ := node_step h.node (placed_step hs l.taken)
  refine ⟨own', ?_⟩
  cases hs with
  | setCall i ready hpc =>
    exact ⟨_, h.turn hi rfl (by rw [hpc]; rfl) (by simp [Pc.updating]) (by simp) (by simp) rfl rfl rfl id⟩
  | setLoad i ready hpc =>
    obtain ⟨h1, h2⟩ := setTop_away (J := J) ready s.node.state
    exact ⟨_, h.move hi rfl (by rw [hpc, h1]; rfl) (by simp [h2]) rfl rfl rfl rfl⟩
  | setSwap i ready state hpc hst =>
    obtain ⟨h1, h2⟩ := setDone_away (J := J) state (state.setReadinessNext ready)
    exact ⟨_, h.move hi rfl (by rw [hpc, h1]; rfl) (by simp [h2]) rfl rfl rfl rfl⟩
  | setRetry i ready state hpc hst =>
    obtain ⟨h1, h2⟩ := setTop_away (J := J) ready s.node.state
    exact ⟨_, h.move hi rfl (by rw [hpc, h1]; rfl) (by simp [h2]) rfl rfl rfl rfl⟩
  | loadNull i hpc hq => exact ⟨_, h.move hi rfl (by rw [hpc]; rfl) (by simp [Pc.updating]) rfl rfl rfl rfl⟩
  | loadQueue i q hpc hq => exact ⟨_, h.move hi rfl (by rw [hpc]; rfl) (by simp [Pc.updating]) rfl rfl rfl rfl⟩
  | link i hpc => exact ⟨_, h.move hi rfl (by rw [hpc]; rfl) (by simp [Pc.updating]) rfl rfl rfl rfl⟩
  | wakeup i ok hpc => exact ⟨_, h.move hi rfl (by rw [hpc]; rfl) (by simp [Pc.updating]) rfl rfl rfl rfl⟩
  | returned i ok hpc =>
    exact ⟨_, h.turn hi rfl (by rw [hpc]; rfl) (by simp [Pc.updating]) (by simp) (by simp) rfl rfl rfl id⟩
  | updCall i a hpc hf =>
    obtain ⟨-, halive⟩ := ha
    exact ⟨_, h.turn hi rfl (by rw [hpc]; rfl) (fun _ => rfl) (by simp) (fun ht => absurd halive (hal ht)) rfl rfl rfl id⟩
  | updNull i a hpc hq => exact ⟨_, h.move hi rfl (by rw [hpc]; rfl) (by simp [hpc, Pc.updating]) rfl rfl rfl rfl⟩
  | updQueue i a q hpc hq =>
    exact ⟨_, h.move hi rfl (by rw [hpc, checkQueue_referring]; rfl) (by simp [hpc, Pc.updating]) rfl rfl rfl rfl⟩
  | updAssociate i a hpc hq => exact ⟨_, h.associate hpc hq hi⟩
  | updTaken i a q hpc hq =>
    exact ⟨_, h.move hi rfl (by rw [hpc, checkQueue_referring]; rfl) (by simp [hpc, Pc.updating]) rfl rfl rfl rfl⟩
  | updRef i a hpc => exact ⟨_, h.refer hpc hi⟩
  | updLock i a hpc hl => exact ⟨_, h.move hi rfl (by rw [hpc]; rfl) (by simp [hpc, Pc.updating]) rfl rfl rfl rfl⟩
  | updLocked i a hpc hl => exact ⟨_, h.move hi rfl (by rw [hpc]; rfl) (by simp [Pc.updating]) rfl rfl rfl rfl⟩
  | updLoad i a hpc => exact ⟨_, h.move hi rfl (by rw [hpc]; rfl) (by simp [hpc, Pc.updating]) rfl rfl rfl rfl⟩
  | updToken i a state hpc =>
    exact ⟨_, h.move hi rfl (by rw [hpc, placeToken_referring]; rfl) (by simp [hpc, Pc.updating]) rfl rfl rfl rfl⟩
  | updSlot i a state pos hpc =>
    obtain ⟨-, -, hq, hrc, -⟩ := s.node.setToken_frame pos a.token
    exact ⟨_, h.move hi rfl (by rw [hpc]; rfl) (by simp [hpc, Pc.updating]) (by rw [hq]) hrc rfl rfl⟩
  | updSwap i a state pos hpc hst => exact ⟨_, h.move hi rfl (by rw [hpc]; rfl) (by simp [hpc, Pc.updating]) rfl rfl rfl rfl⟩
  | updRetry i a state pos hpc hst => exact ⟨_, h.move hi rfl (by rw [hpc]; rfl) (by simp [hpc, Pc.updating]) rfl rfl rfl rfl⟩
  | updUnlock i a turned hpc =>
    exact ⟨_, h.move hi rfl (by rw [hpc, updDone_referring]; rfl) (by simp [hpc, Pc.updating]) rfl rfl rfl rfl⟩
  | updJob i a hpc => exact ⟨_, h.move hi rfl (by rw [hpc]; rfl) (by simp [Pc.updating]) rfl rfl rfl rfl⟩
  | drop i hpc hf hu =>
    have hp : (if s.node.state.isQueued then .ret true else .loadQueue : Pc Unit J).referring = false ∧
        (if s.node.state.isQueued then .ret true else .loadQueue : Pc Unit J).updating = false := by
      split <;> exact ⟨rfl, rfl⟩
    refine ⟨_, h.turn hi rfl (by rw [hpc, hp.1]; rfl) (by simp [hp.2]) (fun _ => ⟨ha.1, rfl, fun j hj => ?_⟩) (by simp)
      rfl rfl rfl (fun _ => rfl)⟩
    rw [(h.dropping j hj).2] at hf
    cases hf
  | dequeue hc hl => exact ⟨_, h.poll hi rfl rfl rfl rfl rfl⟩
  | pollLoad hc => exact ⟨_, h.poll hi rfl rfl rfl rfl rfl⟩
  | pollSwap state hc hst => exact ⟨_, h.poll hi rfl rfl rfl rfl rfl⟩
  | pollRetry state hc hst => exact ⟨_, h.poll hi rfl rfl rfl rfl rfl⟩
  | release hc => exact ⟨_, h.release hc hi⟩
  | putBack next readiness hc => exact ⟨_, h.poll hi rfl rfl rfl rfl rfl⟩
  | requeueLink next readiness hc => exact ⟨_, h.poll hi rfl rfl rfl rfl rfl⟩
  | token next readiness t hc ht => exact ⟨_, h.poll hi rfl rfl rfl rfl rfl⟩
  | noToken next readiness hc ht => exact ⟨_, h.poll hi rfl rfl rfl rfl rfl⟩
  | push readiness t hc => exact ⟨_, h.poll hi rfl rfl rfl rfl rfl⟩
  | resetJob hc => exact ⟨_, h.poll hi rfl rfl rfl rfl rfl⟩

/-! ## The drop of the queue, and the handles -/

/-- `enqueue_node` releases a node that comes to it after the closed marker. -/
theorem Ledger.refuse (h : Ledger s l hand own pend) {i : ι} (hpc : s.pc i = .enqueue)
    (hu : ∀ j, l.task j ≠ some .update) :
    Ledger { s with node.refCount := s.node.refCount - 1, pc := update s.pc i .wakeup }
      { l.releaseQueue s.node.refCount with taken := true } false (some .queue) pend := by
  have ho : own = some (.thread i) := h.node.held.owner (by show (s.pc i).holds = true; rw [hpc]; rfl)
  have ht : l.taken = false := h.not_taken (by rw [ho]; simp)
  have hr : s.released = false := h.not_released (by rw [ho]; simp)
  have ha : s.node.readinessQueue.isSome = true := h.node.at_pc (i := i) hpc
  have h0 : l.releases = 0 := h.none_released hr (by rw [ht]; rfl)
  obtain ⟨f1, f2, f3, -, -⟩ := l.releaseNode_fields s.node.refCount
  refine ⟨?_, pending_update h.pending (by rw [hpc]; rfl), ?_, fun _ => rfl, ?_, ?_, ?_, ?_, ?_⟩
  · -- as if it had been linked
    have hv := h.node.link (i := i) hpc rfl ha (p := .wakeup) rfl trivial
    rw [ht] at hv
    exact hv
  · refine h.tally.shrink (h.pos_queue ha h0) ?_ ?_ (l.releaseNode_frees _)
    · simp only [Life.handles, Life.releaseQueue, f1, f2]
      omega
    · simp [Life.releaseQueue, h0, hr]
  · intro j hj
    simp only [Life.releaseQueue, f3]
    exact h.updating_moved (by simp [Pc.updating]) j hj
  · simpa only [Life.releaseQueue, f1] using h.registered
  · simpa only [Life.releaseQueue, f1, f3] using h.dropping
  · simpa only [Life.releaseQueue, f3] using h.once
  · intro _ j
    simp only [Life.releaseQueue, f3]
    exact hu j

omit [DecidableEq ι] in
/-- The drop of the queue takes the node off, -/
theorem Ledger.take (h : Ledger s l false own pend) (hl : 0 < s.linked) (hu : ∀ j, l.task j ≠ some .update) :
    Ledger { s with linked := s.linked - 1 } { l with taken := true } true own pend := by
  have ht : l.taken = false := by
    by_contra ht
    have := (h.taken_place (by simpa using ht)).2
    omega
  refine ⟨?_, h.pending, ?_, fun _ => rfl, h.updating, h.registered, h.dropping, h.once, fun _ => hu⟩
  · have hv := h.node
    rw [ht] at hv
    have hsame : ({ s with linked := s.linked - 1 } : NodeSt ι Unit J).placed true = s.placed false := by
      unfold NodeSt.placed
      simp only [Bool.toNat_true, Bool.toNat_false, Nat.sub_add_cancel hl, Nat.add_zero]
    show NodeInv (NodeSt.placed _ true).view own
    rw [hsame]
    exact hv
  · have := h.tally
    rw [ht] at this
    exact this

omit [DecidableEq ι] in
/-- and releases it. -/
theorem Ledger.give (h : Ledger s l true own pend) :
    Ledger { s with node.refCount := s.node.refCount - 1 } (l.releaseQueue s.node.refCount) false own pend := by
  have ht := h.hand rfl
  have ho := (h.taken_place ht).1
  have hr : s.released = false := h.not_released (by rw [ho]; simp)
  have ha : s.node.readinessQueue.isSome = true := by
    by_contra ha
    exact (h.node.apart (by simpa [NodeSt.placed, NodeSt.view] using ha)).2.1 ho
  exact h.spend ha (h.none_released hr (by simp)) h.node (by rw [hr, ht]; rfl) (by simp)

omit [DecidableEq ι] in
theorem Ledger.clone (h : Ledger s l hand own pend) (hh : 0 < l.setReadiness) :
    Ledger { s with node.refCount := s.node.refCount + 1 } { l with setReadiness := l.setReadiness + 1 } hand own pend := by
  refine ⟨h.node, h.pending, h.tally.grow (h.pos ?_) ?_, h.hand, h.updating, h.registered, h.dropping, h.once, h.parted⟩
  · unfold Life.handles
    omega
  · simp only [Life.handles]
    omega

omit [DecidableEq ι] in
theorem Ledger.dropSetReadiness (h : Ledger s l hand own pend) (hh : 0 < l.setReadiness) :
    Ledger { s with node.refCount := s.node.refCount - 1 }
      { l.releaseNode s.node.refCount with setReadiness := l.setReadiness - 1 } hand own pend := by
  obtain ⟨f1, f2, f3, f4, f5⟩ := l.releaseNode_fields s.node.refCount
  refine ⟨?_, h.pending, ?_, ?_, ?_, ?_, ?_, ?_, ?_⟩
  · show NodeInv (NodeSt.placed _ (l.releaseNode s.node.refCount).taken).view own
    rw [f4]
    exact h.node
  · refine h.tally.shrink (h.pos ?_) ?_ ?_ (l.releaseNode_frees _)
    · unfold Life.handles
      omega
    · simp only [Life.handles, f1, f5]
      omega
    · simp only [f4, f5]
      exact h.tally.releases
  · simpa only [f4] using h.hand
  · simpa only [f3] using h.updating
  · simpa only [f1] using h.registered
  · simpa only [f1, f3] using h.dropping
  · simpa only [f3] using h.once
  · simpa only [f3, f4] using h.parted

theorem Ledger.dropRegistration (h : Ledger s l hand own pend) {i : ι} {ok : Bool} (ht : l.task i = some .drop)
    (hpc : s.pc i = .ret ok) :
    Ledger { s with node.refCount := s.node.refCount - 1, pc := update s.pc i .idle }
      { l.releaseNode s.node.refCount with registration := false, task := update l.task i none } hand own pend := by
  obtain ⟨hreg, hf⟩ := h.dropping i ht
  obtain ⟨-, f2, -, f4, f5⟩ := l.releaseNode_fields s.node.refCount
  have others : ∀ j, update l.task i none j ≠ some .drop := by
    intro j hj
    by_cases e : j = i
    · rw [e, Function.update_self] at hj
      cases hj
    · rw [Function.update_of_ne e] at hj
      exact e (h.once j i hj ht)
  refine ⟨?_, pending_update h.pending (by rw [hpc]; rfl), ?_, ?_, ?_, ?_, fun j hj => absurd hj (others j),
    fun j _ hj => absurd hj (others j), ?_⟩
  · show NodeInv (NodeSt.placed _ (l.releaseNode s.node.refCount).taken).view own
    rw [f4]
    exact h.node.move (i := i) hpc rfl (fun _ => trivial)
  · refine h.tally.shrink (h.pos ?_) ?_ ?_ (l.releaseNode_frees _)
    · simp only [Life.handles, hreg, Bool.toNat_true]
      omega
    · simp only [Life.handles, f2, f5, hreg, Bool.toNat_true, Bool.toNat_false]
      omega
    · simp only [f4, f5]
      exact h.tally.releases
  · simpa only [f4] using h.hand
  · intro j hj
    show update l.task i none j = _
    change (update s.pc i .idle j).updating = true at hj
    by_cases e : j = i
    · rw [e, Function.update_self] at hj
      cases hj
    · rw [Function.update_of_ne e] at hj ⊢
      exact h.updating j hj
  · intro hn
    change s.flagged = false at hn
    rw [hf] at hn
    cases hn
  · intro htk j hj
    simp only [f4] at htk
    change update l.task i none j = _ at hj
    by_cases e : j = i
    · rw [e, Function.update_self] at hj
      cases hj
    · rw [Function.update_of_ne e] at hj
      exact h.parted htk j hj

omit [DecidableEq ι] in
theorem fresh_ledger (h : s.Fresh) : Ledger s ⟨true, 1, fun _ => none, false, 0, 0⟩ false none none := by
  have hi := fresh_inv h
  obtain ⟨n, rfl, hn⟩ := h
  refine ⟨hi, fun i => by simp [Pc.referring], ?_, by simp, (fun i hp => by cases hp), fun _ => rfl, by simp, by simp,
    by simp⟩
  rcases hn with rfl | ⟨queue, token, interest, opt, rfl⟩
  · exact ⟨rfl, rfl, rfl⟩
  · exact ⟨rfl, rfl, rfl⟩

end Steps

end Sickle.Poll
