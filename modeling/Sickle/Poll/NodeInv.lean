/-
  Sickle.Poll.NodeInv — QUEUED says that exactly one party has the node's place in the
  queue.

  The place has at most one owner: the queue, the consumer, or the thread that turned
  QUEUED on. Each step keeps it or hands it on, so `NodeInv` names the owner.

  - `linked_at_most_once`: in every reachable state of a node associated with a queue,
    QUEUED is set exactly when the place has an owner, which is then the only one, and
    whoever is inside `enqueue_node` owns it, with the node in no queue; after the
    release nobody owns it.
-/

import Sickle.Poll.Node

namespace Sickle.Poll

open Function (update)
open Sickle.Lib Sickle.Lib.Word

variable {ι κ J : Type}

/-- What the invariant looks at. -/
structure View (ι κ J : Type) where
  state : ReadinessState
  associated : Bool
  pc : ι → Pc κ J
  consumer : ConsumerPc
  linked : Nat
  flagged : Bool
  released : Bool

def NodeSt.view (s : NodeSt ι κ J) : View ι κ J :=
  ⟨s.node.state, s.node.readinessQueue.isSome, s.pc, s.consumer, s.linked, s.flagged, s.released⟩

/-- The owner, and nobody else, has what a party has that owns the place. -/
structure Held (linked : Nat) (consumer : ConsumerPc) (pc : ι → Pc κ J) (own : Option (Party ι)) : Prop where
  linked : (own = some .queue → linked = 1) ∧ (own ≠ some .queue → linked = 0)
  consumer : consumer.holds = true ↔ own = some .consumer
  thread : ∀ i, (pc i).holds = true ↔ own = some (.thread i)

/-- What a thread has found out by the time it is where it is. -/
def PcOk (associated flagged : Bool) (p : Pc κ J) : Prop :=
  match p with
  | .setSwap _ state => state.isDropped = false
  | .loadQueue => associated = true ∨ flagged = true
  | .enqueue => associated = true
  | .updQueue _ | .updAssociate _ => flagged = false
  | .updRef _ | .updLock _ | .updLoad _ | .updToken _ _ | .updUnlock _ _ | .updJob _ =>
    associated = true ∧ flagged = false
  | .updSlot _ _ pos | .updSwap _ _ pos => associated = true ∧ flagged = false ∧ Within pos MASK_2
  | _ => True

def ConsumerOk (flagged : Bool) (p : ConsumerPc) : Prop :=
  match p with
  | .swap state => state.isDropped = false
  | .release => flagged = true
  | _ => True

structure NodeInv (v : View ι κ J) (own : Option (Party ι)) : Prop where
  held : Held v.linked v.consumer v.pc own
  queued : v.associated = true → v.released = false → v.state.isQueued = own.isSome
  dropped : v.state.isDropped = v.flagged
  released : v.released = true → own = none ∧ v.flagged = true
  /-- Before the first `update` nobody is interested, and nothing is queued. -/
  fresh : v.associated = false → v.flagged = false →
    v.state.interest = Ready.empty ∧ v.state.isQueued = false ∧ own = none
  /-- Nor does a node that was dropped so ever get into a queue. -/
  apart : v.associated = false → v.released = false ∧ own ≠ some .queue ∧ own ≠ some .consumer
  threads : ∀ i, PcOk v.associated v.flagged (v.pc i)
  polling : ConsumerOk v.flagged v.consumer

/-! ## Handing the place on -/

namespace Held

variable {linked : Nat} {consumer : ConsumerPc} {pc : ι → Pc κ J} {own : Option (Party ι)}

theorem owner (h : Held linked consumer pc own) {i : ι} (hi : (pc i).holds = true) : own = some (.thread i) :=
  (h.thread i).mp hi

/-- A thread moves; the place changes hands with it at most. -/
theorem turn [DecidableEq ι] (h : Held linked consumer pc own) {i : ι} {p : Pc κ J} {own' : Option (Party ι)}
    (hq : own = some .queue ↔ own' = some .queue) (hc : own = some .consumer ↔ own' = some .consumer)
    (ht : ∀ j, j ≠ i → (own = some (.thread j) ↔ own' = some (.thread j)))
    (hp : p.holds = true ↔ own' = some (.thread i)) : Held linked consumer (update pc i p) own' := by
  refine ⟨⟨fun h' => h.linked.1 (hq.mpr h'), fun h' => h.linked.2 (fun e => h' (hq.mp e))⟩, h.consumer.trans hc, ?_⟩
  intro j
  by_cases hj : j = i
  · subst hj
    rw [Function.update_self]
    exact hp
  · rw [Function.update_of_ne hj, h.thread j]
    exact ht j hj

/-- A thread that moves with the place, or without it. -/
theorem stay [DecidableEq ι] (h : Held linked consumer pc own) {i : ι} {p : Pc κ J} (hp : p.holds = (pc i).holds) :
    Held linked consumer (update pc i p) own :=
  h.turn Iff.rfl Iff.rfl (fun _ _ => Iff.rfl) (by rw [hp]; exact h.thread i)

/-- A thread takes the place that nobody has. -/
theorem take [DecidableEq ι] (h : Held linked consumer pc none) {i : ι} {p : Pc κ J} (hp : p.holds = true) :
    Held linked consumer (update pc i p) (some (.thread i)) :=
  h.turn (by simp) (by simp) (fun j hj => by simp [Ne.symm hj]) (by simp [hp])

/-- A thread gives it up. -/
theorem drop [DecidableEq ι] {i : ι} (h : Held linked consumer pc (some (.thread i))) {p : Pc κ J}
    (hp : p.holds = false) : Held linked consumer (update pc i p) none :=
  h.turn (by simp) (by simp) (fun j hj => by simp [Ne.symm hj]) (by simp [hp])

/-- The consumer's own moves. -/
theorem poll (h : Held linked consumer pc own) {c : ConsumerPc} (hc : c.holds = consumer.holds) :
    Held linked c pc own :=
  ⟨h.linked, by rw [hc]; exact h.consumer, h.thread⟩

theorem pollDrop (h : Held linked consumer pc (some .consumer)) {c : ConsumerPc} (hc : c.holds = false) :
    Held linked c pc none :=
  ⟨⟨by simp, fun _ => h.linked.2 (by simp)⟩, by simp [hc], fun i => by rw [h.thread i]; simp⟩

/-- Into the queue. -/
theorem link (h : Held linked consumer pc none) : Held (linked + 1) consumer pc (some .queue) := by
  have h0 := h.linked.2 (by simp)
  exact ⟨⟨fun _ => by omega, by simp⟩, by rw [h.consumer]; simp, fun i => by rw [h.thread i]; simp⟩

/-- Out of the queue. -/
theorem dequeue (h : Held linked consumer pc own) (hl : 0 < linked) {c : ConsumerPc} (hc : c.holds = true) :
    own = some .queue ∧ Held (linked - 1) c pc (some .consumer) := by
  have hq : own = some .queue := by
    by_contra hne
    have := h.linked.2 hne
    omega
  have h1 := h.linked.1 hq
  subst hq
  exact ⟨rfl, ⟨by simp, fun _ => by omega⟩, by simp [hc], fun i => by rw [h.thread i]; simp⟩

end Held

/-! ## The steps -/

theorem PcOk.associate {flagged : Bool} {p : Pc κ J} {associated : Bool} (h : PcOk associated flagged p) :
    PcOk true flagged p := by
  cases p <;> simp_all [PcOk]

theorem PcOk.flag {associated flagged : Bool} {p : Pc κ J} (h : PcOk associated flagged p) (hu : p.updating = false) :
    PcOk associated true p := by
  cases p <;> simp_all [PcOk, Pc.updating]

theorem threads_update [DecidableEq ι] {associated flagged : Bool} {pc : ι → Pc κ J}
    (h : ∀ j, PcOk associated flagged (pc j)) {i : ι} {p : Pc κ J} (hp : PcOk associated flagged p) :
    ∀ j, PcOk associated flagged (update pc i p j) :=
  (Function.forall_update_iff pc fun _ => PcOk associated flagged).mpr ⟨hp, fun j _ => h j⟩

namespace NodeInv

variable {v : View ι κ J} {own : Option (Party ι)}

theorem not_released (h : NodeInv v own) (hf : v.flagged = false) : v.released = false := by
  by_contra hr
  obtain ⟨-, hf'⟩ := h.released (by simpa using hr)
  rw [hf] at hf'
  cases hf'

/-- Where QUEUED is clear nobody has the place, but for a node that was dropped before
    its first `update`. -/
theorem nobody (h : NodeInv v own) (hf : v.flagged = false) (hq : v.state.isQueued = false) : own = none := by
  by_cases ha : v.associated = true
  · have := h.queued ha (h.not_released hf)
    rw [hq] at this
    exact Option.not_isSome_iff_eq_none.mp (by rw [← this]; simp)
  · exact (h.fresh (by simpa using ha) hf).2.2

/-- The consumer has the node in hand: it is a node of the queue, not released, queued. -/
theorem in_hand (h : NodeInv v own) (hc : v.consumer.holds = true) :
    own = some .consumer ∧ v.associated = true ∧ v.released = false ∧ v.state.isQueued = true := by
  have ho := h.held.consumer.mp hc
  have ha : v.associated = true := by
    by_contra ha
    exact (h.apart (by simpa using ha)).2.2 ho
  have hr : v.released = false := by
    by_contra hr
    have := (h.released (by simpa using hr)).1
    rw [ho] at this
    cases this
  refine ⟨ho, ha, hr, ?_⟩
  rw [h.queued ha hr, ho]
  rfl

/-- What the thread has found out. -/
theorem at_pc (h : NodeInv v own) {i : ι} {p : Pc κ J} (hpc : v.pc i = p) : PcOk v.associated v.flagged p :=
  hpc ▸ h.threads i

theorem move [DecidableEq ι] (h : NodeInv v own) {i : ι} {p p' : Pc κ J} (hpc : v.pc i = p) (hp : p'.holds = p.holds)
    (ok : PcOk v.associated v.flagged p → PcOk v.associated v.flagged p') :
    NodeInv { v with pc := update v.pc i p' } own :=
  ⟨h.held.stay (by rw [hp, hpc]), h.queued, h.dropped, h.released, h.fresh, h.apart,
    threads_update h.threads (ok (h.at_pc hpc)), h.polling⟩

/-- A thread's own transition of the state. -/
theorem write [DecidableEq ι] (h : NodeInv v own) {i : ι} {p₀ p : Pc κ J} {next : ReadinessState}
    (hpc : v.pc i = p₀) (hp₀ : p₀.holds = false) (hf : v.flagged = false) (hd : next.isDropped = v.state.isDropped)
    (hk : v.state.isQueued = true → next.isQueued = true)
    (ha : v.associated = true ∨ (next.interest = Ready.empty ∧ next.isQueued = v.state.isQueued))
    (hp : p.holds = turnedOn v.state next) (ok : PcOk v.associated v.flagged p) :
    ∃ own', NodeInv { v with state := next, pc := update v.pc i p } own' := by
  have hr := h.not_released hf
  by_cases ht : turnedOn v.state next = true
  · -- QUEUED was clear, so nobody has the place and the thread takes it
    obtain ⟨hq, hn⟩ : v.state.isQueued = false ∧ next.isQueued = true := by simpa [turnedOn] using ht
    have hown := h.nobody hf hq
    subst hown
    have ha : v.associated = true := by
      rcases ha with ha | ⟨-, ha⟩
      · exact ha
      · rw [hq, hn] at ha
        cases ha
    refine ⟨some (.thread i), h.held.take (by rw [hp, ht]), fun _ _ => hn, hd.trans h.dropped, ?_, ?_, ?_,
      threads_update h.threads ok, h.polling⟩
    · intro hr'
      rw [hr] at hr'
      cases hr'
    · intro ha'
      rw [ha] at ha'
      cases ha'
    · intro ha'
      rw [ha] at ha'
      cases ha'
  · -- QUEUED is as it was
    have hq : next.isQueued = v.state.isQueued := by
      cases hs : v.state.isQueued with
      | true => exact hk hs
      | false => simpa [turnedOn, hs] using ht
    refine ⟨own, h.held.stay ?_, ?_, hd.trans h.dropped, h.released, ?_, h.apart, threads_update h.threads ok,
      h.polling⟩
    · rw [hp, hpc, hp₀]
      simpa using ht
    · intro ha' hr'
      rw [hq]
      exact h.queued ha' hr'
    · intro ha' hf'
      obtain ⟨-, hq', ho⟩ := h.fresh ha' hf'
      rcases ha with ha | ⟨hint, -⟩
      · rw [ha] at ha'
        cases ha'
      · exact ⟨hint, by rw [hq, hq'], ho⟩

/-- The `Registration` is dropped. -/
theorem flag [DecidableEq ι] (h : NodeInv v own) {i : ι} (hpc : v.pc i = .idle) (hf : v.flagged = false)
    (hu : ∀ j, (v.pc j).updating = false) :
    ∃ own', NodeInv { v with
      state := v.state.flagged
      flagged := true
      pc := update v.pc i (if v.state.isQueued then .ret true else .loadQueue) } own' := by
  have hr := h.not_released hf
  have threads : ∀ p, PcOk v.associated true p → ∀ j, PcOk v.associated true (update v.pc i p j) :=
    fun p hp => threads_update (fun j => (h.threads j).flag (hu j)) hp
  have polling : ConsumerOk true v.consumer := by
    have := h.polling
    cases hc : v.consumer <;> simp_all [ConsumerOk]
  by_cases hq : v.state.isQueued = true
  · refine ⟨own, h.held.stay (by rw [hq, hpc]; rfl), ?_, ReadinessState.isDropped_flagged _, ?_, ?_, h.apart,
      threads _ (by rw [hq]; trivial), polling⟩
    · intro ha _
      rw [ReadinessState.isQueued_flagged, ← h.queued ha hr, hq]
    · intro hr'
      rw [hr] at hr'
      cases hr'
    · intro _ hf'
      cases hf'
  · have hq' : v.state.isQueued = false := by simpa using hq
    have hown := h.nobody hf hq'
    subst hown
    refine ⟨some (.thread i), h.held.take (by rw [hq']; rfl), ?_, ReadinessState.isDropped_flagged _, ?_, ?_, ?_,
      threads _ (by rw [hq']; exact .inr rfl), polling⟩
    · intro _ _
      exact ReadinessState.isQueued_flagged _
    · intro hr'
      rw [hr] at hr'
      cases hr'
    · intro _ hf'
      cases hf'
    · intro _
      exact ⟨hr, by simp, by simp⟩

/-- The node gets its queue. -/
theorem associate [DecidableEq ι] (h : NodeInv v own) {i : ι} {p p' : Pc κ J} (hpc : v.pc i = p)
    (hp : p'.holds = p.holds) (ha : v.associated = false) (hf : v.flagged = false) (ok : PcOk true v.flagged p') :
    NodeInv { v with associated := true, pc := update v.pc i p' } own := by
  obtain ⟨-, hq, ho⟩ := h.fresh ha hf
  refine ⟨h.held.stay (by rw [hp, hpc]), fun _ _ => by rw [hq, ho]; rfl, h.dropped, h.released, ?_, ?_,
    threads_update (fun j => (h.threads j).associate) ok, h.polling⟩
  · intro ha'
    cases ha'
  · intro ha'
    cases ha'

/-- `enqueue_node` ends: the place is the queue's. -/
theorem link [DecidableEq ι] (h : NodeInv v own) {i : ι} {p₀ p : Pc κ J} (hpc : v.pc i = p₀)
    (hp₀ : p₀.holds = true) (ha : v.associated = true) (hp : p.holds = false) (ok : PcOk v.associated v.flagged p) :
    NodeInv { v with linked := v.linked + 1, pc := update v.pc i p } (some .queue) := by
  have ho := h.held.owner (by rw [hpc, hp₀])
  subst ho
  refine ⟨(h.held.drop hp).link, h.queued, h.dropped, ?_, ?_, ?_, threads_update h.threads ok, h.polling⟩
  · intro hr
    cases (h.released hr).1
  · intro ha'
    rw [ha] at ha'
    cases ha'
  · intro ha'
    rw [ha] at ha'
    cases ha'

/-- A node without a queue was dropped, and nobody enqueues it. -/
theorem leave [DecidableEq ι] (h : NodeInv v own) {i : ι} {p₀ p : Pc κ J} (hpc : v.pc i = p₀)
    (hp₀ : p₀.holds = true) (ha : v.associated = false) (hf : v.flagged = true) (hp : p.holds = false)
    (ok : PcOk v.associated v.flagged p) : NodeInv { v with pc := update v.pc i p } none := by
  have ho := h.held.owner (by rw [hpc, hp₀])
  subst ho
  refine ⟨h.held.drop hp, ?_, h.dropped, fun hr => ⟨rfl, hf⟩, ?_, fun ha' => ⟨(h.apart ha').1, by simp, by simp⟩,
    threads_update h.threads ok, h.polling⟩
  · intro ha'
    rw [ha] at ha'
    cases ha'
  · intro _ hf'
    rw [hf] at hf'
    cases hf'

/-- The consumer moves with the place, or without it. -/
theorem poll (h : NodeInv v own) {c : ConsumerPc} (hc : c.holds = v.consumer.holds) (ok : ConsumerOk v.flagged c) :
    NodeInv { v with consumer := c } own :=
  ⟨h.held.poll hc, h.queued, h.dropped, h.released, h.fresh, h.apart, h.threads, ok⟩

theorem dequeue (h : NodeInv v own) (hl : 0 < v.linked) :
    NodeInv { v with linked := v.linked - 1, consumer := .load } (some .consumer) := by
  obtain ⟨ho, hheld⟩ := h.held.dequeue hl (c := .load) rfl
  subst ho
  refine ⟨hheld, h.queued, h.dropped, ?_, ?_, ?_, h.threads, trivial⟩
  · intro hr
    cases (h.released hr).1
  · intro ha hf
    cases (h.fresh ha hf).2.2
  · intro ha
    exact absurd rfl (h.apart ha).2.1

/-- The consumer has read the state. -/
theorem pollTop (h : NodeInv v own) (hc : v.consumer.holds = true) :
    NodeInv { v with consumer := pollTop v.state } own := by
  obtain ⟨-, -, -, hq⟩ := h.in_hand hc
  refine h.poll ?_ ?_
  · rw [hc]
    unfold Poll.pollTop settle
    split
    next => rfl
    next =>
      split
      next he =>
        rw [← he, hq]
        rfl
      next => rfl
  · unfold Poll.pollTop settle emit
    split
    next hd => exact h.dropped.symm.trans hd
    next hd =>
      split
      next =>
        split
        next => trivial
        next => split <;> trivial
      next => exact Bool.eq_false_iff.mpr hd

theorem emit_holds (next : ReadinessState) (readiness : Ready) : (emit next readiness).holds = false := by
  unfold emit
  split <;> rfl

theorem emit_ok (flagged : Bool) (next : ReadinessState) (readiness : Ready) :
    ConsumerOk flagged (emit next readiness) := by
  unfold emit
  split <;> trivial

/-- The consumer's transition of the state. -/
theorem pollSwap (h : NodeInv v own) (hc : v.consumer = .swap v.state) :
    ∃ own', NodeInv { v with
      state := v.state.pollNext
      consumer := settle v.state.pollNext v.state.effectiveReadiness } own' := by
  obtain ⟨ho, ha, hr, hq⟩ := h.in_hand (by rw [hc]; rfl)
  subst ho
  have hd : v.state.pollNext.isDropped = v.flagged := (ReadinessState.poll_dropped _).trans h.dropped
  by_cases hn : v.state.pollNext.isQueued = true
  · -- put back: the consumer keeps the place until it has enqueued the node
    refine ⟨some .consumer, h.held.poll ?_, fun _ _ => hn, hd, h.released, ?_, ?_, h.threads, ?_⟩
    · unfold settle
      rw [hn, hc]
      rfl
    · intro ha'
      exact nomatch ha.symm.trans ha'
    · intro ha'
      exact nomatch ha.symm.trans ha'
    · unfold settle
      rw [hn]
      trivial
  · -- off the queue: nobody has the place
    have hn' : v.state.pollNext.isQueued = false := by simpa using hn
    have hs : settle v.state.pollNext v.state.effectiveReadiness = emit v.state.pollNext v.state.effectiveReadiness := by
      unfold settle
      rw [hn']
      rfl
    rw [hs]
    refine ⟨none, h.held.pollDrop (emit_holds ..), fun _ _ => hn', hd, ?_, ?_, ?_, h.threads, emit_ok ..⟩
    · intro hr'
      exact nomatch hr.symm.trans hr'
    · intro ha'
      exact nomatch ha.symm.trans ha'
    · intro ha'
      exact nomatch ha.symm.trans ha'

/-- The queue's reference goes, and the place with it. -/
theorem release (h : NodeInv v own) (hc : v.consumer = .release) :
    NodeInv { v with released := true, consumer := .away } none := by
  obtain ⟨ho, ha, -, -⟩ := h.in_hand (by rw [hc]; rfl)
  subst ho
  have hf : v.flagged = true := by
    have := h.polling
    rw [hc] at this
    exact this
  refine ⟨h.held.pollDrop rfl, ?_, h.dropped, fun _ => ⟨rfl, hf⟩, ?_, ?_, h.threads, trivial⟩
  · intro _ hr
    cases hr
  · intro ha'
    exact nomatch ha.symm.trans ha'
  · intro ha'
    exact nomatch ha.symm.trans ha'

/-- The consumer has enqueued the node again. -/
theorem requeueLink (h : NodeInv v own) {next : ReadinessState} {readiness : Ready}
    (hc : v.consumer = .requeue next readiness) :
    NodeInv { v with linked := v.linked + 1, consumer := emit next readiness } (some .queue) := by
  obtain ⟨ho, ha, hr, hq⟩ := h.in_hand (by rw [hc]; rfl)
  subst ho
  refine ⟨(h.held.pollDrop (emit_holds ..)).link, fun _ _ => hq, h.dropped, ?_, ?_, ?_, h.threads, emit_ok ..⟩
  · intro hr'
    exact nomatch hr.symm.trans hr'
  · intro ha'
    exact nomatch ha.symm.trans ha'
  · intro ha'
    exact nomatch ha.symm.trans ha'

end NodeInv

theorem setTop_holds (ready : Ready4) (state : ReadinessState) : (setTop ready state : Pc κ J).holds = false := by
  unfold setTop
  split <;> rfl

theorem setTop_ok {associated flagged : Bool} (ready : Ready4) (state : ReadinessState) :
    PcOk associated flagged (setTop ready state : Pc κ J) := by
  unfold setTop
  split
  next => trivial
  next h => exact Bool.eq_false_iff.mpr h

theorem setDone_holds (state next : ReadinessState) : (setDone state next : Pc κ J).holds = turnedOn state next := by
  unfold setDone
  split
  next h => rw [h]; rfl
  next h => rw [Bool.eq_false_iff.mpr h]; rfl

theorem setDone_ok {associated flagged : Bool} {state next : ReadinessState} (ha : associated = true) :
    PcOk associated flagged (setDone state next : Pc κ J) := by
  unfold setDone
  split
  next => exact .inl ha
  next => trivial

theorem checkQueue_holds [DecidableEq κ] (a : UpdateArgs κ J) (q : κ) : (checkQueue a q).holds = false := by
  unfold checkQueue
  split <;> rfl

theorem checkQueue_ok [DecidableEq κ] {associated flagged : Bool} {a : UpdateArgs κ J} {q : κ}
    (ha : associated = true) (hf : flagged = false) : PcOk associated flagged (checkQueue a q) := by
  unfold checkQueue
  split
  next => exact ⟨ha, hf⟩
  next => trivial

theorem placeToken_holds (a : UpdateArgs κ J) (state : ReadinessState) (t : Option TokenEntry) :
    (placeToken a state t).holds = false :=
  placeToken_meets (P := fun p => p.holds = false) rfl rfl fun _ _ => rfl

theorem placeToken_ok {associated flagged : Bool} {a : UpdateArgs κ J} {state : ReadinessState}
    {t : Option TokenEntry} (h : associated = true ∧ flagged = false) :
    PcOk associated flagged (placeToken a state t) := by
  obtain ⟨ha, hf⟩ := h
  refine placeToken_meets trivial ⟨ha, hf, state.tokenWritePos_within⟩ fun pos hpos => ?_
  exact ⟨ha, hf, ReadinessState.nextTokenPos_within hpos⟩

theorem updDone_ok {associated flagged turned : Bool} {a : UpdateArgs κ J} (h : associated = true ∧ flagged = false) :
    PcOk associated flagged (updDone a turned) := by
  cases turned with
  | true => exact h
  | false => trivial

theorem updDone_holds (a : UpdateArgs κ J) (turned : Bool) : (updDone a turned).holds = turned := by
  cases turned <;> rfl

/-- One step hands the place on, or leaves it where it is. -/
theorem node_step [DecidableEq ι] [DecidableEq κ] {s s' : NodeSt ι κ J} {e : NodeEv ι κ J} {own : Option (Party ι)}
    (h : NodeInv s.view own) (hs : NodeStep s e s') : ∃ own', NodeInv s'.view own' := by
  -- the state a thread found is the state, so the `Registration` is not dropped
  have live : ∀ {i : ι} {ready : Ready4}, s.pc i = .setSwap ready s.node.state → s.flagged = false := by
    intro i ready hpc
    exact h.dropped.symm.trans (h.at_pc hpc)
  have assoc : ∀ {q : κ}, s.node.readinessQueue = some q → s.view.associated = true := by
    intro q hq
    show s.node.readinessQueue.isSome = true
    rw [hq]
    rfl
  have unassoc : s.node.readinessQueue = none → s.view.associated = false := by
    intro hq
    show s.node.readinessQueue.isSome = false
    rw [hq]
    rfl
  cases hs with
  | setCall i ready hpc => exact ⟨own, h.move hpc rfl (fun _ => trivial)⟩
  | setLoad i ready hpc => exact ⟨own, h.move hpc (setTop_holds ..) (fun _ => setTop_ok ..)⟩
  | setSwap i ready state hpc hst =>
    subst hst
    have hf := live hpc
    have hd := s.node.state.set_readiness_dropped ready.2
    have hk := s.node.state.set_readiness_keeps_queued ready.2
    by_cases ha : s.view.associated = true
    · exact h.write hpc rfl hf hd hk (.inl ha) (setDone_holds ..) (setDone_ok ha)
    · have hint : s.node.state.interest = Ready.empty := (h.fresh (by simpa using ha) hf).1
      obtain ⟨hint', hq⟩ := ReadinessState.set_readiness_no_interest ready.2 hint
      refine h.write hpc rfl hf hd hk (.inr ⟨hint', hq⟩) (setDone_holds ..) ?_
      have ht : turnedOn s.node.state (s.node.state.setReadinessNext ready) = false := by
        unfold turnedOn
        rw [hq]
        exact Bool.not_and_self _
      unfold setDone
      rw [ht]
      trivial
  | setRetry i ready state hpc => exact ⟨own, h.move hpc (setTop_holds ..) (fun _ => setTop_ok ..)⟩
  | loadNull i hpc hq =>
    have hf : s.flagged = true := by
      rcases h.at_pc hpc with ha | hf
      · exact nomatch (unassoc hq).symm.trans ha
      · exact hf
    exact ⟨none, h.leave hpc rfl (unassoc hq) hf rfl trivial⟩
  | loadQueue i q hpc hq => exact ⟨own, h.move hpc rfl (fun _ => assoc hq)⟩
  | link i hpc => exact ⟨_, h.link hpc rfl (h.at_pc hpc) rfl trivial⟩
  | wakeup i ok hpc => exact ⟨own, h.move hpc rfl (fun _ => trivial)⟩
  | returned i ok hpc => exact ⟨own, h.move hpc rfl (fun _ => trivial)⟩
  | updCall i a hpc hf => exact ⟨own, h.move hpc rfl (fun _ => hf)⟩
  | updNull i a hpc hq => exact ⟨own, h.move hpc rfl id⟩
  | updQueue i a q hpc hq => exact ⟨own, h.move hpc (checkQueue_holds ..) (checkQueue_ok (assoc hq))⟩
  | updAssociate i a hpc hq =>
    have hf : s.flagged = false := h.at_pc hpc
    exact ⟨own, h.associate hpc rfl (unassoc hq) hf ⟨rfl, hf⟩⟩
  | updTaken i a q hpc hq => exact ⟨own, h.move hpc (checkQueue_holds ..) (checkQueue_ok (assoc hq))⟩
  | updRef i a hpc => exact ⟨own, h.move hpc rfl id⟩
  | updLock i a hpc => exact ⟨own, h.move hpc rfl id⟩
  | updLocked i a hpc => exact ⟨own, h.move hpc rfl (fun _ => trivial)⟩
  | updLoad i a hpc => exact ⟨own, h.move hpc rfl id⟩
  | updToken i a state hpc => exact ⟨own, h.move hpc (placeToken_holds ..) placeToken_ok⟩
  | updSlot i a state pos hpc =>
    obtain ⟨hst, -, hq, -⟩ := s.node.setToken_frame pos a.token
    refine ⟨own, ?_⟩
    unfold NodeSt.view
    rw [hst, hq]
    exact h.move hpc rfl id
  | updSwap i a state pos hpc hst =>
    subst hst
    obtain ⟨ha, hf, hp⟩ := h.at_pc hpc
    exact h.write hpc rfl hf (ReadinessState.update_dropped _ hp a.interest.2 a.opt.2)
      (ReadinessState.update_keeps_queued hp a.interest.2 a.opt.2) (.inl ha) rfl ⟨ha, hf⟩
  | updRetry i a state pos hpc => exact ⟨own, h.move hpc rfl id⟩
  | updUnlock i a turned hpc => exact ⟨own, h.move hpc (updDone_holds ..) updDone_ok⟩
  | updJob i a hpc => exact ⟨own, h.move hpc rfl And.left⟩
  | drop i hpc hf hu => exact h.flag hpc hf hu
  | dequeue hc hl => exact ⟨_, h.dequeue hl⟩
  | pollLoad hc => exact ⟨own, h.pollTop (by show s.consumer.holds = true; rw [hc]; rfl)⟩
  | pollSwap state hc hst =>
    subst hst
    exact h.pollSwap hc
  | pollRetry state hc => exact ⟨own, h.pollTop (by show s.consumer.holds = true; rw [hc]; rfl)⟩
  | release hc => exact ⟨none, h.release hc⟩
  | putBack next readiness hc => exact ⟨own, h.poll (by show _ = s.consumer.holds; rw [hc]; rfl) trivial⟩
  | requeueLink next readiness hc => exact ⟨_, h.requeueLink hc⟩
  | token next readiness t hc => exact ⟨own, h.poll (by show _ = s.consumer.holds; rw [hc]; rfl) trivial⟩
  | noToken next readiness hc => exact ⟨own, h.poll (by show _ = s.consumer.holds; rw [hc]; rfl) trivial⟩
  | push readiness t hc => exact ⟨own, h.poll (by show _ = s.consumer.holds; rw [hc]; rfl) trivial⟩
  | resetJob hc => exact ⟨own, h.poll (by show _ = s.consumer.holds; rw [hc]; rfl) trivial⟩

/-! ## One signal, from the call to the queue -/

def READABLE4 : Ready4 := ⟨Ready.readable, readable_within⟩

def LEVEL4 : PollOpt4 := ⟨PollOpt.level, by decide⟩

/-- A level-triggered registration for reading. -/
def readableNode : ReadinessNode Unit Unit := .registered () NO_TOKEN READABLE4 LEVEL4

/-- The state of that node, signalled. -/
def readableState : ReadinessState := readableNode.state.setReadinessNext READABLE4

theorem signal_run : ∃ s : NodeSt Unit Unit Unit,
    Run (node Unit Unit Unit) ([.called () (.setReadiness READABLE4), .quiet] ++ .wrote () readableState ::
      [.enters (some ()), .enqueued (some ())]) s ∧ s.node.readinessQueue ≠ none := by
  have h0 : Run (node Unit Unit Unit) [] ⟨readableNode, fun _ => .idle, .away, 0, false, false⟩ :=
    .init ⟨readableNode, rfl, .inr ⟨_, _, _, _, rfl⟩⟩
  have h1 := h0.step (.setCall _ () READABLE4 rfl)
  have h2 := h1.step (.setLoad _ () READABLE4 rfl)
  have h3 := h2.step (.setSwap _ () READABLE4 readableNode.state rfl rfl)
  have h4 := h3.step (.loadQueue _ () () rfl rfl)
  have h5 := h4.step (.link _ () rfl)
  exact ⟨_, h5, by intro hq; cases hq⟩

/-! ## Over whole runs -/

theorem fresh_inv {s : NodeSt ι κ J} (h : s.Fresh) : NodeInv s.view none := by
  obtain ⟨n, rfl, hn⟩ := h
  have held : Held 0 .away (fun _ : ι => (.idle : Pc κ J)) none := ⟨by simp, by simp [ConsumerPc.holds], by simp [Pc.holds]⟩
  rcases hn with rfl | ⟨queue, token, interest, opt, rfl⟩
  · have hq : (ReadinessState.new Ready.empty PollOpt.empty).isQueued = false := by decide
    have hd : (ReadinessState.new Ready.empty PollOpt.empty).isDropped = false := by decide
    have hi : (ReadinessState.new Ready.empty PollOpt.empty).interest = Ready.empty := by decide
    refine ⟨held, ?_, hd, ?_, fun _ _ => ⟨hi, hq, rfl⟩, fun _ => ⟨rfl, by simp, by simp⟩, fun _ => trivial, trivial⟩
    · intro ha
      cases ha
    · intro hr
      cases hr
  · obtain ⟨hq, hd⟩ := ReadinessState.new_flags interest.2 opt.2
    refine ⟨held, fun _ _ => hq, hd, ?_, ?_, ?_, fun _ => trivial, trivial⟩
    · intro hr
      cases hr
    · intro ha
      cases ha
    · intro ha
      cases ha

variable [DecidableEq ι] [DecidableEq κ]

theorem node_inv {τ : List (NodeEv ι κ J)} {s : NodeSt ι κ J} (h : Run (node ι κ J) τ s) :
    ∃ own, NodeInv s.view own :=
  Run.inv (P := fun s => ∃ own, NodeInv s.view own) (fun _ hi => ⟨none, fresh_inv hi⟩)
    (fun _ _ _ ⟨_, hi⟩ hs => node_step hi hs) h

omit [DecidableEq ι] [DecidableEq κ] in
/-- The owner of the invariant is whoever owns. -/
theorem NodeInv.owns_iff {s : NodeSt ι κ J} {own : Option (Party ι)} (h : NodeInv s.view own) (o : Party ι) :
    Owns s o ↔ own = some o := by
  cases o with
  | queue =>
    constructor
    · intro hl
      have hl : 0 < s.view.linked := hl
      by_contra hne
      have := h.held.linked.2 hne
      omega
    · intro ho
      have h1 : s.linked = 1 := h.held.linked.1 ho
      show 0 < s.linked
      omega
  | consumer => exact h.held.consumer
  | thread i => exact h.held.thread i

omit [DecidableEq ι] [DecidableEq κ] in
theorem Enqueuing.owns {s : NodeSt ι κ J} {o : Party ι} (h : Enqueuing s o) : Owns s o := by
  cases o with
  | queue => exact h.elim
  | consumer =>
    obtain ⟨next, readiness, hc⟩ := h
    show s.consumer.holds = true
    rw [hc]
    rfl
  | thread i =>
    show (s.pc i).holds = true
    rw [show s.pc i = .enqueue from h]
    rfl

/-- In every reachable state of a node associated with a queue: until the release, QUEUED
    is set exactly when the node's place in the queue has an owner; there is never more
    than one, and after the release there is none; and whoever is inside `enqueue_node`
    is the owner, the node being in no queue and not released. -/
theorem linked_at_most_once {τ : List (NodeEv ι κ J)} {s : NodeSt ι κ J} (h : Run (node ι κ J) τ s)
    (hq : s.node.readinessQueue ≠ none) :
    (s.released = false → (s.node.state.isQueued = true ↔ ∃ o, Owns s o)) ∧
      (∀ o o', Owns s o → Owns s o' → o = o') ∧ s.linked ≤ 1 ∧ (s.released = true → ∀ o, ¬ Owns s o) ∧
      ∀ o, Enqueuing s o → Owns s o ∧ s.linked = 0 ∧ s.released = false := by
  obtain ⟨own, hi⟩ := node_inv h
  have one : ∀ o o', Owns s o → Owns s o' → o = o' := by
    intro o o' ho ho'
    rw [hi.owns_iff] at ho ho'
    exact Option.some.inj (ho.symm.trans ho')
  have none_left : s.released = true → ∀ o, ¬ Owns s o := by
    intro hr o ho
    rw [hi.owns_iff, (hi.released hr).1] at ho
    cases ho
  refine ⟨?_, one, ?_, none_left, ?_⟩
  · intro hr
    have ha : s.view.associated = true := Option.isSome_iff_ne_none.mpr hq
    have hown : s.node.state.isQueued = own.isSome := hi.queued ha hr
    rw [hown, Option.isSome_iff_exists]
    constructor
    · intro hx
      obtain ⟨o, ho⟩ := hx
      exact ⟨o, (hi.owns_iff o).mpr ho⟩
    · intro hx
      obtain ⟨o, ho⟩ := hx
      exact ⟨o, (hi.owns_iff o).mp ho⟩
  · show s.view.linked ≤ 1
    by_cases ho : own = some .queue
    · have := hi.held.linked.1 ho
      omega
    · have := hi.held.linked.2 ho
      omega
  · intro o he
    have ho := he.owns
    refine ⟨ho, ?_, ?_⟩
    · by_contra hl
      have hl : Owns s .queue := Nat.pos_of_ne_zero hl
      obtain rfl := one _ _ ho hl
      exact he
    · by_contra hr
      exact none_left (by simpa using hr) o ho

theorem linked_at_most_once_one_signal : ∃ s : NodeSt Unit Unit Unit, s.node.readinessQueue ≠ none ∧
    (s.released = false → (s.node.state.isQueued = true ↔ ∃ o, Owns s o)) ∧
      (∀ o o', Owns s o → Owns s o' → o = o') ∧ s.linked ≤ 1 ∧ (s.released = true → ∀ o, ¬ Owns s o) ∧
      ∀ o, Enqueuing s o → Owns s o ∧ s.linked = 0 ∧ s.released = false := by
  obtain ⟨s, h, hq⟩ := signal_run
  exact ⟨s, hq, linked_at_most_once h hq⟩

end Sickle.Poll
