/-
  Sickle.Poll.Closed — the queue with the closed marker at its head.

  Nothing takes a place behind the closed marker, so the chain from the tail only gets
  shorter: `Shut` is what is left of `Inv` then. Links may still be missing, of threads
  that took their place before the marker did; `Shut.pop` moves the tail on,
  `Shut.link` writes a link, and `Inv.shut` is the moment the marker takes its place.

  - `thread_cases`: what a step that leaves the consumer where it is does, one case for each
    step of `enqueue_node`; `data_cases`: what `dequeue_node` does when it hands out data.
  - `hide_step`: until the marker takes its place, the other threads run as if the one that
    brings it were not there.
-/

import Sickle.Poll.QueueInv

namespace Sickle.Poll

open Function (update)
open Sickle.Lib Sickle.Lib.Chain

variable {κ ν : Type}

/-! ## Steps, by what they do -/

section Cases

variable [DecidableEq κ] [DecidableEq ν] {q q' : Queue κ ν} {e : Ev κ ν}

theorem thread_cases (hs : QStep q e q') (hc : q.cons = q'.cons) :
    (∃ a p, e = .quiet ∧ q.flight a = some (.store p) ∧
      q' = { q with next := update q.next p none, flight := update q.flight a (some (.load p)) }) ∨
    (∃ a p, e = .quiet ∧ (q.flight a = some (.load p) ∨ ∃ prev, q.flight a = some (.swap p prev) ∧ prev ≠ .closedMarker ∧
      q.head ≠ prev) ∧ q' = { q with flight := update q.flight a (some (.swap p q.head)) }) ∨
    (∃ a p, e = .quiet ∧ q.flight a = some (.swap p .closedMarker) ∧
      q' = { q with flight := update q.flight a (some (.done false)) }) ∨
    (∃ a p, e = .swapped a p ∧ q.flight a = some (.swap p q.head) ∧ q.head ≠ .closedMarker ∧
      q' = { q with head := p, flight := update q.flight a (some (.link p q.head)) }) ∨
    (∃ a p prev, e = .linked a p ∧ q.flight a = some (.link p prev) ∧
      q' = { q with next := update q.next prev (some p), flight := update q.flight a (some (.done (decide (prev = .sleepMarker)))) }) ∨
    (∃ i n, e = .enqueue (some i) n ∧ q.flight (some i) = none ∧ q.busy n = false ∧
      q' = { q with flight := update q.flight (some i) (some (.store (.node n))), busy := update q.busy n true }) ∨
    (∃ i w, e = .returned i w ∧ q.flight (some i) = some (.done w) ∧ q' = { q with flight := update q.flight (some i) none }) := by
  cases hs with
  | store a p h0 => exact .inl ⟨a, p, rfl, h0, rfl⟩
  | load a p h0 => exact .inr (.inl ⟨a, p, rfl, .inl h0, rfl⟩)
  | closed a p h0 => exact .inr (.inr (.inl ⟨a, p, rfl, h0, rfl⟩))
  | swap a p prev h0 hne hh =>
    subst hh
    exact .inr (.inr (.inr (.inl ⟨a, p, rfl, h0, hne, rfl⟩)))
  | retry a p prev h0 hne hh => exact .inr (.inl ⟨a, p, rfl, .inr ⟨prev, h0, hne, hh⟩, rfl⟩)
  | link a p prev h0 => exact .inr (.inr (.inr (.inr (.inl ⟨a, p, prev, rfl, h0, rfl⟩))))
  | enqueue i n h0 hn => exact .inr (.inr (.inr (.inr (.inr (.inl ⟨i, n, rfl, h0, hn, rfl⟩)))))
  | returned i w h0 => exact .inr (.inr (.inr (.inr (.inr (.inr ⟨i, w, rfl, h0, rfl⟩)))))
  | _ => simp_all [Queue.AtNode]

theorem data_cases {p : Ptr ν} (hs : QStep q (.answer (.data p)) q') :
    p = q.tail ∧ ((∃ u, q.AtNode u) ∨ q.cons = .deqLast) ∧ ∃ b, q.next q.tail = some b ∧
      q' = { q with tail := b, busy := handOut q.busy q.tail, cons := .idle } := by
  generalize he : (Ev.answer (.data p) : Ev κ ν) = e at hs
  cases hs with
  | deqData u b hat _ hb => exact ⟨by simpa using he, .inl ⟨u, hat⟩, b, hb, rfl⟩
  | deqLastData b hc hb => exact ⟨by simpa using he, .inr hc, b, hb, rfl⟩
  | clearSkip deq _ _ => cases deq <;> cases he
  | clearSwap deq _ _ => cases deq <;> cases he
  | clearFail deq _ _ => cases deq <;> cases he
  | _ => cases he

end Cases

/-! ## What is left -/

/-- The chain behind the tail, once the closed marker is at the head. -/
structure Shut (q : Queue κ ν) (rest : List (Ptr ν)) : Prop where
  head : q.head = .closedMarker
  last : rest.getLastD q.tail = .closedMarker
  nodup : (q.tail :: rest).Nodup
  linked : Linked q.next (Pend q.flight) (q.tail :: rest)
  sleep : .sleepMarker ∈ q.tail :: rest → q.tail = .sleepMarker ∧ .endMarker ∉ rest
  behind : ∀ g p prev, q.flight g = some (.link p prev) → prev ∈ q.tail :: rest

namespace Shut

variable {q q' : Queue κ ν} {rest : List (Ptr ν)}

/-- With the marker at the tail it is empty. -/
theorem single (h : Shut q rest) (ht : q.tail = .closedMarker) : rest = [] := eq_nil_of_last (h.last.trans ht.symm) h.nodup

theorem congr (h : Shut q rest) (hh : q'.head = q.head) (ht : q'.tail = q.tail) (hn : ∀ x ∈ q.tail :: rest, q'.next x = q.next x)
    (hp : ∀ g p prev, q'.flight g = some (.link p prev) ↔ q.flight g = some (.link p prev)) : Shut q' rest := by
  have hpend : ∀ x c, Pend q'.flight x c ↔ Pend q.flight x c := fun x c => exists_congr fun g => hp g c x
  refine ⟨hh.trans h.head, ?_, ?_, ?_, ?_, ?_⟩
  · rw [ht]
    exact h.last
  · rw [ht]
    exact h.nodup
  · rw [ht]
    exact h.linked.congr hn (fun x _ => hpend x)
  · rw [ht]
    exact h.sleep
  · intro g p prev hg
    rw [ht]
    exact h.behind g p prev ((hp g p prev).mp hg)

/-- The tail moves to what it leads to. -/
theorem pop (h : Shut q rest) {b : Ptr ν} (hb : q.next q.tail = some b) (busy : ν → Bool) (c : Cons ν) :
    ∃ ys, rest = b :: ys ∧ Shut { q with tail := b, busy := busy, cons := c } ys := by
  obtain ⟨ys, rfl, hno⟩ := h.linked.pop hb
  refine ⟨ys, rfl, h.head, ?_, (List.nodup_cons.mp h.nodup).2, h.linked.tail, ?_, ?_⟩
  · rw [← h.last]
    cases ys <;> rfl
  · -- a sleep marker would be at the old tail
    intro hm
    obtain ⟨ht, -⟩ := h.sleep (List.mem_cons_of_mem _ hm)
    exact absurd (ht ▸ hm) (List.nodup_cons.mp h.nodup).1
  · intro g p prev hg
    rcases List.mem_cons.mp (h.behind g p prev hg) with rfl | hm
    · exact absurd ⟨g, hg⟩ (hno p)
    · exact hm

/-- What follows a marker is a node, or the closed marker. -/
theorem next_kind (h : Shut q rest) {b : Ptr ν} (hb : q.next q.tail = some b) (hm : q.tail.isMarker = true) :
    b.isMarker = false ∨ b = .closedMarker := by
  obtain ⟨ys, rfl, -⟩ := h.linked.pop hb
  have hmem : b ∈ q.tail :: b :: ys := List.mem_cons_of_mem _ (List.mem_cons_self ..)
  have hne : q.tail ≠ b := by
    intro e
    exact (List.nodup_cons.mp h.nodup).1 (e ▸ List.mem_cons_self ..)
  cases b with
  | node n => exact .inl rfl
  | closedMarker => exact .inr rfl
  | sleepMarker => exact absurd (h.sleep hmem).1 hne
  | endMarker =>
    cases ht : q.tail with
    | node n => rw [ht] at hm; cases hm
    | endMarker => exact absurd ht hne
    | sleepMarker => exact absurd (List.mem_cons_self ..) (h.sleep (ht ▸ List.mem_cons_self ..)).2
    | closedMarker => cases h.single ht

variable [DecidableEq κ] [DecidableEq ν]

/-- The only thread that enqueues `p` writes its link. -/
theorem link (h : Shut q rest) {a : Agent κ} {p prev : Ptr ν} (h0 : q.flight a = some (.link p prev))
    (hone : ∀ g, q.flight g = some (.link p prev) → g = a) (w : Bool) :
    Shut { q with next := update q.next prev (some p), flight := update q.flight a (some (.done w)) } rest := by
  refine ⟨h.head, h.last, h.nodup, linked_link h.linked h.nodup (h.behind a p prev h0) h0 hone w, h.sleep, ?_⟩
  intro g p' prev' hg
  rcases flight_cases hg with ⟨-, ho⟩ | ⟨-, hg⟩
  · cases ho
  · exact h.behind g p' prev' hg

omit [DecidableEq ν] in
/-- A thread that had no link to write goes on, and has none. -/
theorem quiet (h : Shut q rest) {a : Agent κ} {o : Option (Enq ν)} {next : Ptr ν → Option (Ptr ν)} {c : Cons ν} {busy : ν → Bool}
    (hold : ∀ p prev, q.flight a ≠ some (.link p prev)) (hnew : ∀ p prev, o ≠ some (.link p prev))
    (hn : ∀ x ∈ q.tail :: rest, next x = q.next x) :
    Shut { q with next := next, flight := update q.flight a o, cons := c, busy := busy } rest := by
  refine h.congr rfl rfl hn fun g p prev => ?_
  by_cases e : g = a
  · subst e
    show update q.flight g o g = _ ↔ _
    rw [Function.update_self]
    exact ⟨fun hx => absurd hx (hnew p prev), fun hx => absurd hx (hold p prev)⟩
  · show update q.flight a o g = _ ↔ _
    rw [Function.update_of_ne e]

end Shut

/-! ## The marker takes its place -/

/-- The queue as it is but for the thread `none`. -/
def Queue.hide [DecidableEq κ] (q : Queue κ ν) : Queue κ ν := { q with flight := update q.flight none none }

section Hide

variable [DecidableEq κ] {q q' : Queue κ ν} {rest : List (Ptr ν)} {e : Ev κ ν}

theorem hide_flight (i : κ) : q.hide.flight (some i) = q.flight (some i) := by
  show update q.flight none none (some i) = _
  rw [Function.update_of_ne (by simp)]

theorem hide_same (h : q.flight none = none) : q.hide = q := by
  unfold Queue.hide
  rw [← h, Function.update_eq_self]

theorem hide_own (o : Option (Enq ν)) : ({ q with flight := update q.flight none o } : Queue κ ν).hide = q.hide := by
  unfold Queue.hide
  rw [Function.update_idem]

theorem hide_thread (i : κ) (o : Option (Enq ν)) :
    update q.hide.flight (some i) o = update (update q.flight (some i) o) none none :=
  Function.update_comm (by simp) ..

variable [DecidableEq ν]

/-- Another thread's step does not depend on that one. -/
theorem hide_step (hs : QStep q e q') (hc : q.cons = q'.cons) (hn : q'.flight none = q.flight none) : QStep q.hide e q'.hide := by
  have other : ∀ {a : Agent κ} {e₀ e₁ : Enq ν}, q.flight a = some e₀ → update q.flight a (some e₁) none = q.flight none → e₀ ≠ e₁ →
      ∃ i, a = some i := by
    intro a e₀ e₁ h0 hu hne
    cases a with
    | some i => exact ⟨i, rfl⟩
    | none =>
      rw [Function.update_self, h0] at hu
      exact absurd (Option.some.inj hu).symm hne
  rcases thread_cases hs hc with ⟨a, p, rfl, h0, rfl⟩ | ⟨a, p, rfl, h0, rfl⟩ | ⟨a, p, rfl, h0, rfl⟩ | ⟨a, p, rfl, h0, hh, rfl⟩ |
    ⟨a, p, prev, rfl, h0, rfl⟩ | ⟨i, n, rfl, h0, hb, rfl⟩ | ⟨i, w, rfl, h0, rfl⟩
  · obtain ⟨i, rfl⟩ := other h0 hn (by simp)
    have := QStep.store q.hide (some i) p (by rw [hide_flight, h0])
    rwa [hide_thread] at this
  · rcases h0 with h0 | ⟨prev, h0, hne, hh⟩
    · obtain ⟨i, rfl⟩ := other h0 hn (by simp)
      have := QStep.load q.hide (some i) p (by rw [hide_flight, h0])
      rwa [hide_thread] at this
    · obtain ⟨i, rfl⟩ := other h0 hn (by simpa using Ne.symm hh)
      have := QStep.retry q.hide (some i) p prev (by rw [hide_flight, h0]) hne hh
      rwa [hide_thread] at this
  · obtain ⟨i, rfl⟩ := other h0 hn (by simp)
    have := QStep.closed q.hide (some i) p (by rw [hide_flight, h0])
    rwa [hide_thread] at this
  · obtain ⟨i, rfl⟩ := other h0 hn (by simp)
    have := QStep.swap q.hide (some i) p q.head (by rw [hide_flight, h0]) hh rfl
    rwa [hide_thread] at this
  · obtain ⟨i, rfl⟩ := other h0 hn (by simp)
    have := QStep.link q.hide (some i) p prev (by rw [hide_flight, h0])
    rwa [hide_thread] at this
  · have := QStep.enqueue q.hide i n (by rw [hide_flight, h0]) hb
    rwa [hide_thread] at this
  · have := QStep.returned q.hide i w (by rw [hide_flight, h0])
    rwa [hide_thread] at this

omit [DecidableEq ν] in
/-- The marker takes its place behind the head. -/
theorem Inv.shut (h : Inv q.hide rest) (hn : q.next .closedMarker = none) :
    Shut { q with head := .closedMarker, flight := update q.flight none (some (.link .closedMarker q.head)) }
      (rest ++ [.closedMarker]) := by
  have hflight : update q.flight none (some (.link .closedMarker q.head)) =
      update q.hide.flight none (some (.link .closedMarker q.head)) := (Function.update_idem ..).symm
  obtain ⟨hnd, hl⟩ := h.shape.linked_push h.flights.behind (a := none) (p := .closedMarker)
    (by intro p prev hg; simp [Queue.hide] at hg) h.shape.notClosed hn
  refine ⟨rfl, List.getLastD_concat .., hnd, by rw [hflight]; exact hl, ?_, ?_⟩
  · exact sleep_concat h.shape.sleep (by simp) (by simp)
  · intro g p prev hg
    rw [← List.cons_append]
    refine List.mem_append_left _ ?_
    rcases flight_cases hg with ⟨-, ho⟩ | ⟨hne, hg⟩
    · cases ho
      exact h.shape.head_mem
    · refine h.flights.behind g p prev ?_
      rw [show q.hide.flight g = q.flight g from Function.update_of_ne hne ..]
      exact hg

end Hide

end Sickle.Poll
