/-
  Sickle.Poll.Sleep — a poller that sleeps in `select` (`Poll::poll2`).

  The consumer of the queue is a thread that calls `poll2` over and over: it prepares to
  sleep unless its timeout is zero, selects, drains the awakener's pipe if that is what
  woke it, and takes nodes from the queue until its destination is full. Any number of
  producers run `enqueue_node_with_wakeup`, which writes a byte to the pipe when the
  predecessor was the sleep marker. Each atomic operation, each read and each write of
  the pipe is one step; `select` may return at any moment, with any events, or fail; what
  becomes of a node that was taken (an event, a second turn in the queue, a release) is
  left open here.

  - `no_lost_wakeup`: while the poller is blocked in `select` after `prepare_for_sleep`
    returned true, no node is in the queue, or a byte is in the pipe, or the producer
    that replaced the sleep marker has still to write one.
-/

import Sickle.Poll.QueueInv

namespace Sickle.Poll

open Function (update)
open Sickle.Lib Sickle.Lib.Chain

/-- Where `poll2` is. `room` is what is left of the destination's capacity. -/
inductive PollPc (ν : Type) where
  | start
  | preparing
  /-- `blocking`: with a timeout that is not zero. -/
  | select (blocking : Bool)
  | cleanup (room : Nat)
  | clearing
  | looping (room : Nat) (untilPtr : Option (Ptr ν))
  | dequeuing (room : Nat) (untilPtr : Option (Ptr ν))
  | node (p : Ptr ν) (room : Nat) (untilPtr : Option (Ptr ν))
  | requeuing (event : Bool) (room : Nat) (untilPtr : Option (Ptr ν))
  deriving DecidableEq, Repr

/-- The poller, the queue, and the bytes in the awakener's pipe. `replacer` is a record
    only: the thread that last took its place right behind the sleep marker. -/
structure Poller (ι ν : Type) where
  queue : Queue ι ν
  pc : PollPc ν
  bytes : Nat
  replacer : Agent ι

inductive PollEv (ι ν : Type) where
  | queue (e : Ev ι ν)
  | poll (zero : Bool)
  | selected
  | interrupted
  | failed
  | read (n : Nat)
  | full
  | taken (event : Bool)

/-- The size of the buffer `cleanup` reads into. -/
def READ_BUF : Nat := 128

/-- `wakeup` on a pipe that holds `more + 1` bytes: a full pipe keeps what it has. -/
def wakeup (more bytes : Nat) : Nat := min (bytes + 1) (more + 1)

/-- An event takes one place in the destination. -/
def roomAfter (event : Bool) (room : Nat) : Nat := if event then room - 1 else room

/-- The poll's `until`: the first node it puts back. -/
def firstBack {ν : Type} (u : Option (Ptr ν)) (p : Ptr ν) : Option (Ptr ν) :=
  match u with
  | none => some p
  | some q => some q

variable {ι ν : Type} [DecidableEq ι] [DecidableEq ν]

/-- Who replaced the sleep marker, after a step of the queue. -/
def replacedBy (s : Poller ι ν) (e : Ev ι ν) : Agent ι :=
  match e with
  | .swapped a _ => if s.queue.head = .sleepMarker then a else s.replacer
  | _ => s.replacer

/-- A step of the queue that is neither a call nor an answer of the consumer. -/
def Inner (e : Ev ι ν) : Prop :=
  match e with
  | .quiet => True
  | .swapped _ _ => True
  | .linked _ _ => True
  | .enqueue (some _) _ => True
  | _ => False

inductive PollStep (more : Nat) : Poller ι ν → PollEv ι ν → Poller ι ν → Prop
  | queue (s : Poller ι ν) (e : Ev ι ν) (q : Queue ι ν) : QStep s.queue e q → Inner e →
      PollStep more s (.queue e) { s with queue := q, replacer := replacedBy s e }
  /-- `enqueue_node_with_wakeup` ends: the producer wakes the poller if it has to. -/
  | returned (s : Poller ι ν) (i : ι) (w : Bool) (q : Queue ι ν) : QStep s.queue (.returned i w) q →
      PollStep more s (.queue (.returned i w)) { s with queue := q, bytes := if w then wakeup more s.bytes else s.bytes }
  | pollZero (s : Poller ι ν) : s.pc = .start → PollStep more s (.poll true) { s with pc := .select false }
  | pollPrepare (s : Poller ι ν) (q : Queue ι ν) : s.pc = .start → QStep s.queue (.called .prepare) q →
      PollStep more s (.queue (.called .prepare)) { s with queue := q, pc := .preparing }
  | prepared (s : Poller ι ν) (b : Bool) (q : Queue ι ν) : s.pc = .preparing → QStep s.queue (.answer (.slept b)) q →
      PollStep more s (.queue (.answer (.slept b))) { s with queue := q, pc := .select b }
  /-- `Ok(true)`: the awakener's token is among the events. -/
  | selectedNotify (s : Poller ι ν) (b : Bool) (room : Nat) : s.pc = .select b →
      PollStep more s .selected { s with pc := .cleanup room }
  /-- `Ok(false)`, or an interrupt after the timeout has passed. -/
  | selected (s : Poller ι ν) (b : Bool) (room : Nat) : s.pc = .select b →
      PollStep more s .selected { s with pc := .looping (room + 1) none }
  | selectedFull (s : Poller ι ν) (b : Bool) (q : Queue ι ν) : s.pc = .select b → QStep s.queue (.called .clear) q →
      PollStep more s (.queue (.called .clear)) { s with queue := q, pc := .clearing }
  /-- An interrupt before the timeout has passed: `select` is called again. -/
  | interrupted (s : Poller ι ν) (b : Bool) : s.pc = .select b → PollStep more s .interrupted s
  | failed (s : Poller ι ν) (b : Bool) : s.pc = .select b → PollStep more s .failed { s with pc := .start }
  | read (s : Poller ι ν) (room : Nat) : s.pc = .cleanup room → 0 < s.bytes →
      PollStep more s (.read (min READ_BUF s.bytes)) { s with bytes := s.bytes - min READ_BUF s.bytes }
  | readNone (s : Poller ι ν) (room : Nat) : s.pc = .cleanup (room + 1) → s.bytes = 0 →
      PollStep more s (.read 0) { s with pc := .looping (room + 1) none }
  | readNoneFull (s : Poller ι ν) (q : Queue ι ν) : s.pc = .cleanup 0 → s.bytes = 0 → QStep s.queue (.called .clear) q →
      PollStep more s (.queue (.called .clear)) { s with queue := q, pc := .clearing }
  | cleared (s : Poller ι ν) (q : Queue ι ν) : s.pc = .clearing → QStep s.queue (.answer .cleared) q →
      PollStep more s (.queue (.answer .cleared)) { s with queue := q, pc := .start }
  | full (s : Poller ι ν) (u : Option (Ptr ν)) : s.pc = .looping 0 u → PollStep more s .full { s with pc := .start }
  | dequeue (s : Poller ι ν) (room : Nat) (u : Option (Ptr ν)) (q : Queue ι ν) : s.pc = .looping (room + 1) u →
      QStep s.queue (.called (.dequeue u)) q →
      PollStep more s (.queue (.called (.dequeue u))) { s with queue := q, pc := .dequeuing (room + 1) u }
  | empty (s : Poller ι ν) (room : Nat) (u : Option (Ptr ν)) (r : Answer ν) (q : Queue ι ν) : s.pc = .dequeuing room u →
      r = .empty ∨ r = .inconsistent → QStep s.queue (.answer r) q →
      PollStep more s (.queue (.answer r)) { s with queue := q, pc := .start }
  | data (s : Poller ι ν) (room : Nat) (u : Option (Ptr ν)) (p : Ptr ν) (q : Queue ι ν) : s.pc = .dequeuing room u →
      QStep s.queue (.answer (.data p)) q →
      PollStep more s (.queue (.answer (.data p))) { s with queue := q, pc := .node p room u }
  /-- The node is not put back: released, or dequeued with an event or without. -/
  | taken (s : Poller ι ν) (p : Ptr ν) (room : Nat) (u : Option (Ptr ν)) (event : Bool) : s.pc = .node p room u →
      PollStep more s (.taken event) { s with pc := .looping (roomAfter event room) u }
  | requeue (s : Poller ι ν) (n : ν) (room : Nat) (u : Option (Ptr ν)) (event : Bool) (q : Queue ι ν) :
      s.pc = .node (.node n) room u → QStep s.queue (.enqueue none n) q →
      PollStep more s (.queue (.enqueue none n))
        { s with queue := q, pc := .requeuing event room (firstBack u (.node n)) }
  | requeued (s : Poller ι ν) (event : Bool) (room : Nat) (u : Option (Ptr ν)) (q : Queue ι ν) :
      s.pc = .requeuing event room u → QStep s.queue (.answer .enqueued) q →
      PollStep more s (.queue (.answer .enqueued)) { s with queue := q, pc := .looping (roomAfter event room) u }

/-- A new poller whose pipe holds `more + 1` bytes. -/
def poller (ι ν : Type) [DecidableEq ι] [DecidableEq ν] (more : Nat) : Lts (Poller ι ν) (PollEv ι ν) :=
  ⟨fun s => s = ⟨Queue.new ι ν, .start, 0, none⟩, PollStep more⟩

/-- The steps of the queue in a history of the poller. -/
def queueEvents (τ : List (PollEv ι ν)) : List (Ev ι ν) :=
  τ.filterMap fun e => match e with
    | .queue e => some e
    | _ => none

/-! ## Asleep -/

/-- Producer `i` has still to wake the poller, for having replaced the sleep marker. -/
def Waking (q : Queue ι ν) (i : ι) : Prop :=
  (∃ p, q.flight (some i) = some (.link p .sleepMarker)) ∨ q.flight (some i) = some (.done true)

/-- The state of a poller blocked in `select`. -/
structure Asleep (s : Poller ι ν) (rest : List (Ptr ν)) : Prop where
  idle : s.queue.cons = .idle
  tail : s.queue.tail = .sleepMarker
  covered : nodes (s.queue.tail :: rest) = [] ∨ 0 < s.bytes ∨ ∃ i, s.replacer = some i ∧ Waking s.queue i

omit [DecidableEq ι] [DecidableEq ν] in
/-- Behind a sleep marker there are only nodes. -/
theorem rest_nil {q : Queue ι ν} {rest : List (Ptr ν)} (h : Inv q rest) (ht : q.tail = .sleepMarker)
    (hn : nodes (q.tail :: rest) = []) : rest = [] := by
  cases rest with
  | nil => rfl
  | cons b ys =>
    obtain ⟨n, rfl⟩ := node_of_not_marker (h.shape.next_node (by rw [ht]; rfl))
    rw [ht] at hn
    cases hn

theorem inner_idle {q q' : Queue ι ν} {e : Ev ι ν} (hs : QStep q e q') (he : Inner e) (hidle : q.cons = .idle) :
    q'.cons = .idle ∧ q'.tail = q.tail := by
  cases hs with
  | store => exact ⟨hidle, rfl⟩
  | load => exact ⟨hidle, rfl⟩
  | closed => exact ⟨hidle, rfl⟩
  | swap => exact ⟨hidle, rfl⟩
  | retry => exact ⟨hidle, rfl⟩
  | link => exact ⟨hidle, rfl⟩
  | enqueue => exact ⟨hidle, rfl⟩
  | deqNone u h => rw [hidle] at h; cases h
  | deqSkip u b h => rw [hidle] at h; cases h
  | deqMore u h =>
    rcases h with h | ⟨h, -⟩
    · rw [hidle] at h; cases h
    · rw [hidle] at h; cases h
  | deqHeadEq h => rw [hidle] at h; cases h
  | deqEnded w h => rw [hidle] at h; cases h
  | clearStore deq h => rw [hidle] at h; cases h
  | prepareStore h => rw [hidle] at h; cases h
  | _ => cases he

/-- A producer that has to wake the poller still has to after a step of the queue, short
    of its return. -/
theorem waking_inner {q q' : Queue ι ν} {e : Ev ι ν} {i : ι} (hs : QStep q e q') (he : Inner e) (hidle : q.cons = .idle)
    (hw : Waking q i) : Waking q' i := by
  have other : ∀ (a : Agent ι) (o : Option (Enq ν)), (∀ p, q.flight a ≠ some (.link p .sleepMarker)) → q.flight a ≠ some (.done true) →
      (∃ p, update q.flight a o (some i) = some (.link p .sleepMarker)) ∨ update q.flight a o (some i) = some (.done true) := by
    intro a o hl hd
    have hne : some i ≠ a := by
      intro e
      subst e
      rcases hw with ⟨p, hp⟩ | hp
      · exact hl p hp
      · exact hd hp
    rw [Function.update_of_ne hne]; exact hw
  cases hs with
  | store a p h0 => exact other a _ (by simp [h0]) (by simp [h0])
  | load a p h0 => exact other a _ (by simp [h0]) (by simp [h0])
  | closed a p h0 => exact other a _ (by simp [h0]) (by simp [h0])
  | swap a p prev h0 => exact other a _ (by simp [h0]) (by simp [h0])
  | retry a p prev h0 => exact other a _ (by simp [h0]) (by simp [h0])
  | enqueue j n h0 => exact other (some j) _ (by simp [h0]) (by simp [h0])
  | link a p prev h0 =>
    by_cases ha : a = some i
    · subst ha
      rcases hw with ⟨p', hp⟩ | hp
      · rw [h0] at hp
        cases hp
        exact .inr (Function.update_self ..)
      · rw [h0] at hp; cases hp
    · rcases hw with ⟨p', hp⟩ | hp
      · exact .inl ⟨p', by rw [← hp]; exact Function.update_of_ne (Ne.symm ha) ..⟩
      · exact .inr (by rw [← hp]; exact Function.update_of_ne (Ne.symm ha) ..)
  | deqNone u h => rw [hidle] at h; cases h
  | deqSkip u b h => rw [hidle] at h; cases h
  | deqMore u h =>
    rcases h with h | ⟨h, -⟩
    · rw [hidle] at h; cases h
    · rw [hidle] at h; cases h
  | deqHeadEq h => rw [hidle] at h; cases h
  | deqEnded w h => rw [hidle] at h; cases h
  | clearStore deq h => rw [hidle] at h; cases h
  | prepareStore h => rw [hidle] at h; cases h
  | _ => cases he

/-- Asleep, a step of the queue leaves the poller asleep. -/
theorem asleep_queue {s : Poller ι ν} {rest rest' : List (Ptr ν)} {e : Ev ι ν} {q : Queue ι ν} (h : Asleep s rest)
    (hinv : Inv s.queue rest) (hs : QStep s.queue e q) (he : Inner e)
    (hm : Moves e (nodes (s.queue.tail :: rest)) (nodes (q.tail :: rest'))) :
    Asleep { s with queue := q, replacer := replacedBy s e } rest' := by
  obtain ⟨hidle, htail⟩ := inner_idle hs he h.idle
  refine ⟨hidle, htail.trans h.tail, ?_⟩
  have hown : s.queue.flight none = none := hinv.cons.own_none (by rw [h.idle]; simp) (by rw [h.idle]; simp)
  -- a thread that takes the place right behind the marker has the link and the wakeup ahead of it
  have swap : ∀ a p, e = .swapped a p → s.queue.head = .sleepMarker →
      ∃ i, replacedBy s e = some i ∧ Waking q i := by
    rintro a p rfl hhead
    cases hs with
    | swap _ _ prev h0 _ hprev =>
      cases a with
      | none => rw [hown] at h0; cases h0
      | some i =>
        refine ⟨i, if_pos hhead, .inl ⟨p, ?_⟩⟩
        rw [← hhead, hprev]; exact Function.update_self ..
  by_cases hr : ∃ a p, e = .swapped a p ∧ s.queue.head = .sleepMarker
  · obtain ⟨a, p, hep, hhead⟩ := hr
    exact .inr (.inr (swap a p hep hhead))
  · have hrep : replacedBy s e = s.replacer := by
      unfold replacedBy
      split
      · rename_i a p
        exact if_neg fun hh => hr ⟨a, p, rfl, hh⟩
      · rfl
    rcases h.covered with hn | hb | ⟨i, hi, hw⟩
    · left
      cases e with
      | swapped a p =>
        have hnil := rest_nil hinv h.tail hn
        exact absurd ⟨a, p, rfl, by rw [← hinv.shape.last, hnil]; exact h.tail⟩ hr
      | quiet => exact hm.trans hn
      | linked a p => exact hm.trans hn
      | enqueue a n => exact hm.trans hn
      | called op => cases he
      | returned i w => cases he
      | answer r => cases he
    · exact .inr (.inl hb)
    · exact .inr (.inr ⟨i, hrep.trans hi, waking_inner hs he h.idle hw⟩)

theorem wakeup_pos (more bytes : Nat) : 0 < wakeup more bytes := by unfold wakeup; omega

/-- Asleep, a producer's return leaves the poller asleep: the one that had to wake it has. -/
theorem asleep_returned {s : Poller ι ν} {rest rest' : List (Ptr ν)} {i : ι} {w : Bool} {q : Queue ι ν} {more : Nat}
    (h : Asleep s rest) (hs : QStep s.queue (.returned i w) q)
    (hm : Moves (.returned i w : Ev ι ν) (nodes (s.queue.tail :: rest)) (nodes (q.tail :: rest'))) :
    Asleep { s with queue := q, bytes := if w then wakeup more s.bytes else s.bytes } rest' := by
  cases hs with
  | returned _ _ h0 =>
    refine ⟨h.idle, h.tail, ?_⟩
    rcases h.covered with hn | hb | ⟨j, hj, hw⟩
    · exact .inl (hm.trans hn)
    · refine .inr (.inl ?_)
      show 0 < if w then wakeup more s.bytes else s.bytes
      split
      · exact wakeup_pos ..
      · exact hb
    · by_cases hij : j = i
      · subst hij
        rcases hw with ⟨p, hp⟩ | hp
        · rw [h0] at hp; cases hp
        · rw [h0] at hp
          cases hp
          exact .inr (.inl (wakeup_pos ..))
      · refine .inr (.inr ⟨j, hj, ?_⟩)
        have hne : some j ≠ some i := fun e => hij (Option.some.inj e)
        rcases hw with ⟨p, hp⟩ | hp
        · exact .inl ⟨p, by rw [← hp]; exact Function.update_of_ne hne ..⟩
        · exact .inr (by rw [← hp]; exact Function.update_of_ne hne ..)

/-- `prepare_for_sleep` returns true on an empty queue only, with the sleep marker in it. -/
theorem slept_true {q q' : Queue ι ν} (hs : QStep q (.answer (.slept true)) q') :
    q'.cons = .idle ∧ q'.tail = .sleepMarker ∧ q'.head = .sleepMarker := by
  generalize he : (Ev.answer (.slept true) : Ev ι ν) = e at hs
  cases hs with
  | prepareHead hp ht =>
    injection he with he
    injection he with he
    exact ⟨rfl, ht, of_decide_eq_true he.symm⟩
  | prepareSwap => exact ⟨rfl, rfl, rfl⟩
  | clearSkip deq => cases deq <;> cases he
  | clearSwap deq => cases deq <;> cases he
  | clearFail deq => cases deq <;> cases he
  | _ => cases he

/-! ## Runs -/

/-- The nodes in the queue are those that took their place and have not been handed out. -/
def Holds (τ : List (PollEv ι ν)) (s : Poller ι ν) (rest : List (Ptr ν)) : Prop :=
  (swapped (queueEvents τ)).map .node = handedOut (queueEvents τ) ++ (nodes (s.queue.tail :: rest)).map .node

structure PollInv (τ : List (PollEv ι ν)) (s : Poller ι ν) (rest : List (Ptr ν)) : Prop where
  inv : Inv s.queue rest
  holds : Holds τ s rest
  asleep : s.pc = .select true → Asleep s rest

omit [DecidableEq ι] [DecidableEq ν] in
theorem holds_queue {τ : List (PollEv ι ν)} {e : Ev ι ν} {xs ys : List ν} (hm : Moves e xs ys)
    (h : (swapped (queueEvents τ)).map .node = handedOut (queueEvents τ) ++ xs.map .node) :
    (swapped (queueEvents (τ ++ [.queue e]))).map .node = handedOut (queueEvents (τ ++ [.queue e])) ++ ys.map .node := by
  have hq : queueEvents (τ ++ [.queue e]) = queueEvents τ ++ [e] := by simp [queueEvents, List.filterMap_append]
  rw [hq]
  exact moves_history hm h

omit [DecidableEq ι] [DecidableEq ν] in
/-- A step of the poller that is no step of the queue. -/
theorem PollInv.other {τ : List (PollEv ι ν)} {s : Poller ι ν} {rest : List (Ptr ν)} (h : PollInv τ s rest) {e : PollEv ι ν}
    (he : ∀ q, e ≠ .queue q) {pc : PollPc ν} {bytes : Nat} (hpc : pc ≠ .select true) :
    PollInv (τ ++ [e]) { s with pc := pc, bytes := bytes } rest := by
  have hq : queueEvents (τ ++ [e]) = queueEvents τ := by
    cases e with
    | queue q => exact absurd rfl (he q)
    | _ => simp [queueEvents, List.filterMap_append]
  refine ⟨h.inv, ?_, fun hp => absurd hp hpc⟩
  unfold Holds
  rw [hq]; exact h.holds

/-- A call or an answer of the consumer's operations on the queue. -/
theorem PollInv.consumer {τ : List (PollEv ι ν)} {s : Poller ι ν} {rest : List (Ptr ν)} (h : PollInv τ s rest) {e : Ev ι ν}
    {q : Queue ι ν} (hs : QStep s.queue e q) {pc : PollPc ν} (hpc : pc ≠ .select true) :
    ∃ rest', PollInv (τ ++ [.queue e]) { s with queue := q, pc := pc } rest' := by
  obtain ⟨rest', hi, hm⟩ := step_inv h.inv hs
  exact ⟨rest', hi, holds_queue hm h.holds, fun hp => absurd hp hpc⟩

theorem poll_step {more : Nat} {τ : List (PollEv ι ν)} {s s' : Poller ι ν} {e : PollEv ι ν} {rest : List (Ptr ν)}
    (h : PollInv τ s rest) (hs : PollStep more s e s') : ∃ rest', PollInv (τ ++ [e]) s' rest' := by
  cases hs with
  | queue e q hq he =>
    obtain ⟨rest', hi, hm⟩ := step_inv h.inv hq
    exact ⟨rest', hi, holds_queue hm h.holds, fun hp => asleep_queue (h.asleep hp) h.inv hq he hm⟩
  | returned i w q hq =>
    obtain ⟨rest', hi, hm⟩ := step_inv h.inv hq
    exact ⟨rest', hi, holds_queue hm h.holds, fun hp => asleep_returned (h.asleep hp) hq hm⟩
  | prepared b q _ hq =>
    obtain ⟨rest', hi, hm⟩ := step_inv h.inv hq
    refine ⟨rest', hi, holds_queue hm h.holds, fun hp => ?_⟩
    cases hp
    obtain ⟨hidle, htail, hhead⟩ := slept_true hq
    refine ⟨hidle, htail, .inl ?_⟩
    have hshape := hi.shape
    rw [htail, hhead] at hshape
    rw [hshape.single, htail]; rfl
  | interrupted b hpc =>
    refine ⟨rest, h.inv, ?_, fun hp => ?_⟩
    · have hq : queueEvents (τ ++ [.interrupted]) = queueEvents τ := by simp [queueEvents, List.filterMap_append]
      unfold Holds
      rw [hq]; exact h.holds
    · exact h.asleep hp
  | pollPrepare q _ hq => exact h.consumer hq (by simp)
  | selectedFull b q _ hq => exact h.consumer hq (by simp)
  | readNoneFull q _ _ hq => exact h.consumer hq (by simp)
  | cleared q _ hq => exact h.consumer hq (by simp)
  | dequeue room u q _ hq => exact h.consumer hq (by simp)
  | empty room u r q _ _ hq => exact h.consumer hq (by simp)
  | data room u p q _ hq => exact h.consumer hq (by simp)
  | requeue n room u event q _ hq => exact h.consumer hq (by simp)
  | requeued event room u q _ hq => exact h.consumer hq (by simp)
  | pollZero _ => exact ⟨rest, h.other (by simp) (by simp)⟩
  | selectedNotify b room _ => exact ⟨rest, h.other (by simp) (by simp)⟩
  | selected b room _ => exact ⟨rest, h.other (by simp) (by simp)⟩
  | failed b _ => exact ⟨rest, h.other (by simp) (by simp)⟩
  | read room hpc _ => exact ⟨rest, h.other (by simp) (by rw [hpc]; simp)⟩
  | readNone room _ _ => exact ⟨rest, h.other (by simp) (by simp)⟩
  | full u _ => exact ⟨rest, h.other (by simp) (by simp)⟩
  | taken p room u event _ => exact ⟨rest, h.other (by simp) (by simp)⟩

theorem poll_inv {more : Nat} {τ : List (PollEv ι ν)} {s : Poller ι ν} (h : Run (poller ι ν more) τ s) :
    ∃ rest, PollInv τ s rest := by
  induction h with
  | init hi =>
    cases hi
    exact ⟨[], new_inv, rfl, fun hp => by cases hp⟩
  | step _ hs ih =>
    obtain ⟨rest, hinv⟩ := ih
    exact poll_step hinv hs

/-- While the poller is blocked in `select` after `prepare_for_sleep` returned true, every
    node that took its place in the queue has been handed out, or the pipe holds a byte,
    or the producer that replaced the sleep marker has still to link its node or to wake
    the poller. -/
theorem no_lost_wakeup {more : Nat} {τ : List (PollEv ι ν)} {s : Poller ι ν} (h : Run (poller ι ν more) τ s)
    (hpc : s.pc = .select true) :
    (swapped (queueEvents τ)).map .node = handedOut (queueEvents τ) ∨ 0 < s.bytes ∨
      ∃ i, s.replacer = some i ∧ ((∃ p, s.queue.flight (some i) = some (.link p .sleepMarker)) ∨
        s.queue.flight (some i) = some (.done true)) := by
  obtain ⟨rest, hinv⟩ := poll_inv h
  rcases (hinv.asleep hpc).covered with hn | hb | hw
  · left
    have hh := hinv.holds
    unfold Holds at hh
    rw [hn] at hh
    simpa using hh
  · exact .inr (.inl hb)
  · exact .inr (.inr hw)

/-- A poller goes to sleep, a producer enqueues node 7 behind the sleep marker and writes
    its byte. -/
theorem no_lost_wakeup_one_node : ∃ (τ : List (PollEv Unit Nat)) (s : Poller Unit Nat), Run (poller Unit Nat 0) τ s ∧
    s.bytes = 1 ∧ ((swapped (queueEvents τ)).map Ptr.node = handedOut (queueEvents τ) ∨ 0 < s.bytes ∨
      ∃ i, s.replacer = some i ∧ ((∃ p, s.queue.flight (some i) = some (.link p .sleepMarker)) ∨
        s.queue.flight (some i) = some (.done true))) := by
  have h0 : Run (poller Unit Nat 0) [] ⟨Queue.new Unit Nat, .start, 0, none⟩ := .init rfl
  have h1 := h0.step (.pollPrepare _ _ rfl (.prepare _ rfl))
  have h2 := h1.step (.queue _ _ _ (.prepareStore _ rfl rfl) trivial)
  have h3 := h2.step (.prepared _ true _ rfl (.prepareSwap _ rfl rfl))
  have h4 := h3.step (.queue _ _ _ (.enqueue _ () 7 rfl rfl) trivial)
  have h5 := h4.step (.queue _ _ _ (.store _ (some ()) (.node 7) rfl) trivial)
  have h6 := h5.step (.queue _ _ _ (.load _ (some ()) (.node 7) rfl) trivial)
  have h7 := h6.step (.queue _ _ _ (.swap _ (some ()) (.node 7) .sleepMarker rfl (by decide) rfl) trivial)
  have h8 := h7.step (.queue _ _ _ (.link _ (some ()) (.node 7) .sleepMarker rfl) trivial)
  have h9 := h8.step (.returned _ () true _ (.returned _ () true rfl))
  exact ⟨_, _, h9, rfl, no_lost_wakeup h9 rfl⟩

end Sickle.Poll
