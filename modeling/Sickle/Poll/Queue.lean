/-
  Sickle.Poll.Queue — the intrusive queue of readiness nodes (`ReadinessQueueInner`).

  Any number of producers (indexed by `ι`) run `enqueue_node`; the one consumer runs
  `dequeue_node`, `prepare_for_sleep`, `clear_sleep_marker` and `enqueue_node` too (of a
  node it puts back, and of the end marker inside `dequeue_node`). Every atomic load,
  store and compare-exchange is one step, the memory is sequentially consistent, and what
  a thread does between two of them is part of the step before. `tail_readiness` is read
  and written by the consumer only.

  A node is passed to `enqueue_node` only while it is unlinked: `busy` is set when an
  enqueue of it begins and cleared when `dequeue_node` hands it out; that the code keeps
  to this is shown in `Sickle.Poll.Compose`. The queue is open: `Drop for
  ReadinessQueue`, which enqueues the closed marker, is not among the steps.
-/

import Mathlib.Logic.Function.Basic
import Sickle.Lib.Run

namespace Sickle.Poll

open Function (update)
open Sickle.Lib

/-- `*mut ReadinessNode`, never null: a registered node or one of the queue's markers. -/
inductive Ptr (ν : Type) where
  | node (n : ν)
  | endMarker
  | sleepMarker
  | closedMarker
  deriving DecidableEq, Repr

def Ptr.isMarker {ν : Type} (p : Ptr ν) : Bool :=
  match p with
  | .node _ => false
  | _ => true

def Ptr.node? {ν : Type} (p : Ptr ν) : Option ν :=
  match p with
  | .node n => some n
  | _ => none

/-- Where a call of `enqueue_node(p)` is: before the store of null to its own `next`,
    before the load of the head, before the compare-exchange of the head from `prev`,
    before the store to `prev.next`, and returned. -/
inductive Enq (ν : Type) where
  | store (p : Ptr ν)
  | load (p : Ptr ν)
  | swap (p prev : Ptr ν)
  | link (p prev : Ptr ν)
  | done (wakeup : Bool)
  deriving DecidableEq, Repr

/-- What an operation of the consumer returns. -/
inductive Answer (ν : Type) where
  | data (p : Ptr ν)
  | empty
  | inconsistent
  | slept (ready : Bool)
  | cleared
  | enqueued
  deriving DecidableEq, Repr

/-- What `clear_sleep_marker` ends: itself, or a `dequeue_node` that found nothing. -/
def Answer.cleared? {ν : Type} (deq : Bool) : Answer ν := if deq then .empty else .cleared

/-- Where the consumer is. In `clear` and `clearSwap` it is in `clear_sleep_marker`, called
    by `dequeue_node` if `deq`. -/
inductive Cons (ν : Type) where
  | idle
  | deqLoad (untilPtr : Option (Ptr ν))
  | deqNext (untilPtr : Option (Ptr ν))
  | deqHead
  | deqEnd
  | deqLast
  | clear (deq : Bool)
  | clearSwap (deq : Bool)
  | prepare
  | prepareSwap
  | requeue
  deriving DecidableEq, Repr

/-- The threads: producer `i` is `some i`, the consumer is `none`. -/
abbrev Agent (ι : Type) := Option ι

structure Queue (ι ν : Type) where
  head : Ptr ν
  tail : Ptr ν
  next : Ptr ν → Option (Ptr ν)
  flight : Agent ι → Option (Enq ν)
  busy : ν → Bool
  cons : Cons ν

namespace Queue

def new (ι ν : Type) : Queue ι ν where
  head := .endMarker
  tail := .endMarker
  next _ := none
  flight _ := none
  busy _ := false
  cons := .idle

variable {ι ν : Type}

/-- The consumer has in hand a tail that is not a marker. -/
def AtNode (s : Queue ι ν) (u : Option (Ptr ν)) : Prop :=
  s.cons = .deqNext u ∨ (s.cons = .deqLoad u ∧ s.tail.isMarker = false)

end Queue

/-- The operations of the consumer, besides putting a node back. -/
inductive Op (ν : Type) where
  | dequeue (untilPtr : Option (Ptr ν))
  | clear
  | prepare
  deriving DecidableEq, Repr

inductive Ev (ι ν : Type) where
  | enqueue (a : Agent ι) (n : ν)
  | called (op : Op ν)
  | quiet
  | swapped (a : Agent ι) (p : Ptr ν)
  | linked (a : Agent ι) (p : Ptr ν)
  | returned (i : ι) (wakeup : Bool)
  | answer (r : Answer ν)
  deriving Repr

variable {ι ν : Type} [DecidableEq ι] [DecidableEq ν]

/-- A node handed out is free to be enqueued again. -/
def handOut (busy : ν → Bool) (p : Ptr ν) : ν → Bool :=
  match p with
  | .node n => update busy n false
  | _ => busy

inductive QStep : Queue ι ν → Ev ι ν → Queue ι ν → Prop
  -- enqueue_node, by any thread
  | store (s : Queue ι ν) (a : Agent ι) (p : Ptr ν) : s.flight a = some (.store p) →
      QStep s .quiet { s with next := update s.next p none, flight := update s.flight a (some (.load p)) }
  | load (s : Queue ι ν) (a : Agent ι) (p : Ptr ν) : s.flight a = some (.load p) →
      QStep s .quiet { s with flight := update s.flight a (some (.swap p s.head)) }
  | closed (s : Queue ι ν) (a : Agent ι) (p : Ptr ν) : s.flight a = some (.swap p .closedMarker) →
      QStep s .quiet { s with flight := update s.flight a (some (.done false)) }
  | swap (s : Queue ι ν) (a : Agent ι) (p prev : Ptr ν) : s.flight a = some (.swap p prev) → prev ≠ .closedMarker →
      s.head = prev → QStep s (.swapped a p) { s with head := p, flight := update s.flight a (some (.link p prev)) }
  | retry (s : Queue ι ν) (a : Agent ι) (p prev : Ptr ν) : s.flight a = some (.swap p prev) → prev ≠ .closedMarker →
      s.head ≠ prev → QStep s .quiet { s with flight := update s.flight a (some (.swap p s.head)) }
  | link (s : Queue ι ν) (a : Agent ι) (p prev : Ptr ν) : s.flight a = some (.link p prev) →
      QStep s (.linked a p) { s with
        next := update s.next prev (some p)
        flight := update s.flight a (some (.done (decide (prev = .sleepMarker)))) }
  -- a producer's call and return
  | enqueue (s : Queue ι ν) (i : ι) (n : ν) : s.flight (some i) = none → s.busy n = false →
      QStep s (.enqueue (some i) n)
        { s with flight := update s.flight (some i) (some (.store (.node n))), busy := update s.busy n true }
  | returned (s : Queue ι ν) (i : ι) (wakeup : Bool) : s.flight (some i) = some (.done wakeup) →
      QStep s (.returned i wakeup) { s with flight := update s.flight (some i) none }
  -- dequeue_node(untilPtr)
  | dequeue (s : Queue ι ν) (u : Option (Ptr ν)) : s.cons = .idle →
      QStep s (.called (.dequeue u)) { s with cons := .deqLoad u }
  | deqNone (s : Queue ι ν) (u : Option (Ptr ν)) : s.cons = .deqLoad u → s.tail.isMarker = true → s.next s.tail = none →
      QStep s .quiet { s with cons := .clear true }
  | deqSkip (s : Queue ι ν) (u : Option (Ptr ν)) (b : Ptr ν) : s.cons = .deqLoad u → s.tail.isMarker = true →
      s.next s.tail = some b → QStep s .quiet { s with tail := b, cons := .deqNext u }
  | deqUntil (s : Queue ι ν) (u : Option (Ptr ν)) : s.AtNode u → u = some s.tail →
      QStep s (.answer .empty) { s with cons := .idle }
  | deqData (s : Queue ι ν) (u : Option (Ptr ν)) (b : Ptr ν) : s.AtNode u → u ≠ some s.tail → s.next s.tail = some b →
      QStep s (.answer (.data s.tail)) { s with tail := b, busy := handOut s.busy s.tail, cons := .idle }
  | deqMore (s : Queue ι ν) (u : Option (Ptr ν)) : s.AtNode u → u ≠ some s.tail → s.next s.tail = none →
      QStep s .quiet { s with cons := .deqHead }
  | deqHeadNe (s : Queue ι ν) : s.cons = .deqHead → s.head ≠ s.tail → QStep s (.answer .inconsistent) { s with cons := .idle }
  | deqHeadEq (s : Queue ι ν) : s.cons = .deqHead → s.head = s.tail →
      QStep s .quiet { s with flight := update s.flight none (some (.store .endMarker)), cons := .deqEnd }
  | deqEnded (s : Queue ι ν) (wakeup : Bool) : s.cons = .deqEnd → s.flight none = some (.done wakeup) →
      QStep s .quiet { s with flight := update s.flight none none, cons := .deqLast }
  | deqLastData (s : Queue ι ν) (b : Ptr ν) : s.cons = .deqLast → s.next s.tail = some b →
      QStep s (.answer (.data s.tail)) { s with tail := b, busy := handOut s.busy s.tail, cons := .idle }
  | deqLastNone (s : Queue ι ν) : s.cons = .deqLast → s.next s.tail = none →
      QStep s (.answer .inconsistent) { s with cons := .idle }
  -- clear_sleep_marker
  | clear (s : Queue ι ν) : s.cons = .idle → QStep s (.called .clear) { s with cons := .clear false }
  | clearSkip (s : Queue ι ν) (deq : Bool) : s.cons = .clear deq → s.tail ≠ .sleepMarker →
      QStep s (.answer (.cleared? deq)) { s with cons := .idle }
  | clearStore (s : Queue ι ν) (deq : Bool) : s.cons = .clear deq → s.tail = .sleepMarker →
      QStep s .quiet { s with next := update s.next .endMarker none, cons := .clearSwap deq }
  | clearSwap (s : Queue ι ν) (deq : Bool) : s.cons = .clearSwap deq → s.head = .sleepMarker →
      QStep s (.answer (.cleared? deq)) { s with head := .endMarker, tail := .endMarker, cons := .idle }
  | clearFail (s : Queue ι ν) (deq : Bool) : s.cons = .clearSwap deq → s.head ≠ .sleepMarker →
      QStep s (.answer (.cleared? deq)) { s with cons := .idle }
  -- prepare_for_sleep
  | prepare (s : Queue ι ν) : s.cons = .idle → QStep s (.called .prepare) { s with cons := .prepare }
  | prepareHead (s : Queue ι ν) : s.cons = .prepare → s.tail = .sleepMarker →
      QStep s (.answer (.slept (decide (s.head = .sleepMarker)))) { s with cons := .idle }
  | prepareNo (s : Queue ι ν) : s.cons = .prepare → s.tail ≠ .sleepMarker → s.tail ≠ .endMarker →
      QStep s (.answer (.slept false)) { s with cons := .idle }
  | prepareStore (s : Queue ι ν) : s.cons = .prepare → s.tail = .endMarker →
      QStep s .quiet { s with next := update s.next .sleepMarker none, cons := .prepareSwap }
  | prepareSwap (s : Queue ι ν) : s.cons = .prepareSwap → s.head = .endMarker →
      QStep s (.answer (.slept true)) { s with head := .sleepMarker, tail := .sleepMarker, cons := .idle }
  | prepareFail (s : Queue ι ν) : s.cons = .prepareSwap → s.head ≠ .endMarker →
      QStep s (.answer (.slept false)) { s with cons := .idle }
  -- the consumer puts a node back
  | requeue (s : Queue ι ν) (n : ν) : s.cons = .idle → s.busy n = false →
      QStep s (.enqueue none n)
        { s with flight := update s.flight none (some (.store (.node n))), busy := update s.busy n true, cons := .requeue }
  | requeued (s : Queue ι ν) (wakeup : Bool) : s.cons = .requeue → s.flight none = some (.done wakeup) →
      QStep s (.answer .enqueued) { s with flight := update s.flight none none, cons := .idle }

/-- The queue of `ReadinessQueue::new`, with any producers and nodes. -/
def queue (ι ν : Type) [DecidableEq ι] [DecidableEq ν] : Lts (Queue ι ν) (Ev ι ν) := ⟨fun s => s = Queue.new ι ν, QStep⟩

/-- The nodes that took their place at the head, oldest first. -/
def swapped (τ : List (Ev ι ν)) : List ν :=
  τ.filterMap fun e => match e with
    | .swapped _ p => p.node?
    | _ => none

/-- The pointers handed out as data, oldest first. -/
def handedOut (τ : List (Ev ι ν)) : List (Ptr ν) :=
  τ.filterMap fun e => match e with
    | .answer (.data p) => some p
    | _ => none

end Sickle.Poll
