/-
  Sickle.Poll.Shutdown — the handles of the nodes, their reference counts, and the drop of
  the `ReadinessQueue`.

  The nodes and their queue are `Sickle.Poll.Compose`'s, and here the handles come and go:
  a `Registration` and its `SetReadiness`es, each with a reference to the node, as the
  queue has one. A call borrows the handle it is made on, so that one is not dropped under
  it; `update`, and the poll's own work, borrow the `Poll` too. When the `Poll` is dropped
  its `ReadinessQueue` takes the closed marker to `enqueue_node` and then empties the queue
  (`Drop for ReadinessQueue`), while threads go on with `set_readiness` and with dropping
  `Registration`s: `enqueue_node` releases what comes to it after the closed marker.

  The thread that drops the `Poll` is the queue's `none`, as the consumer was. A count that
  `SetReadiness::clone` finds above `MAX_REFCOUNT` aborts the process, so that call has no
  step. Every handle is there from the start: a node that is made later is one that nobody
  has used yet.
-/

import Mathlib.Algebra.Group.Nat.Defs
import Sickle.Poll.Compose

namespace Sickle.Poll

open Function (update)
open Sickle.Lib

def MAX_REFCOUNT : Nat := 2 ^ 63 - 1

/-- What a thread is doing with a handle of the node. -/
inductive Task where
  | setReadiness
  | update
  | drop
  deriving DecidableEq, Repr

/-- The handles of a node: whether its `Registration` is there, how many `SetReadiness`es
    are, and which threads use them. The rest are records: the queue had its reference
    released (`releases`, and how often the node was freed, `frees`), and the queue gave the
    node up in its drop (`taken`). -/
structure Life (ι : Type) where
  registration : Bool
  setReadiness : Nat
  task : ι → Option Task
  taken : Bool
  releases : Nat
  frees : Nat

/-- Where the drop of the `Poll` is. -/
inductive DropPc (ν : Type) where
  /-- The `Poll` is there. -/
  | alive
  /-- In `enqueue_node`, with the closed marker. -/
  | closing
  /-- In the loop. -/
  | draining
  /-- Before `release_node`. -/
  | releasing (n : ν)
  | dropped
  deriving DecidableEq, Repr

structure Shared (ι ν J : Type) where
  queue : Queue (ι × ν) ν
  nodes : ν → NodeSt ι Unit J
  life : ν → Life ι
  pc : DropPc ν

inductive SharedEv (ι ν J : Type) where
  | node (n : ν) (e : NodeEv ι Unit J)
  | queue (e : Ev (ι × ν) ν)
  | poll (e : Ev (ι × ν) ν)
  | both (n : ν) (e : NodeEv ι Unit J) (f : Ev (ι × ν) ν)
  | refused (i : ι) (n : ν)
  | clone (n : ν)
  | dropSetReadiness (n : ν)
  | dropRegistration (i : ι) (n : ν)
  | close
  | closed
  | drain (e : Ev (ι × ν) ν)
  | taken (n : ν)
  | release (n : ν)
  | dropped

namespace Life

variable {ι : Type}

def handles (l : Life ι) : Nat := l.registration.toNat + l.setReadiness

/-- `release_node`, where it finds that count. -/
def releaseNode (l : Life ι) (refCount : Nat) : Life ι := if refCount = 1 then { l with frees := l.frees + 1 } else l

/-- The same, of the queue's reference. -/
def releaseQueue (l : Life ι) (refCount : Nat) : Life ι :=
  { l.releaseNode refCount with releases := l.releases + 1 }

variable {J : Type}

/-- The step may be taken, as to the handles. -/
def Allows (l : Life ι) (alive : Prop) (e : NodeEv ι Unit J) : Prop :=
  match e with
  | .called _ (.setReadiness _) => 0 < l.setReadiness
  | .called _ (.update _) => l.registration = true ∧ alive
  | .dropped _ => l.registration = true ∧ ∀ i, l.task i ≠ some .update
  -- the drop of a `Registration` goes on with that of its reference
  | .returned i _ => l.task i ≠ some .drop
  | _ => True

variable [DecidableEq ι]

/-- The handles after a step of the node, which had that count. -/
def after (l : Life ι) (refCount : Nat) (e : NodeEv ι Unit J) : Life ι :=
  match e with
  | .called i (.setReadiness _) => { l with task := update l.task i (some .setReadiness) }
  | .called i (.update _) => { l with task := update l.task i (some .update) }
  | .dropped i => { l with task := update l.task i (some .drop) }
  | .returned i _ => { l with task := update l.task i none }
  | .released => l.releaseQueue refCount
  | _ => l

end Life

section Steps

variable {ι ν J : Type} [DecidableEq ι] [DecidableEq ν]

/-- No thread's `enqueue_node` begins or ends. -/
def SameFlights (q q' : Queue (ι × ν) ν) : Prop := ∀ i, flights q' (some i) = flights q (some i)

inductive SharedStep : Shared ι ν J → SharedEv ι ν J → Shared ι ν J → Prop
  /-- In `set_readiness`, `update`, `Drop for Registration`, or the poll's work on the node. -/
  | node (s : Shared ι ν J) (n : ν) (e : NodeEv ι Unit J) (t : NodeSt ι Unit J) : NodeStep (s.nodes n) e t → e.Apart →
      (s.life n).Allows (s.pc = .alive) e → SharedStep s (.node n e) { s with
        nodes := update s.nodes n t
        life := update s.life n ((s.life n).after (s.nodes n).node.refCount e) }
  /-- In `enqueue_node`. -/
  | queue (s : Shared ι ν J) (e : Ev (ι × ν) ν) (q : Queue (ι × ν) ν) : QStep s.queue e q → e.Apart →
      SameFlights s.queue q → q.cons = s.queue.cons → SharedStep s (.queue e) { s with queue := q }
  /-- The poll's `dequeue_node`, `prepare_for_sleep` and `clear_sleep_marker`. -/
  | poll (s : Shared ι ν J) (e : Ev (ι × ν) ν) (q : Queue (ι × ν) ν) : s.pc = .alive → QStep s.queue e q → e.Apart →
      q.cons ≠ s.queue.cons → (∀ op, e = .called op → ∀ n, (s.nodes n).consumer = .away) →
      SharedStep s (.poll e) { s with queue := q }
  | both (s : Shared ι ν J) (n : ν) (e : NodeEv ι Unit J) (f : Ev (ι × ν) ν) (t : NodeSt ι Unit J)
      (q : Queue (ι × ν) ν) : Meets n e f → NodeStep (s.nodes n) e t → QStep s.queue f q →
      (f = .answer (.data (.node n)) → s.pc = .alive) →
      SharedStep s (.both n e f) { s with queue := q, nodes := update s.nodes n t }
  /-- `enqueue_node` finds the closed marker: it releases the node and is done. -/
  | refused (s : Shared ι ν J) (i : ι) (n : ν) : (s.nodes n).pc i = .enqueue →
      s.queue.flight (some (i, n)) = some (.swap (.node n) .closedMarker) → SharedStep s (.refused i n) { s with
        queue.flight := update s.queue.flight (some (i, n)) (some (.done false))
        nodes := update s.nodes n { s.nodes n with
          node.refCount := (s.nodes n).node.refCount - 1
          pc := update (s.nodes n).pc i .wakeup }
        life := update s.life n { (s.life n).releaseQueue (s.nodes n).node.refCount with taken := true } }
  -- the handles
  | clone (s : Shared ι ν J) (n : ν) : 0 < (s.life n).setReadiness → (s.nodes n).node.refCount ≤ MAX_REFCOUNT →
      SharedStep s (.clone n) { s with
        nodes := update s.nodes n { s.nodes n with node.refCount := (s.nodes n).node.refCount + 1 }
        life := update s.life n { s.life n with setReadiness := (s.life n).setReadiness + 1 } }
  /-- Other threads may be in `set_readiness` if they do not use this one. -/
  | dropSetReadiness (s : Shared ι ν J) (n : ν) : 0 < (s.life n).setReadiness →
      (1 < (s.life n).setReadiness ∨ ∀ i, (s.life n).task i ≠ some .setReadiness) → SharedStep s (.dropSetReadiness n)
        { s with
          nodes := update s.nodes n { s.nodes n with node.refCount := (s.nodes n).node.refCount - 1 }
          life := update s.life n { (s.life n).releaseNode (s.nodes n).node.refCount with
            setReadiness := (s.life n).setReadiness - 1 } }
  /-- `Drop for Registration` is over: its reference goes. -/
  | dropRegistration (s : Shared ι ν J) (i : ι) (n : ν) (ok : Bool) : (s.life n).task i = some .drop →
      (s.nodes n).pc i = .ret ok → SharedStep s (.dropRegistration i n) { s with
        nodes := update s.nodes n { s.nodes n with
          node.refCount := (s.nodes n).node.refCount - 1
          pc := update (s.nodes n).pc i .idle }
        life := update s.life n { (s.life n).releaseNode (s.nodes n).node.refCount with
          registration := false
          task := update (s.life n).task i none } }
  -- Drop for ReadinessQueue
  | close (s : Shared ι ν J) : s.pc = .alive → s.queue.cons = .idle → (∀ n, (s.nodes n).consumer = .away) →
      (∀ n i, (s.life n).task i ≠ some .update) → SharedStep s .close
        { s with queue.flight := update s.queue.flight none (some (.store .closedMarker)), pc := .closing }
  | closed (s : Shared ι ν J) (wakeup : Bool) : s.pc = .closing → s.queue.flight none = some (.done wakeup) →
      SharedStep s .closed { s with queue.flight := update s.queue.flight none none, pc := .draining }
  /-- Its `dequeue_node`, until that answers; an inconsistent queue is tried again. -/
  | drain (s : Shared ι ν J) (e : Ev (ι × ν) ν) (q : Queue (ι × ν) ν) : s.pc = .draining → QStep s.queue e q → e.Apart →
      q.cons ≠ s.queue.cons → (∀ op, e = .called op → op = .dequeue none) → e ≠ .answer .empty →
      SharedStep s (.drain e) { s with queue := q }
  | taken (s : Shared ι ν J) (n : ν) (q : Queue (ι × ν) ν) : s.pc = .draining →
      QStep s.queue (.answer (.data (.node n))) q → SharedStep s (.taken n) { s with
        queue := q
        nodes := update s.nodes n { s.nodes n with linked := (s.nodes n).linked - 1 }
        life := update s.life n { s.life n with taken := true }
        pc := .releasing n }
  | release (s : Shared ι ν J) (n : ν) : s.pc = .releasing n → SharedStep s (.release n) { s with
      nodes := update s.nodes n { s.nodes n with node.refCount := (s.nodes n).node.refCount - 1 }
      life := update s.life n ((s.life n).releaseQueue (s.nodes n).node.refCount)
      pc := .draining }
  | dropped (s : Shared ι ν J) (q : Queue (ι × ν) ν) : s.pc = .draining → QStep s.queue (.answer .empty) q →
      SharedStep s .dropped { s with queue := q, pc := .dropped }

/-- A new `Poll`, and pairs of a `Registration` and a `SetReadiness` that nobody has used. -/
def Shared.Fresh (s : Shared ι ν J) : Prop :=
  s.queue = Queue.new (ι × ν) ν ∧ (∀ n, (s.nodes n).Fresh) ∧ (∀ n, s.life n = ⟨true, 1, fun _ => none, false, 0, 0⟩) ∧
    s.pc = .alive

def shared (ι ν J : Type) [DecidableEq ι] [DecidableEq ν] : Lts (Shared ι ν J) (SharedEv ι ν J) :=
  ⟨Shared.Fresh, SharedStep⟩

/-! ## Exact counts -/

/-- No thread is inside an operation. -/
def Shared.Quiet (s : Shared ι ν J) : Prop :=
  (s.pc = .alive ∨ s.pc = .dropped) ∧ s.queue.cons = .idle ∧ ∀ n, (s.nodes n).consumer = .away ∧ ∀ i, (s.nodes n).pc i = .idle

/-- What one comes to from the tail of the queue. -/
inductive Leads {κ : Type} (q : Queue κ ν) : Ptr ν → Prop
  | tail : Leads q q.tail
  | next (p p' : Ptr ν) : Leads q p → q.next p = some p' → Leads q p'

/-- Whether the queue has a reference of node `n`. -/
def Shared.queueRef (s : Shared ι ν J) (n : ν) : Bool :=
  (s.nodes n).node.readinessQueue.isSome && decide ((s.life n).releases = 0)

/-- The reference count of node `n` is exact. -/
structure Exact (s : Shared ι ν J) (n : ν) : Prop where
  counted : s.Quiet → (s.nodes n).node.refCount = (s.life n).handles + (s.queueRef n).toNat
  once : (s.life n).releases ≤ 1
  freed : (s.life n).frees = if (s.nodes n).node.refCount = 0 then 1 else 0
  /-- Nor is it freed while a handle is left, or the queue leads to it. -/
  unused : 0 < (s.life n).frees → (s.life n).handles = 0 ∧ s.queue.head ≠ .node n ∧ ¬ Leads s.queue (.node n)
  /-- Once the queue is dropped: of a node that has QUEUED on and that no thread is about
      to enqueue, its reference was released. -/
  drained : s.pc = .dropped → (s.nodes n).node.readinessQueue ≠ none → (s.nodes n).node.state.isQueued = true →
    (∀ i, ((s.nodes n).pc i).holds = false) → (s.life n).releases = 1

/-- When `dequeue_node`, called by the drop, looks behind the end or the sleep marker, the
    link of what took its place there is written. -/
def MarkerLinked (s : Shared ι ν J) (e : SharedEv ι ν J) : Prop :=
  ∀ f, e = .drain f → s.queue.cons = .deqLoad none → (s.queue.tail = .endMarker ∨ s.queue.tail = .sleepMarker) →
    s.queue.next s.queue.tail ≠ none

end Steps

end Sickle.Poll
