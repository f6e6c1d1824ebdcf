/-
  Sickle.Net.EventLoop — `enqueue_job`, and the event loop that runs its callbacks.

  Any number of calls of `enqueue_job`, each with a readiness node of its own, beside the
  nodes of other registrations, and the one thread that runs `run_once` over and over:
  `io_poll`, which is `Poll::poll2`, then `io_process`. The poller and its queue are
  `Sickle.Poll.Sleep`'s and the nodes `Sickle.Poll.Node`'s; they meet as in
  `Sickle.Poll.Compose`. A thread that calls `enqueue_job` twice, or from inside a
  callback, is two callers here.

  The job that a call registers holds clones of the two handles. Of the `Arc` around the
  `Registration` the model has the count: `enqueue_job` has one on its stack until it
  returns, the job has the other until it is dropped, which is when `io_process` clears
  the entry it is in (the node let go of it when it was polled). Whoever drops the last one
  runs `Drop for Registration`. What the callbacks do besides is not looked at, nor what
  other jobs and timers do.
-/

import Sickle.Poll.Alone
import Sickle.Poll.Compose
import Sickle.Poll.Sleep

namespace Sickle.Net

open Function (update)
open Sickle.Lib Sickle.Lib.Chain Sickle.Poll

/-- The threads at work on a node. -/
inductive Actor (κ : Type) where
  /-- The one that calls `enqueue_job`. -/
  | caller
  | loop
  | other (k : κ)
  deriving DecidableEq, Repr

/-- Whose closure a job is: call `n`'s of `enqueue_job`, or another's. -/
abbrev Closure (ν : Type) := Option ν

def OTHER_TOKEN : TokenEntry := ⟨.otherEvent, ⟨0#64⟩⟩

def EDGE4 : PollOpt4 := ⟨PollOpt.edge, edge_within⟩

/-- What `enqueue_job` registers. -/
def jobArgs {ν : Type} (n : ν) : UpdateArgs Unit (Closure ν) := ⟨(), OTHER_TOKEN, READABLE4, EDGE4, some (some n)⟩

/-- Where a call of `enqueue_job` is. `ok` is false once an `unwrap` has panicked. -/
inductive CallPc where
  /-- The node is that of another registration. -/
  | other
  | idle
  | begun
  | signalling
  | signalled
  | registering
  /-- Before it lets go of `r`. -/
  | leaving (ok : Bool)
  /-- Its `r` was the last: before `Drop for Registration`, and in it. -/
  | dropping (ok : Bool)
  | flagging (ok : Bool)
  | done (ok : Bool)
  /-- The first `unwrap` panicked. -/
  | panicked
  deriving DecidableEq, Repr

/-- Where `run_once` is. -/
inductive LoopPc (ν : Type) where
  /-- In `io_poll`, or before it: `poll2` is where the poller is. -/
  | polling
  | processing (i : Nat)
  /-- In `events.clear()`, which drops one entry after the other. -/
  | clearing
  /-- The entry's closure had the last `Arc`: before `Drop for Registration`, and in it. -/
  | dropping (n : ν)
  | flagging (n : ν)
  deriving DecidableEq, Repr

/-- `arcs` is the count of each call's `Arc<Registration>`. `invoked` is a record only: how
    often its callback ran. -/
structure EventLoop (κ ν : Type) where
  poller : Poller (Actor κ × ν) ν
  nodes : ν → NodeSt (Actor κ) Unit (Closure ν)
  calls : ν → CallPc
  arcs : ν → Nat
  pc : LoopPc ν
  dst : Events (Closure ν)
  invoked : ν → Nat

inductive LoopEv (κ ν : Type) where
  | enqueueJob (n : ν)
  | node (n : ν) (e : NodeEv (Actor κ) Unit (Closure ν))
  | both (n : ν) (e : NodeEv (Actor κ) Unit (Closure ν)) (f : Ev (Actor κ × ν) ν)
  | poll (e : PollEv (Actor κ × ν) ν)
  | letGo (n : ν)
  | process (e : JobEntry (Option (Closure ν)))
  | processed
  | dropEntry (e : JobEntry (Option (Closure ν)))
  | cleared

section Steps

variable {κ ν : Type}

/-- Not the closure of a call. -/
def Plain (job : Option (Closure ν)) : Prop := ∀ n, job ≠ some (some n)

/-- Neither the call nor the return of an operation. -/
def InCall (e : NodeEv (Actor κ) Unit (Closure ν)) : Prop :=
  match e with
  | .called _ _ | .returned _ _ | .dropped _ => False
  | _ => True

/-- What the call and the loop do with node `n`, each in its turn. -/
inductive Takes (n : ν) : CallPc → LoopPc ν → NodeEv (Actor κ) Unit (Closure ν) → CallPc → LoopPc ν → Prop
  | signal (l : LoopPc ν) : Takes n .begun l (.called .caller (.setReadiness READABLE4)) .signalling l
  | signalled (l : LoopPc ν) (ok : Bool) :
      Takes n .signalling l (.returned .caller ok) (if ok then .signalled else .panicked) l
  | register (l : LoopPc ν) : Takes n .signalled l (.called .caller (.update (jobArgs n))) .registering l
  | registered (l : LoopPc ν) (ok : Bool) : Takes n .registering l (.returned .caller ok) (.leaving ok) l
  | drop (l : LoopPc ν) (ok : Bool) : Takes n (.dropping ok) l (.dropped .caller) (.flagging ok) l
  | dropped (l : LoopPc ν) (ok woken : Bool) : Takes n (.flagging ok) l (.returned .caller woken) (.done ok) l
  | loopDrop (c : CallPc) : Takes n c (.dropping n) (.dropped .loop) c (.flagging n)
  | loopDropped (c : CallPc) (woken : Bool) : Takes n c (.flagging n) (.returned .loop woken) c .clearing
  | inCall (c : CallPc) (l : LoopPc ν) (e : NodeEv (Actor κ) Unit (Closure ν)) : InCall e → Takes n c l e c l
  | other (l : LoopPc ν) (e : NodeEv (Actor κ) Unit (Closure ν)) :
      (∀ i a, e = .called i (.update a) → Plain a.job) → Takes n .other l e .other l

/-- `push_event`, if the step of the node is that. -/
def taking (dst : Events (Closure ν)) (e : NodeEv (Actor κ) Unit (Closure ν)) : Events (Closure ν) :=
  match e with
  | .event x => dst.pushEvent ⟨x.ready, x.tokenEntry⟩ x.job
  | _ => dst

/-- A step of the poller that no node has a part in. -/
def PollApart (e : PollEv (Actor κ × ν) ν) : Prop :=
  match e with
  | .queue f => f.Apart
  | _ => True

/-- The room that the poller counts on is what the destination has. -/
def Agrees (dst : Events (Closure ν)) (pc : PollPc ν) : Prop :=
  match pc with
  | .cleanup room | .looping room _ | .dequeuing room _ => dst.len + room = dst.capacity
  | .clearing => dst.len = dst.capacity
  | _ => True

/-- `run_once`, after a step of the poller: `io_poll` returns when `poll2` is through. -/
def afterPoll [DecidableEq ν] (l : LoopPc ν) (pc pc' : PollPc ν) : LoopPc ν :=
  if pc ≠ .start ∧ pc' = .start then .processing 0 else l

variable [DecidableEq κ] [DecidableEq ν]

/-- `io_process` on one entry. -/
def invoke (e : JobEntry (Option (Closure ν))) (invoked : ν → Nat) : ν → Nat :=
  match e.tokenEntry.ttype, e.job with
  | .timersEvent, _ => invoked
  | _, some (some n) => update invoked n (invoked n + 1)
  | _, _ => invoked

/-- The `Arc`s once the entry is dropped, and where `clear` is then. -/
def dropArc (e : JobEntry (Option (Closure ν))) (arcs : ν → Nat) : (ν → Nat) × LoopPc ν :=
  match e.job with
  | some (some n) => (update arcs n (arcs n - 1), if arcs n = 1 then .dropping n else .clearing)
  | _ => (arcs, .clearing)

inductive LoopStep (more : Nat) : EventLoop κ ν → LoopEv κ ν → EventLoop κ ν → Prop
  -- enqueue_job: `new2`, the `Arc`s and the job; the rest is `Takes`
  | enqueueJob (s : EventLoop κ ν) (n : ν) : s.calls n = .idle → LoopStep more s (.enqueueJob n)
      { s with calls := update s.calls n .begun, arcs := update s.arcs n 2 }
  | letGo (s : EventLoop κ ν) (n : ν) (ok : Bool) : s.calls n = .leaving ok → LoopStep more s (.letGo n)
      { s with
        calls := update s.calls n (if s.arcs n = 1 then .dropping ok else .done ok)
        arcs := update s.arcs n (s.arcs n - 1) }
  -- a node and its threads, or the poller at work on it
  | node (s : EventLoop κ ν) (n : ν) (e : NodeEv (Actor κ) Unit (Closure ν)) (t : NodeSt (Actor κ) Unit (Closure ν))
      (c : CallPc) (l : LoopPc ν) : NodeStep (s.nodes n) e t → e.Apart → Takes n (s.calls n) s.pc e c l →
      LoopStep more s (.node n e)
        { s with nodes := update s.nodes n t, calls := update s.calls n c, pc := l, dst := taking s.dst e }
  | both (s : EventLoop κ ν) (n : ν) (e : NodeEv (Actor κ) Unit (Closure ν)) (f : Ev (Actor κ × ν) ν)
      (t : NodeSt (Actor κ) Unit (Closure ν)) (p : Poller (Actor κ × ν) ν) : Meets n e f → NodeStep (s.nodes n) e t →
      PollStep more s.poller (.queue f) p → (p.pc ≠ s.poller.pc → s.pc = .polling ∧ Agrees s.dst s.poller.pc) →
      LoopStep more s (.both n e f) { s with poller := p, nodes := update s.nodes n t }
  -- poll2, done with the node before
  | poll (s : EventLoop κ ν) (e : PollEv (Actor κ × ν) ν) (p : Poller (Actor κ × ν) ν) : PollStep more s.poller e p →
      PollApart e → e ≠ .selected →
      (p.pc ≠ s.poller.pc → s.pc = .polling ∧ Agrees s.dst s.poller.pc ∧
        (e ≠ .queue (.answer .enqueued) → ∀ n, (s.nodes n).consumer = .away)) →
      LoopStep more s (.poll e) { s with poller := p, pc := afterPoll s.pc s.poller.pc p.pc }
  | select (s : EventLoop κ ν) (p : Poller (Actor κ × ν) ν) (events : List Event)
      (entries : List (JobEntry (Option (Closure ν)))) : PollStep more s.poller .selected p → s.pc = .polling →
      (∀ n, (s.nodes n).consumer = .away) → (∀ x ∈ entries, Plain x.job) →
      LoopStep more s (.poll .selected) { s with poller := p, dst := { s.dst with events := events, entries := entries } }
  -- io_process
  | process (s : EventLoop κ ν) (i : Nat) (x : JobEntry (Option (Closure ν))) : s.pc = .processing i →
      s.dst.entries[i]? = some x →
      LoopStep more s (.process x) { s with pc := .processing (i + 1), invoked := invoke x s.invoked }
  | processed (s : EventLoop κ ν) (i : Nat) : s.pc = .processing i → s.dst.len ≤ i →
      LoopStep more s .processed { s with pc := .clearing, dst := { s.dst with events := [] } }
  | dropEntry (s : EventLoop κ ν) (x : JobEntry (Option (Closure ν))) (rest : List (JobEntry (Option (Closure ν)))) :
      s.pc = .clearing → s.dst.entries = x :: rest → LoopStep more s (.dropEntry x)
        { s with dst := { s.dst with entries := rest }, arcs := (dropArc x s.arcs).1, pc := (dropArc x s.arcs).2 }
  | cleared (s : EventLoop κ ν) : s.pc = .clearing → s.dst.entries = [] → LoopStep more s .cleared { s with pc := .polling }

/-- Nobody has called `enqueue_job` yet; the nodes of other registrations are new. -/
def EventLoop.Fresh (capacity : Nat) (s : EventLoop κ ν) : Prop :=
  s.poller = ⟨Queue.new (Actor κ × ν) ν, .start, 0, none⟩ ∧ (∀ n, (s.nodes n).Fresh) ∧
    (∀ n, s.calls n = .other ∨ (s.calls n = .idle ∧ (s.nodes n).node = .unregistered)) ∧ (∀ n, s.arcs n = 0) ∧
    s.pc = .polling ∧ s.dst = ⟨[], [], capacity⟩ ∧ ∀ n, s.invoked n = 0

/-- An event loop whose awakener's pipe holds `more + 1` bytes, and whose `Events` have room
    for `capacity` of them. -/
def eventLoop (κ ν : Type) [DecidableEq κ] [DecidableEq ν] (more capacity : Nat) : Lts (EventLoop κ ν) (LoopEv κ ν) :=
  ⟨EventLoop.Fresh capacity, LoopStep more⟩

/-! ## Where a call's job is -/

/-- The entry that the poll makes of call `n`'s node. -/
def jobEntry (n : ν) : JobEntry (Option (Closure ν)) := ⟨OTHER_TOKEN, some (some n), Ready.empty⟩

/-- The poll in progress has the node in hand, or its entry in the destination. -/
def HeldByPoll (s : EventLoop κ ν) (n : ν) : Prop :=
  s.pc = .polling ∧ ((s.nodes n).consumer ≠ .away ∨ jobEntry n ∈ s.dst.entries)

/-- `io_process` has still to come to its entry. -/
def InBatch (s : EventLoop κ ν) (n : ν) : Prop := ∃ i, s.pc = .processing i ∧ jobEntry n ∈ s.dst.entries.drop i

/-- The chain from the queue's tail to its head has the node; of its links only such may be
    missing as a thread is about to write. -/
def InQueue {ι : Type} (q : Queue ι ν) (n : ν) : Prop :=
  ∃ rest, rest.getLastD q.tail = q.head ∧ (q.tail :: rest).Nodup ∧ Linked q.next (Pend q.flight) (q.tail :: rest) ∧
    .node n ∈ q.tail :: rest

/-- The node is in the queue, and a loop blocked in `select` has a byte in its pipe, or is
    to be woken by the thread that replaced the sleep marker. -/
def Awaits (s : EventLoop κ ν) (n : ν) : Prop :=
  InQueue s.poller.queue n ∧ (s.poller.pc = .select true →
    0 < s.poller.bytes ∨ ∃ i, s.poller.replacer = some i ∧ Waking s.poller.queue i)

end Steps

end Sickle.Net
