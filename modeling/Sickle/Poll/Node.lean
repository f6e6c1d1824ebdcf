/-
  Sickle.Poll.Node — one readiness node (`ReadinessNode`), the threads that signal and
  update its registration, and the poller.

  Any number of threads (indexed by `ι`) call `set_readiness`, `update` (which `register`,
  `reregister` and `deregister` are) and drop the `Registration`; the one consumer of the
  node's queue runs the body of `ReadinessQueue::poll` on it. Every atomic operation on
  the node, and every access to a token slot or the job, is one step; the memory is
  sequentially consistent, and what a thread does between two of them is part of the step
  before.

  Of the queue this node sees how often it is in it (`linked`), and of `enqueue_node` its
  call and the store that links the node. The consumer may be handed the node whenever it
  is linked: that each enqueue is handed out once, and not before `enqueue_node` has linked
  it, is the queue's part (`queue_order`, `data_linked`), on the condition that a node is
  enqueued only while it is not in the queue, which is this side's part;
  `Sickle.Poll.Compose` has the two together. The queue is open. Handles are neither cloned
  nor dropped: of `ref_count` the model has the queue's own reference.
-/

import Mathlib.Logic.Function.Basic
import Sickle.Lib.Run
import Sickle.Poll.State

namespace Sickle.Poll

open Function (update)
open Sickle.Lib Sickle.Lib.Word

/-- Readiness, or an interest, within its four bits. -/
abbrev Ready4 := { r : Ready // Within r.bits MASK_4 }

/-- Options within their four bits. -/
abbrev PollOpt4 := { o : PollOpt // Within o.bits MASK_4 }

theorem noReady_within : Within Ready.empty.bits MASK_4 := by decide

theorem noOpt_within : Within PollOpt.empty.bits MASK_4 := by decide

theorem readable_within : Within Ready.readable.bits MASK_4 := by decide

theorem edge_within : Within PollOpt.edge.bits MASK_4 := by decide

/-- The node, less its link. `κ` is the type of queues, and a job is `none` where it is the
    closure that does nothing. -/
structure ReadinessNode (κ J : Type) where
  state : ReadinessState
  token0 : TokenEntry
  token1 : TokenEntry
  token2 : TokenEntry
  updateLock : Bool
  readinessQueue : Option κ
  refCount : Nat
  job : Option J

def NO_TOKEN : TokenEntry := ⟨.tokenEvent, ⟨0#64⟩⟩

namespace ReadinessNode

variable {κ J : Type}

def new (queue : Option κ) (token : TokenEntry) (interest : Ready4) (opt : PollOpt4) (refCount : Nat) :
    ReadinessNode κ J where
  state := .new interest opt
  token0 := token
  token1 := NO_TOKEN
  token2 := NO_TOKEN
  updateLock := false
  readinessQueue := queue
  refCount := refCount
  job := none

/-- `Registration::new`. -/
def registered (queue : κ) (token : TokenEntry) (interest : Ready4) (opt : PollOpt4) : ReadinessNode κ J :=
  new (some queue) token interest opt 3

/-- `Registration::new2`. -/
def unregistered : ReadinessNode κ J := new none NO_TOKEN ⟨Ready.empty, noReady_within⟩ ⟨PollOpt.empty, noOpt_within⟩ 2

/-- `none` where the source is `unreachable!()`. -/
def token (n : ReadinessNode κ J) (pos : BitVec 64) : Option TokenEntry :=
  match pos.toNat with
  | 0 => some n.token0
  | 1 => some n.token1
  | 2 => some n.token2
  | _ => none

def setToken (n : ReadinessNode κ J) (pos : BitVec 64) (token : TokenEntry) : ReadinessNode κ J :=
  match pos.toNat with
  | 0 => { n with token0 := token }
  | 1 => { n with token1 := token }
  | 2 => { n with token2 := token }
  | _ => n

theorem token_some (n : ReadinessNode κ J) {pos : BitVec 64} (h : pos.toNat ≤ 2) : ∃ t, n.token pos = some t := by
  unfold token
  have hcases : pos.toNat = 0 ∨ pos.toNat = 1 ∨ pos.toNat = 2 := by omega
  rcases hcases with e | e | e <;> rw [e] <;> exact ⟨_, rfl⟩

/-- Nothing but a slot is written. -/
theorem setToken_frame (n : ReadinessNode κ J) (pos : BitVec 64) (t : TokenEntry) :
    (n.setToken pos t).state = n.state ∧ (n.setToken pos t).updateLock = n.updateLock ∧
      (n.setToken pos t).readinessQueue = n.readinessQueue ∧ (n.setToken pos t).refCount = n.refCount ∧
      (n.setToken pos t).job = n.job := by
  unfold setToken
  split <;> exact ⟨rfl, rfl, rfl, rfl, rfl⟩

end ReadinessNode

/-- The arguments of `update`; `queue` is the one of its `poll`. -/
structure UpdateArgs (κ J : Type) where
  queue : κ
  token : TokenEntry
  interest : Ready4
  opt : PollOpt4
  job : Option J

/-- Where a thread is. -/
inductive Pc (κ J : Type) where
  | idle
  | setLoad (ready : Ready4)
  | setSwap (ready : Ready4) (state : ReadinessState)
  /-- In `ReadinessNode::enqueue_with_wakeup`, before the load of `readiness_queue`. -/
  | loadQueue
  /-- In `enqueue_node`, before the store that links the node. -/
  | enqueue
  /-- In `enqueue_node_with_wakeup`, the node being linked. -/
  | wakeup
  | updQueue (a : UpdateArgs κ J)
  | updAssociate (a : UpdateArgs κ J)
  | updRef (a : UpdateArgs κ J)
  | updLock (a : UpdateArgs κ J)
  | updLoad (a : UpdateArgs κ J)
  | updToken (a : UpdateArgs κ J) (state : ReadinessState)
  | updSlot (a : UpdateArgs κ J) (state : ReadinessState) (pos : BitVec 64)
  | updSwap (a : UpdateArgs κ J) (state : ReadinessState) (pos : BitVec 64)
  /-- After the transition; `turned` if it turned QUEUED on. -/
  | updUnlock (a : UpdateArgs κ J) (turned : Bool)
  | updJob (a : UpdateArgs κ J)
  | ret (ok : Bool)
  | panicked

/-- Where the consumer is with the node. -/
inductive ConsumerPc where
  | away
  | load
  | swap (state : ReadinessState)
  | release
  /-- Before the call of `enqueue_node`. -/
  | putBack (next : ReadinessState) (readiness : Ready)
  /-- In `enqueue_node`, before the store that links the node. -/
  | requeue (next : ReadinessState) (readiness : Ready)
  | token (next : ReadinessState) (readiness : Ready)
  | push (readiness : Ready) (token : TokenEntry)
  | resetJob
  | panicked
  deriving DecidableEq, Repr

/-- `flagged` and `released` are records only: the `Registration` was dropped, and the
    queue's reference was released. -/
structure NodeSt (ι κ J : Type) where
  node : ReadinessNode κ J
  pc : ι → Pc κ J
  consumer : ConsumerPc
  linked : Nat
  flagged : Bool
  released : Bool

inductive Call (κ J : Type) where
  | setReadiness (ready : Ready4)
  | update (a : UpdateArgs κ J)

/-- `wrote` and `observed` carry the state that was stored, and the state that the consumer
    found; in `enters` and `enqueued` the consumer is `none`. -/
inductive NodeEv (ι κ J : Type) where
  | called (i : ι) (c : Call κ J)
  | returned (i : ι) (ok : Bool)
  | wrote (i : ι) (state : ReadinessState)
  | dropped (i : ι)
  | enters (a : Option ι)
  | enqueued (a : Option ι)
  | woken (i : ι)
  | dequeued
  | observed (state : ReadinessState)
  | event (e : JobEntry (Option J))
  | released
  | quiet

/-- The top of `set_readiness`'s loop. -/
def setTop {κ J : Type} (ready : Ready4) (state : ReadinessState) : Pc κ J :=
  if state.isDropped then .ret true else .setSwap ready state

/-- `!state.is_queued() && next.is_queued()` -/
def turnedOn (state next : ReadinessState) : Bool := !state.isQueued && next.isQueued

def setDone {κ J : Type} (state next : ReadinessState) : Pc κ J :=
  if turnedOn state next then .loadQueue else .ret true

/-- `update` with the queue it found in the node. -/
def checkQueue {κ J : Type} [DecidableEq κ] (a : UpdateArgs κ J) (actual : κ) : Pc κ J :=
  if actual = a.queue then .updLock a else .ret false

/-- `update`, having read the current token: where the new one goes. -/
def placeToken {κ J : Type} (a : UpdateArgs κ J) (state : ReadinessState) (current : Option TokenEntry) : Pc κ J :=
  match current with
  | none => .panicked
  | some t =>
    if a.token = t then .updSwap a state state.tokenWritePos
    else match state.nextTokenPos with
      | none => .panicked
      | some pos => .updSlot a state pos

/-- Wherever the token goes. -/
theorem placeToken_meets {κ J : Type} {P : Pc κ J → Prop} {a : UpdateArgs κ J} {state : ReadinessState} {current : Option TokenEntry}
    (panicked : P .panicked) (swap : P (.updSwap a state state.tokenWritePos))
    (slot : ∀ pos, state.nextTokenPos = some pos → P (.updSlot a state pos)) : P (placeToken a state current) := by
  unfold placeToken
  split
  next => exact panicked
  next =>
    split
    next => exact swap
    next =>
      split
      next => exact panicked
      next pos hpos => exact slot pos hpos

def updDone {κ J : Type} (a : UpdateArgs κ J) (turned : Bool) : Pc κ J := if turned then .updJob a else .ret true

/-- The consumer, the node's turn in the queue being over. -/
def emit (next : ReadinessState) (readiness : Ready) : ConsumerPc :=
  if readiness.isEmpty then .away else .token next readiness

/-- The consumer after the loop on the state. -/
def settle (next : ReadinessState) (readiness : Ready) : ConsumerPc :=
  if next.isQueued then .putBack next readiness else emit next readiness

/-- The loop on the state, up to the compare-exchange. -/
def pollTop (state : ReadinessState) : ConsumerPc :=
  if state.isDropped then .release
  else if state = state.pollNext then settle state.pollNext state.effectiveReadiness
  else .swap state

/-- Inside `update`, with the `Registration` borrowed. -/
def Pc.updating {κ J : Type} (p : Pc κ J) : Bool :=
  match p with
  | .updQueue _ | .updAssociate _ | .updRef _ | .updLock _ | .updLoad _ | .updToken _ _ | .updSlot _ _ _
  | .updSwap _ _ _ | .updUnlock _ _ | .updJob _ => true
  | _ => false

section Steps

variable {ι κ J : Type} [DecidableEq ι] [DecidableEq κ]

inductive NodeStep : NodeSt ι κ J → NodeEv ι κ J → NodeSt ι κ J → Prop
  -- set_readiness
  | setCall (s : NodeSt ι κ J) (i : ι) (ready : Ready4) : s.pc i = .idle →
      NodeStep s (.called i (.setReadiness ready)) { s with pc := update s.pc i (.setLoad ready) }
  | setLoad (s : NodeSt ι κ J) (i : ι) (ready : Ready4) : s.pc i = .setLoad ready →
      NodeStep s .quiet { s with pc := update s.pc i (setTop ready s.node.state) }
  | setSwap (s : NodeSt ι κ J) (i : ι) (ready : Ready4) (state : ReadinessState) : s.pc i = .setSwap ready state →
      s.node.state = state → NodeStep s (.wrote i (state.setReadinessNext ready)) { s with
        node.state := state.setReadinessNext ready
        pc := update s.pc i (setDone state (state.setReadinessNext ready)) }
  | setRetry (s : NodeSt ι κ J) (i : ι) (ready : Ready4) (state : ReadinessState) : s.pc i = .setSwap ready state →
      s.node.state ≠ state → NodeStep s .quiet { s with pc := update s.pc i (setTop ready s.node.state) }
  -- enqueue_with_wakeup, enqueue_node
  | loadNull (s : NodeSt ι κ J) (i : ι) : s.pc i = .loadQueue → s.node.readinessQueue = none →
      NodeStep s .quiet { s with pc := update s.pc i (.ret true) }
  | loadQueue (s : NodeSt ι κ J) (i : ι) (q : κ) : s.pc i = .loadQueue → s.node.readinessQueue = some q →
      NodeStep s (.enters (some i)) { s with pc := update s.pc i .enqueue }
  | link (s : NodeSt ι κ J) (i : ι) : s.pc i = .enqueue →
      NodeStep s (.enqueued (some i)) { s with linked := s.linked + 1, pc := update s.pc i .wakeup }
  | wakeup (s : NodeSt ι κ J) (i : ι) (ok : Bool) : s.pc i = .wakeup →
      NodeStep s (.woken i) { s with pc := update s.pc i (.ret ok) }
  | returned (s : NodeSt ι κ J) (i : ι) (ok : Bool) : s.pc i = .ret ok →
      NodeStep s (.returned i ok) { s with pc := update s.pc i .idle }
  -- update
  | updCall (s : NodeSt ι κ J) (i : ι) (a : UpdateArgs κ J) : s.pc i = .idle → s.flagged = false →
      NodeStep s (.called i (.update a)) { s with pc := update s.pc i (.updQueue a) }
  | updNull (s : NodeSt ι κ J) (i : ι) (a : UpdateArgs κ J) : s.pc i = .updQueue a → s.node.readinessQueue = none →
      NodeStep s .quiet { s with pc := update s.pc i (.updAssociate a) }
  | updQueue (s : NodeSt ι κ J) (i : ι) (a : UpdateArgs κ J) (q : κ) : s.pc i = .updQueue a →
      s.node.readinessQueue = some q → NodeStep s .quiet { s with pc := update s.pc i (checkQueue a q) }
  | updAssociate (s : NodeSt ι κ J) (i : ι) (a : UpdateArgs κ J) : s.pc i = .updAssociate a →
      s.node.readinessQueue = none →
      NodeStep s .quiet { s with node.readinessQueue := some a.queue, pc := update s.pc i (.updRef a) }
  | updTaken (s : NodeSt ι κ J) (i : ι) (a : UpdateArgs κ J) (q : κ) : s.pc i = .updAssociate a →
      s.node.readinessQueue = some q → NodeStep s .quiet { s with pc := update s.pc i (checkQueue a q) }
  | updRef (s : NodeSt ι κ J) (i : ι) (a : UpdateArgs κ J) : s.pc i = .updRef a →
      NodeStep s .quiet { s with node.refCount := s.node.refCount + 1, pc := update s.pc i (.updLock a) }
  | updLock (s : NodeSt ι κ J) (i : ι) (a : UpdateArgs κ J) : s.pc i = .updLock a → s.node.updateLock = false →
      NodeStep s .quiet { s with node.updateLock := true, pc := update s.pc i (.updLoad a) }
  | updLocked (s : NodeSt ι κ J) (i : ι) (a : UpdateArgs κ J) : s.pc i = .updLock a → s.node.updateLock = true →
      NodeStep s .quiet { s with pc := update s.pc i (.ret true) }
  | updLoad (s : NodeSt ι κ J) (i : ι) (a : UpdateArgs κ J) : s.pc i = .updLoad a →
      NodeStep s .quiet { s with pc := update s.pc i (.updToken a s.node.state) }
  | updToken (s : NodeSt ι κ J) (i : ι) (a : UpdateArgs κ J) (state : ReadinessState) : s.pc i = .updToken a state →
      NodeStep s .quiet { s with pc := update s.pc i (placeToken a state (s.node.token state.tokenWritePos)) }
  | updSlot (s : NodeSt ι κ J) (i : ι) (a : UpdateArgs κ J) (state : ReadinessState) (pos : BitVec 64) :
      s.pc i = .updSlot a state pos → NodeStep s .quiet
        { s with node := s.node.setToken pos a.token, pc := update s.pc i (.updSwap a state pos) }
  | updSwap (s : NodeSt ι κ J) (i : ι) (a : UpdateArgs κ J) (state : ReadinessState) (pos : BitVec 64) :
      s.pc i = .updSwap a state pos → s.node.state = state →
      NodeStep s (.wrote i (state.updateNext pos a.interest a.opt)) { s with
        node.state := state.updateNext pos a.interest a.opt
        pc := update s.pc i (.updUnlock a (turnedOn state (state.updateNext pos a.interest a.opt))) }
  | updRetry (s : NodeSt ι κ J) (i : ι) (a : UpdateArgs κ J) (state : ReadinessState) (pos : BitVec 64) :
      s.pc i = .updSwap a state pos → s.node.state ≠ state →
      NodeStep s .quiet { s with pc := update s.pc i (.updSwap a s.node.state pos) }
  | updUnlock (s : NodeSt ι κ J) (i : ι) (a : UpdateArgs κ J) (turned : Bool) : s.pc i = .updUnlock a turned →
      NodeStep s .quiet { s with node.updateLock := false, pc := update s.pc i (updDone a turned) }
  | updJob (s : NodeSt ι κ J) (i : ι) (a : UpdateArgs κ J) : s.pc i = .updJob a →
      NodeStep s (.enters (some i)) { s with node.job := a.job, pc := update s.pc i .enqueue }
  /-- `Drop for Registration`: it is owned, so no `update` is under way and none follows. -/
  | drop (s : NodeSt ι κ J) (i : ι) : s.pc i = .idle → s.flagged = false → (∀ j, (s.pc j).updating = false) →
      NodeStep s (.dropped i) { s with
        node.state := s.node.state.flagged
        flagged := true
        pc := update s.pc i (if s.node.state.isQueued then .ret true else .loadQueue) }
  -- ReadinessQueue::poll
  | dequeue (s : NodeSt ι κ J) : s.consumer = .away → 0 < s.linked →
      NodeStep s .dequeued { s with linked := s.linked - 1, consumer := .load }
  | pollLoad (s : NodeSt ι κ J) : s.consumer = .load →
      NodeStep s (.observed s.node.state) { s with consumer := pollTop s.node.state }
  | pollSwap (s : NodeSt ι κ J) (state : ReadinessState) : s.consumer = .swap state → s.node.state = state →
      NodeStep s (.observed state) { s with
        node.state := state.pollNext
        consumer := settle state.pollNext state.effectiveReadiness }
  | pollRetry (s : NodeSt ι κ J) (state : ReadinessState) : s.consumer = .swap state → s.node.state ≠ state →
      NodeStep s (.observed s.node.state) { s with consumer := pollTop s.node.state }
  | release (s : NodeSt ι κ J) : s.consumer = .release →
      NodeStep s .released { s with node.refCount := s.node.refCount - 1, released := true, consumer := .away }
  | putBack (s : NodeSt ι κ J) (next : ReadinessState) (readiness : Ready) : s.consumer = .putBack next readiness →
      NodeStep s (.enters none) { s with consumer := .requeue next readiness }
  | requeueLink (s : NodeSt ι κ J) (next : ReadinessState) (readiness : Ready) : s.consumer = .requeue next readiness →
      NodeStep s (.enqueued none) { s with linked := s.linked + 1, consumer := emit next readiness }
  | token (s : NodeSt ι κ J) (next : ReadinessState) (readiness : Ready) (t : TokenEntry) :
      s.consumer = .token next readiness → s.node.token next.tokenReadPos = some t →
      NodeStep s .quiet { s with consumer := .push readiness t }
  | noToken (s : NodeSt ι κ J) (next : ReadinessState) (readiness : Ready) : s.consumer = .token next readiness →
      s.node.token next.tokenReadPos = none → NodeStep s .quiet { s with consumer := .panicked }
  | push (s : NodeSt ι κ J) (readiness : Ready) (t : TokenEntry) : s.consumer = .push readiness t →
      NodeStep s (.event ⟨t, s.node.job, readiness⟩) { s with consumer := .resetJob }
  | resetJob (s : NodeSt ι κ J) : s.consumer = .resetJob →
      NodeStep s .quiet { s with node.job := none, consumer := .away }

/-- Before any call: the node of `Registration::new` or of `Registration::new2`. -/
def NodeSt.Fresh (s : NodeSt ι κ J) : Prop :=
  ∃ n, s = ⟨n, fun _ => .idle, .away, 0, false, false⟩ ∧
    (n = .unregistered ∨ ∃ queue token interest opt, n = .registered queue token interest opt)

def node (ι κ J : Type) [DecidableEq ι] [DecidableEq κ] : Lts (NodeSt ι κ J) (NodeEv ι κ J) := ⟨NodeSt.Fresh, NodeStep⟩

end Steps

/-! ## Who has the node's place in the queue -/

inductive Party (ι : Type) where
  | queue
  | consumer
  | thread (i : ι)
  deriving DecidableEq, Repr

/-- The thread turned QUEUED on and has not finished `enqueue_node`. -/
def Pc.holds {κ J : Type} (p : Pc κ J) : Bool :=
  match p with
  | .loadQueue => true
  | .enqueue => true
  | .updUnlock _ turned => turned
  | .updJob _ => true
  | _ => false

/-- Between `dequeue_node` and the transition that takes the node off, its release, or the
    end of `enqueue_node`. -/
def ConsumerPc.holds (p : ConsumerPc) : Bool :=
  match p with
  | .load | .swap _ | .release | .putBack _ _ | .requeue _ _ => true
  | _ => false

variable {ι κ J : Type}

def Owns (s : NodeSt ι κ J) (o : Party ι) : Prop :=
  match o with
  | .queue => 0 < s.linked
  | .consumer => s.consumer.holds = true
  | .thread i => (s.pc i).holds = true

/-- Inside `enqueue_node` with the node. -/
def Enqueuing (s : NodeSt ι κ J) (o : Party ι) : Prop :=
  match o with
  | .queue => False
  | .consumer => ∃ next readiness, s.consumer = .requeue next readiness
  | .thread i => s.pc i = .enqueue

end Sickle.Poll
