/-
  Sickle.Poll.Alone — the readiness queue with one thread at work.

  `enqueue_node`, `clear_sleep_marker`, `dequeue_node` and `ReadinessQueue::poll` as one
  thread runs them that nobody disturbs: on the whole memory of the queue (the links, the
  head and the tail, and every node with its word, tokens, references and job), with every
  compare-exchange succeeding at once. `Sickle.Poll.Queue` has the same functions step by
  step among other threads; what a queue's memory looks like is `Shape`, as there, with
  no link pending.

  - `chained_of_run`: what the threads of `Sickle.Poll.Queue` leave, with none of them
    inside `enqueue_node`, is such a memory.
  - `enqueueNode_spec`: the node is the last of the chain.
  - `dequeueNode_data` / `dequeueNode_until`: `dequeue_node` hands out the first node of
    the chain, wherever the markers are, and nothing when that is the pointer to stop at
    or there is none.

  A node whose last reference is released is freed; its memory is not looked at again.
-/

import Sickle.Poll.Node
import Sickle.Poll.QueueInv

namespace Sickle.Poll

open Function (update)
open Sickle.Lib Sickle.Lib.Chain

/-- `event_imp::Event`. -/
structure Event where
  readiness : Ready
  token : TokenEntry
  deriving DecidableEq, Repr

/-- `sys::Events`. -/
structure Events (J : Type) where
  events : List Event
  entries : List (JobEntry (Option J))
  capacity : Nat

namespace Events

variable {J : Type}

def len (dst : Events J) : Nat := dst.entries.length

def pushEvent (dst : Events J) (event : Event) (job : Option J) : Events J :=
  { dst with events := dst.events ++ [event], entries := dst.entries ++ [⟨event.token, job, Ready.empty⟩] }

end Events

/-- `ReadinessNode::marker`. -/
def ReadinessNode.marker {κ J : Type} : ReadinessNode κ J :=
  .new none NO_TOKEN ⟨Ready.empty, noReady_within⟩ ⟨PollOpt.empty, noOpt_within⟩ 0

structure Memory (ν J : Type) where
  head : Ptr ν
  tail : Ptr ν
  next : Ptr ν → Option (Ptr ν)
  node : Ptr ν → ReadinessNode Unit J

inductive Dequeue (ν : Type) where
  | data (p : Ptr ν)
  | empty
  | inconsistent
  deriving DecidableEq, Repr

/-- Why a call does not return: it reaches `unreachable!()`, or the model's fuel is out. -/
inductive PollFault where
  | unreachable
  | fuel
  deriving DecidableEq, Repr

/-- A call of `poll`: the memory, the destination, the node to stop at, and (a record only)
    the nodes that it was handed. -/
structure PollRun (ν J : Type) where
  mem : Memory ν J
  dst : Events J
  untilPtr : Option (Ptr ν)
  visited : List (Ptr ν)

section Functions

variable {ν J : Type} [DecidableEq ν]

namespace Memory

/-- `ReadinessQueue::new`, beside any nodes. -/
def new (node : ν → ReadinessNode Unit J) : Memory ν J where
  head := .endMarker
  tail := .endMarker
  next _ := none
  node p := match p with
    | .node n => node n
    | _ => .marker

def setNode (m : Memory ν J) (p : Ptr ν) (n : ReadinessNode Unit J) : Memory ν J := { m with node := update m.node p n }

/-- `release_node`. -/
def releaseNode (m : Memory ν J) (p : Ptr ν) : Memory ν J :=
  m.setNode p { m.node p with refCount := (m.node p).refCount - 1 }

def enqueueNode (m : Memory ν J) (p : Ptr ν) : Memory ν J × Bool :=
  let m := { m with next := update m.next p none }
  let prev := m.head
  if prev = .closedMarker then (if p ≠ .endMarker then m.releaseNode p else m, false)
  else ({ m with head := p, next := update m.next prev (some p) }, decide (prev = .sleepMarker))

def clearSleepMarker (m : Memory ν J) : Memory ν J :=
  if m.tail ≠ .sleepMarker then m
  else
    let m := { m with next := update m.next .endMarker none }
    if m.head = .sleepMarker then { m with head := .endMarker, tail := .endMarker } else m

/-- `dequeue_node` from where the tail is not a marker any more. -/
def dequeueTail (m : Memory ν J) (untilPtr : Option (Ptr ν)) : Memory ν J × Dequeue ν :=
  if untilPtr = some m.tail then (m, .empty)
  else match m.next m.tail with
    | some next => ({ m with tail := next }, .data m.tail)
    | none =>
      if m.head ≠ m.tail then (m, .inconsistent)
      else
        let m := (m.enqueueNode .endMarker).1
        match m.next m.tail with
        | some next => ({ m with tail := next }, .data m.tail)
        | none => (m, .inconsistent)

def dequeueNode (m : Memory ν J) (untilPtr : Option (Ptr ν)) : Memory ν J × Dequeue ν :=
  if m.tail.isMarker then
    match m.next m.tail with
    | none => (m.clearSleepMarker, .empty)
    | some next => { m with tail := next }.dequeueTail untilPtr
  else m.dequeueTail untilPtr

end Memory

namespace PollRun

/-- The compare-exchange of the node's word. -/
def store (s : PollRun ν J) (p : Ptr ν) (next : ReadinessState) : PollRun ν J :=
  { s with mem := s.mem.setNode p { s.mem.node p with state := next } }

/-- `if next.is_queued() { .. }` -/
def putBack (s : PollRun ν J) (p : Ptr ν) : PollRun ν J :=
  { s with untilPtr := some (s.untilPtr.getD p), mem := (s.mem.enqueueNode p).1 }

/-- `if !readiness.is_empty() { .. }` -/
def give (s : PollRun ν J) (p : Ptr ν) (readiness : Ready) (pos : BitVec 64) : Except PollFault (PollRun ν J) :=
  if readiness.isEmpty then .ok s
  else match (s.mem.node p).token pos with
    | none => .error .unreachable
    | some token => .ok { s with
        dst := s.dst.pushEvent ⟨readiness, token⟩ (s.mem.node p).job
        mem := s.mem.setNode p { s.mem.node p with job := none } }

/-- The loop of `poll` on a node that it was handed. -/
def pollNode (s : PollRun ν J) (p : Ptr ν) : Except PollFault (PollRun ν J) :=
  let state := (s.mem.node p).state
  if state.isDropped then .ok { s with mem := s.mem.releaseNode p }
  else
    let next := state.pollNext
    let s := s.store p next
    let s := if next.isQueued then s.putBack p else s
    s.give p state.effectiveReadiness next.tokenReadPos

def loop : Nat → PollRun ν J → Except PollFault (PollRun ν J)
  | 0, _ => .error .fuel
  | fuel + 1, s =>
    if s.dst.len < s.dst.capacity then
      match s.mem.dequeueNode s.untilPtr with
      | (mem, .data p) => do
        let s ← { s with mem := mem, visited := s.visited ++ [p] }.pollNode p
        loop fuel s
      | (mem, _) => .ok { s with mem := mem }
    else .ok s

end PollRun

/-- `ReadinessQueue::poll`. -/
def Memory.poll (fuel : Nat) (m : Memory ν J) (dst : Events J) : Except PollFault (PollRun ν J) :=
  let m := if dst.len = dst.capacity then m.clearSleepMarker else m
  PollRun.loop fuel ⟨m, dst, none, []⟩

end Functions

/-! ## The chain -/

/-- Nobody is inside `enqueue_node`. -/
def still {ν : Type} : Agent Empty → Option (Enq ν) := fun _ => none

theorem not_pend {ν : Type} (a c : Ptr ν) : ¬ Pend (still : Agent Empty → Option (Enq ν)) a c := by
  intro h
  obtain ⟨g, hg⟩ := h
  cases hg

variable {ν J : Type}

/-- The chain from the tail on is `m.tail :: rest`, all linked. -/
def Memory.Chained (m : Memory ν J) (rest : List (Ptr ν)) : Prop := Shape m.head m.tail m.next still rest

/-- The nodes in the queue, first to be handed out first. -/
def Memory.queued (m : Memory ν J) (rest : List (Ptr ν)) : List ν := nodes (m.tail :: rest)

theorem mem_nodes {xs : List (Ptr ν)} {n : ν} : n ∈ nodes xs ↔ .node n ∈ xs := by
  unfold nodes
  rw [List.mem_filterMap]
  constructor
  · intro h
    obtain ⟨p, hp, hn⟩ := h
    cases p with
    | node m =>
      cases hn
      exact hp
    | endMarker => cases hn
    | sleepMarker => cases hn
    | closedMarker => cases hn
  · intro h
    exact ⟨_, h, rfl⟩

theorem nodes_nodup {xs : List (Ptr ν)} (h : xs.Nodup) : (nodes xs).Nodup := by
  refine h.filterMap fun a b n ha hb => ?_
  cases a <;> cases b <;> cases ha <;> cases hb
  rfl

/-- The queue that any run of the threads leads to, once nobody is inside `enqueue_node`. -/
theorem chained_of_run {ι : Type} [DecidableEq ι] [DecidableEq ν] {τ : List (Ev ι ν)} {q : Queue ι ν} (h : Run (queue ι ν) τ q)
    (hq : ∀ g, q.flight g = none) (node : Ptr ν → ReadinessNode Unit J) :
    ∃ rest, (⟨q.head, q.tail, q.next, node⟩ : Memory ν J).Chained rest := by
  obtain ⟨rest, hinv, -⟩ := run_inv h
  obtain ⟨hlast, hnodup, hlinked, hsleep, hclosed⟩ := hinv.shape
  refine ⟨rest, hlast, hnodup, hlinked.congr (fun _ _ => rfl) fun a _ c => ⟨fun hp => absurd hp (not_pend a c), fun hp => ?_⟩, hsleep, hclosed⟩
  obtain ⟨g, hg⟩ := hp
  rw [hq] at hg
  cases hg

namespace Memory

theorem new_chained [DecidableEq ν] (node : ν → ReadinessNode Unit J) : (Memory.new node).Chained [] :=
  ⟨rfl, List.nodup_singleton _, ⟨rfl, not_pend _⟩, (fun h => by cases List.mem_singleton.mp h),
    (fun h => by cases List.mem_singleton.mp h)⟩

section Moves

variable {m : Memory ν J} {rest : List (Ptr ν)}

theorem Chained.queued_nodup (h : m.Chained rest) : (m.queued rest).Nodup := nodes_nodup h.nodup

/-- A tail that leads nowhere is the head. -/
theorem Chained.next_cons {b : Ptr ν} {ys : List (Ptr ν)} (h : m.Chained (b :: ys)) : m.next m.tail = some b := by
  rcases h.linked.1 with ⟨hb, -⟩ | ⟨-, hp⟩
  · exact hb
  · exact absurd ((hp b).mpr rfl) (not_pend _ _)

/-- A tail that leads nowhere is the head. -/
theorem Chained.end (h : m.Chained rest) (hn : m.next m.tail = none) : rest = [] ∧ m.head = m.tail := by
  cases rest with
  | nil => exact ⟨rfl, h.last.symm⟩
  | cons b ys =>
    rw [h.next_cons] at hn
    cases hn

/-- The tail moves to what it leads to. -/
theorem Chained.pop {b : Ptr ν} (h : m.Chained rest) (hb : m.next m.tail = some b) :
    ∃ ys, rest = b :: ys ∧ ({ m with tail := b } : Memory ν J).Chained ys := Shape.pop h hb

/-- What is not in the chain may get any link and any node. -/
theorem Chained.congr {m' : Memory ν J} (h : m.Chained rest) (hh : m'.head = m.head) (ht : m'.tail = m.tail)
    (hn : ∀ x ∈ m.tail :: rest, m'.next x = m.next x) : m'.Chained rest := by
  unfold Chained
  rw [hh, ht]
  exact Shape.congr h hn fun _ _ => Iff.rfl

theorem Chained.not_closed (h : m.Chained rest) : m.head ≠ .closedMarker := fun e => h.notClosed (e ▸ h.head_mem)

variable [DecidableEq ν]

/-- A node that is enqueued is the last of the chain; the end marker may be only behind a
    node. -/
theorem enqueueNode_spec (h : m.Chained rest) {p : Ptr ν} (hp : p ∉ m.tail :: rest)
    (hkind : (∃ n, p = .node n) ∨ (p = .endMarker ∧ m.tail.isMarker = false)) :
    (m.enqueueNode p).1.Chained (rest ++ [p]) ∧ (m.enqueueNode p).1.tail = m.tail ∧ (m.enqueueNode p).1.node = m.node := by
  have henq : (m.enqueueNode p).1 = { m with head := p, next := update (update m.next p none) m.head (some p) } := by
    unfold enqueueNode
    simp only [if_neg h.not_closed]
  rw [henq]
  refine ⟨?_, rfl, rfl⟩
  obtain ⟨xs, hxs⟩ := exists_concat h.last
  have hl : Linked (update m.next p none) (Pend (still : Agent Empty → Option (Enq ν))) (m.tail :: rest) :=
    h.linked.congr (fun x hx => Function.update_of_ne (ne_of_mem_of_not_mem hx hp) ..) fun _ _ _ => Iff.rfl
  obtain ⟨hsleep, hclosed, hend⟩ := kind_ne hkind
  have hnd := h.nodup
  have hpx := hp
  rw [hxs] at hl hnd hpx
  constructor
  · exact List.getLastD_concat ..
  · show (m.tail :: (rest ++ [p])).Nodup
    rw [← List.cons_append]
    refine List.nodup_append.mpr ⟨h.nodup, List.nodup_singleton p, fun x hx y hy => ?_⟩
    rw [List.mem_singleton.mp hy]
    exact ne_of_mem_of_not_mem hx hp
  · show Linked (update (update m.next p none) m.head (some p)) _ (m.tail :: (rest ++ [p]))
    rw [← List.cons_append, hxs, List.append_assoc]
    exact hl.concat not_pend hnd hpx (Function.update_self ..)
  · exact sleep_concat h.sleep hsleep hend
  · exact notClosed_concat h.notClosed hclosed

/-- Clearing the sleep marker leaves the nodes. -/
theorem clearSleepMarker_spec (h : m.Chained rest) :
    ∃ rest', m.clearSleepMarker.Chained rest' ∧ m.clearSleepMarker.queued rest' = m.queued rest ∧
      m.clearSleepMarker.node = m.node := by
  by_cases ht : m.tail = .sleepMarker
  · by_cases hh : m.head = .sleepMarker
    · have hclear : m.clearSleepMarker = ⟨.endMarker, .endMarker, update m.next .endMarker none, m.node⟩ := by
        unfold clearSleepMarker
        simp only [if_neg (not_not.mpr ht), if_pos hh]
      have hrest : rest = [] := eq_nil_of_last (h.last.trans (hh.trans ht.symm)) h.nodup
      subst hrest
      rw [hclear]
      have hnext : update m.next .endMarker none .endMarker = none := Function.update_self ..
      refine ⟨[], ⟨rfl, List.nodup_singleton _, ⟨hnext, not_pend _⟩, fun hm => ?_, fun hm => ?_⟩, ?_, rfl⟩
      · cases List.mem_singleton.mp hm
      · cases List.mem_singleton.mp hm
      · show nodes [.endMarker] = nodes [m.tail]
        rw [ht]
        rfl
    · have hclear : m.clearSleepMarker = { m with next := update m.next .endMarker none } := by
        unfold clearSleepMarker
        simp only [if_neg (not_not.mpr ht), if_neg hh]
      rw [hclear]
      refine ⟨rest, h.congr rfl rfl fun x hx => Function.update_of_ne ?_ .., rfl, rfl⟩
      intro e
      subst e
      rcases List.mem_cons.mp hx with he | he
      · rw [ht] at he
        cases he
      · exact (h.sleep (by rw [ht]; exact List.mem_cons_self ..)).2 he
  · have hclear : m.clearSleepMarker = m := if_pos ht
    rw [hclear]
    exact ⟨rest, h, rfl, rfl⟩

/-- A node at the tail is handed out, if it is not the one to stop at. -/
theorem dequeueTail_data (h : m.Chained rest) {n : ν} {us : List ν} (hq : m.queued rest = n :: us) (hm : m.tail.isMarker = false)
    {u : Option (Ptr ν)} (hu : u ≠ some (.node n)) :
    ∃ m' rest', m.dequeueTail u = (m', .data (.node n)) ∧ m'.Chained rest' ∧ m'.queued rest' = us ∧ m'.node = m.node := by
  obtain ⟨n', ht⟩ := node_of_not_marker hm
  obtain ⟨rfl, hus⟩ : n' = n ∧ nodes rest = us := by
    unfold queued at hq
    rw [ht] at hq
    exact List.cons_eq_cons.mp hq
  rw [← ht] at hu ⊢
  unfold dequeueTail
  rw [if_neg hu]
  cases hn : m.next m.tail with
  | some b =>
    obtain ⟨ys, rfl, hc⟩ := h.pop hn
    exact ⟨_, ys, rfl, hc, hus, rfl⟩
  | none =>
    obtain ⟨rfl, hh⟩ := h.end hn
    have he : (.endMarker : Ptr ν) ∉ [m.tail] := by
      rw [ht]
      simp
    obtain ⟨hc, htail, hnode⟩ := enqueueNode_spec h he (.inr ⟨rfl, hm⟩)
    have hnext := hc.next_cons
    obtain ⟨ys, hys, hc'⟩ := hc.pop hnext
    obtain ⟨-, rfl⟩ := List.cons_eq_cons.mp hys
    rw [if_neg (not_not.mpr hh)]
    simp only [hnext]
    rw [htail]
    exact ⟨_, [], rfl, hc', hus, hnode⟩

/-- `dequeue_node` hands out the first node, if it is not the one to stop at. -/
theorem dequeueNode_data (h : m.Chained rest) {n : ν} {us : List ν} (hq : m.queued rest = n :: us) {u : Option (Ptr ν)}
    (hu : u ≠ some (.node n)) :
    ∃ m' rest', m.dequeueNode u = (m', .data (.node n)) ∧ m'.Chained rest' ∧ m'.queued rest' = us ∧ m'.node = m.node := by
  unfold dequeueNode
  by_cases hm : m.tail.isMarker = true
  · rw [if_pos hm]
    cases hn : m.next m.tail with
    | none =>
      obtain ⟨rfl, -⟩ := h.end hn
      unfold queued at hq
      rw [nodes_marker hm] at hq
      cases hq
    | some b =>
      obtain ⟨ys, rfl, hc⟩ := h.pop hn
      unfold queued at hq
      rw [nodes_marker hm] at hq
      exact dequeueTail_data hc hq (h.next_node hm) hu
  · rw [if_neg hm]
    exact dequeueTail_data h hq (by simpa using hm) hu

/-- At the node to stop at, or with no node left, nothing is handed out. -/
theorem dequeueNode_until (h : m.Chained rest) {us : List ν} (hq : m.queued rest = us) {u : Option (Ptr ν)}
    (hu : u = us.head?.map .node) :
    ∃ m' rest', m.dequeueNode u = (m', .empty) ∧ m'.Chained rest' ∧ m'.queued rest' = us ∧ m'.node = m.node := by
  have stop : ∀ {m : Memory ν J} (rest), m.queued rest = us → m.tail.isMarker = false → m.dequeueTail u = (m, .empty) := by
    intro m rest hq hm
    obtain ⟨n, ht⟩ := node_of_not_marker hm
    have hun : u = some m.tail := by
      rw [hu, ← hq, ht]
      unfold queued
      rw [ht]
      rfl
    unfold dequeueTail
    rw [if_pos hun]
  unfold dequeueNode
  by_cases hm : m.tail.isMarker = true
  · rw [if_pos hm]
    cases hn : m.next m.tail with
    | none =>
      obtain ⟨rest', hc, hqc, hnode⟩ := clearSleepMarker_spec h
      exact ⟨_, rest', rfl, hc, hqc.trans hq, hnode⟩
    | some b =>
      obtain ⟨ys, rfl, hc⟩ := h.pop hn
      unfold queued at hq
      rw [nodes_marker hm] at hq
      exact ⟨_, ys, stop ys hq (h.next_node hm), hc, hq, rfl⟩
  · rw [if_neg hm]
    exact ⟨m, rest, stop rest hq (by simpa using hm), h, hq, rfl⟩

end Moves

end Memory

end Sickle.Poll
