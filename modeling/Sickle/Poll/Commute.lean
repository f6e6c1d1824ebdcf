/-
  Sickle.Poll.Commute — `set_readiness` and `register` in either order.

  `update` stores its job only when it turns QUEUED on. Signalled before it is
  registered, a new node is queued by `update`, which leaves the job in it; registered
  first, it is queued by `set_readiness`, and the job of `register` is nowhere.

  Both orders make the node's word, tokens and place in the queue the same, so the next
  `poll` gives one event for it, with the same token and readiness (`signalled`,
  `registered`). The job it gives is the one of `register` in the first order, and the
  closure that does nothing in the second.
  - `commute_iff_no_job`: the two orders agree exactly when the given job does nothing.
-/

import Sickle.Poll.Walk

namespace Sickle.Poll

open Function (update)
open Sickle.Lib Sickle.Lib.Word

variable {ν J : Type} [DecidableEq ν]

namespace Memory

/-- `enqueue_with_wakeup`; the byte that wakes the poller is in `Sickle.Poll.Sleep`. -/
def enqueueWithWakeup (m : Memory ν J) (p : Ptr ν) : Memory ν J :=
  if (m.node p).readinessQueue.isNone then m else (m.enqueueNode p).1

/-- `RegistrationInner::set_readiness`. -/
def setReadiness (m : Memory ν J) (p : Ptr ν) (ready : Ready) : Memory ν J :=
  let state := (m.node p).state
  if state.isDropped then m
  else
    let next := state.setReadinessNext ready
    let m := m.setNode p { m.node p with state := next }
    if turnedOn state next then m.enqueueWithWakeup p else m

/-- The first part of `update`: a node with no queue is associated with this one, which
    takes a reference. -/
def associate (m : Memory ν J) (p : Ptr ν) : Memory ν J :=
  if (m.node p).readinessQueue.isNone then
    m.setNode p { m.node p with readinessQueue := some (), refCount := (m.node p).refCount + 1 }
  else m

/-- Where `update` puts the token: nowhere if it is the current one. -/
def writeToken (m : Memory ν J) (p : Ptr ν) (token : TokenEntry) : Except PollFault (Memory ν J × BitVec 64) :=
  let state := (m.node p).state
  match (m.node p).token state.tokenWritePos with
  | none => .error .unreachable
  | some current =>
    if token = current then .ok (m, state.tokenWritePos)
    else match state.nextTokenPos with
      | none => .error .unreachable
      | some pos => .ok (m.setNode p ((m.node p).setToken pos token), pos)

/-- The rest of `update`, with the token in slot `pos`. -/
def updateState (m : Memory ν J) (p : Ptr ν) (a : UpdateArgs Unit J) (pos : BitVec 64) : Memory ν J :=
  let state := (m.node p).state
  let next := state.updateNext pos a.interest a.opt
  let m := m.setNode p { m.node p with state := next }
  if turnedOn state next then
    let m := m.setNode p { m.node p with job := a.job }
    (m.enqueueNode p).1
  else m

/-- `RegistrationInner::update`. There is one queue, so it is the node's if it has one. -/
def update (m : Memory ν J) (p : Ptr ν) (a : UpdateArgs Unit J) : Except PollFault (Memory ν J) :=
  let m := m.associate p
  if (m.node p).updateLock then .ok m
  else (m.writeToken p a.token).map fun r => r.1.updateState p a r.2

end Memory

/-! ## A node that is ready to be visited -/

/-- A node that a visit takes off the queue, giving this event and this job. -/
structure Due (n : ReadinessNode Unit J) (e : Event) (job : Option J) : Prop where
  pollable : n.state.Pollable
  kept : n.state.isDropped = false
  ready : n.state.effectiveReadiness = e.readiness
  some : e.readiness.isEmpty = false
  edge : n.state.pollOpt.isEdge = true
  token : n.token n.state.tokenWritePos = .some e.token
  job : n.job = job

namespace Due

variable {n : ReadinessNode Unit J} {e : Event} {job : Option J}

omit [DecidableEq ν] in
theorem emits (h : Due n e job) : n.state.emits = true := by
  rw [ReadinessState.emits, h.kept, h.ready, h.some]
  rfl

theorem event (h : Due n e job) : n.event = .some e := by
  rw [ReadinessNode.event, if_pos h.emits, h.token, h.ready]
  rfl

theorem entry (h : Due n e job) : n.entry = .some ⟨e.token, job, Ready.empty⟩ := by
  rw [ReadinessNode.entry, if_pos h.emits, h.token, h.job]
  rfl

end Due

/-- The next `poll` gives one event for a node that is queued behind `xs`: this one, with
    this job, after the events of `xs`. -/
def Delivers (m m' : Memory ν J) (xs : List ν) (dst : Events J) (e : Event) (job : Option J) : Prop :=
  ∀ fuel, xs.length + 1 < fuel → ∃ s, m'.poll fuel dst = .ok s ∧
    s.dst.events = dst.events ++ xs.filterMap (fun k => (m.node (.node k)).event) ++ [e] ∧
    s.dst.entries = dst.entries ++ xs.filterMap (fun k => (m.node (.node k)).entry) ++ [⟨e.token, job, Ready.empty⟩]

/-- A poll with room for them all visits them all. -/
theorem Stretch.visits_all {state : ν → ReadinessState} {room : Nat} {xs vis unv : List ν} {n : ν}
    (h : Stretch state room (xs ++ [n]) vis unv) (hroom : xs.countP (fun k => (state k).emits) < room) : vis = xs ++ [n] := by
  rcases List.eq_nil_or_concat' unv with rfl | ⟨ys, y, rfl⟩
  · rw [h.fifo, List.append_nil]
  · rcases h.full with hn | hc
    · simp at hn
    · have hfifo := h.fifo
      rw [← List.append_assoc] at hfifo
      obtain ⟨hxs, -⟩ := List.append_inj' hfifo rfl
      rw [hxs, List.countP_append] at hroom
      omega

theorem delivers_of_due {m m' : Memory ν J} {rest : List (Ptr ν)} {xs : List ν} {n : ν} {dst : Events J} {e : Event}
    {job : Option J} (h : m'.Chained rest) (hq : m'.queued rest = xs ++ [n]) (hp : ∀ k ∈ xs, (m.node (.node k)).state.Pollable)
    (hsame : ∀ k ∈ xs, m'.node (.node k) = m.node (.node k)) (hn : Due (m'.node (.node n)) e job)
    (hroom : xs.countP (fun k => (m.node (.node k)).state.emits) < dst.capacity - dst.len) : Delivers m m' xs dst e job := by
  intro fuel hf
  have hpoll : ∀ k ∈ m'.queued rest, (m'.node (.node k)).state.Pollable := by
    intro k hk
    rw [hq] at hk
    rcases List.mem_append.mp hk with hk | hk
    · rw [hsame k hk]
      exact hp k hk
    · rw [List.mem_singleton.mp hk]
      exact hn.pollable
  have hf' : (m'.queued rest).length < fuel := by
    rw [hq]
    simpa using hf
  obtain ⟨s, vis, unv, hs, hpolled⟩ := poll_walks h hpoll dst hf'
  have hcount : xs.countP (fun k => (m'.node (.node k)).state.emits) < dst.capacity - dst.len := by
    rw [List.countP_congr fun k hk => by rw [hsame k hk]]
    exact hroom
  have hstretch := hpolled.stretch
  rw [hq] at hstretch
  obtain rfl := hstretch.visits_all hcount
  have hmap : (xs.map fun k => m'.node (.node k)) = xs.map fun k => m.node (.node k) := List.map_congr_left hsame
  refine ⟨s, hs, ?_, ?_⟩
  · rw [hpolled.dst.events, List.map_append, List.filterMap_append, hmap, List.append_assoc]
    simp [hn.event, List.filterMap_map]
  · rw [hpolled.dst.entries, List.map_append, List.filterMap_append, hmap, List.append_assoc]
    simp [hn.entry, List.filterMap_map]

/-! ## The words of the two orders -/

namespace ReadinessState

theorem set_readiness_isQueued (state : ReadinessState) {ready : Ready} (hr : Within ready.bits MASK_4) :
    (state.setReadinessNext ready).isQueued = (state.isQueued || !(state.setReadinessNext ready).effectiveReadiness.isEmpty) := by
  unfold setReadinessNext
  rw [isQueued_queueIfReady, (state.setReadiness_flags hr).1, effectiveReadiness_queueIfReady]

theorem update_isQueued (state : ReadinessState) {pos : BitVec 64} {interest : Ready} {opt : PollOpt} (hp : Within pos MASK_2)
    (hi : Within interest.bits MASK_4) (ho : Within opt.bits MASK_4) : (state.updateNext pos interest opt).isQueued =
      (state.isQueued || !(state.updateNext pos interest opt).effectiveReadiness.isEmpty) := by
  unfold updateNext
  rw [isQueued_queueIfReady, (state.update_flags hp hi ho).1, effectiveReadiness_queueIfReady]

/-- The word of a node of `Registration::new2`. -/
def fresh : ReadinessState := .new Ready.empty PollOpt.empty

/-- The word of a node that is signalled with `r`, and registered for `i`, edge triggered,
    with its token in slot `pos`. -/
structure Both (s : ReadinessState) (r i : Ready) (pos : BitVec 64) : Prop where
  effective : s.effectiveReadiness = r.and i
  opt : s.pollOpt = PollOpt.edge
  slot : s.tokenWritePos = pos
  queued : s.isQueued = true
  kept : s.isDropped = false

variable {r i : Ready} {pos : BitVec 64}

/-- Signalled, a fresh node is not queued. -/
theorem fresh_signalled (hr : Within r.bits MASK_4) : (fresh.setReadinessNext r).isQueued = false := by
  rw [(set_readiness_no_interest hr (by decide)).2]
  decide

/-- Registered, it is not queued either. -/
theorem fresh_registered (hp : Within pos MASK_2) (hi : Within i.bits MASK_4) :
    (fresh.updateNext pos i PollOpt.edge).isQueued = false := by
  obtain ⟨hread, -, -, -⟩ := fresh.update_fields hp hi (show Within PollOpt.edge.bits MASK_4 by decide)
  have hfresh : fresh.readiness = Ready.empty := by decide
  have heff : (fresh.updateNext pos i PollOpt.edge).effectiveReadiness = Ready.empty := by
    unfold effectiveReadiness
    rw [hread, hfresh]
    exact congrArg Ready.mk BitVec.zero_and
  rw [update_isQueued fresh hp hi (by decide), heff]
  decide

theorem both_signalled (hr : Within r.bits MASK_4) (hp : Within pos MASK_2) (hi : Within i.bits MASK_4)
    (h : (r.and i).isEmpty = false) : Both ((fresh.setReadinessNext r).updateNext pos i PollOpt.edge) r i pos := by
  have ho : Within PollOpt.edge.bits MASK_4 := by decide
  obtain ⟨hread, hint, hopt, hpos⟩ := (fresh.setReadinessNext r).update_fields hp hi ho
  have heff : ((fresh.setReadinessNext r).updateNext pos i PollOpt.edge).effectiveReadiness = r.and i := by
    unfold effectiveReadiness
    rw [hread, hint, (fresh.set_readiness_fields hr).1]
  refine ⟨heff, hopt, hpos, ?_, ?_⟩
  · rw [update_isQueued _ hp hi ho, heff, h, Bool.not_false, Bool.or_true]
  · rw [update_dropped _ hp hi ho, set_readiness_dropped _ hr]
    decide

theorem both_registered (hr : Within r.bits MASK_4) (hp : Within pos MASK_2) (hi : Within i.bits MASK_4)
    (h : (r.and i).isEmpty = false) : Both ((fresh.updateNext pos i PollOpt.edge).setReadinessNext r) r i pos := by
  have ho : Within PollOpt.edge.bits MASK_4 := by decide
  obtain ⟨-, hint, hopt, hpos⟩ := fresh.update_fields hp hi ho
  obtain ⟨hread', hint', hopt', hpos'⟩ := (fresh.updateNext pos i PollOpt.edge).set_readiness_fields hr
  have heff : ((fresh.updateNext pos i PollOpt.edge).setReadinessNext r).effectiveReadiness = r.and i := by
    unfold effectiveReadiness
    rw [hread', hint', hint]
  refine ⟨heff, hopt'.trans hopt, hpos'.trans hpos, ?_, ?_⟩
  · rw [set_readiness_isQueued _ hr, heff, h, Bool.not_false, Bool.or_true]
  · rw [set_readiness_dropped _ hr, update_dropped _ hp hi ho]
    decide

/-- With such a word, and the token in its slot, the node is due. -/
theorem Both.due {n : ReadinessNode Unit J} (hb : n.state.Both r i pos) (h : (r.and i).isEmpty = false) (hpos : pos.toNat ≤ 2)
    {t : TokenEntry} (ht : n.token pos = some t) : Due n ⟨r.and i, t⟩ n.job := by
  refine ⟨⟨hb.queued, ?_⟩, hb.kept, hb.effective, h, ?_, ?_, rfl⟩
  · rw [hb.slot]
    exact hpos
  · rw [hb.opt]
    decide
  · rw [hb.slot]
    exact ht

end ReadinessState

/-! ## The two orders -/

section Orders

variable {m : Memory ν J} {rest : List (Ptr ν)} {n : ν}

theorem setNode_setNode (m : Memory ν J) (p : Ptr ν) (a b : ReadinessNode Unit J) : (m.setNode p a).setNode p b = m.setNode p b := by
  unfold Memory.setNode
  simp only [Function.update_idem]

@[simp] theorem setNode_node (m : Memory ν J) (p : Ptr ν) (a : ReadinessNode Unit J) : (m.setNode p a).node p = a :=
  Function.update_self ..

/-- `update` puts the token of a fresh node into a slot. -/
theorem writeToken_spec {p : Ptr ν} (hw : (m.node p).state.tokenWritePos = 0#64) (hr : (m.node p).state.tokenReadPos = 0#64)
    (token : TokenEntry) : ∃ node pos, m.writeToken p token = .ok (m.setNode p node, pos) ∧ node.state = (m.node p).state ∧
      node.job = (m.node p).job ∧ node.readinessQueue = (m.node p).readinessQueue ∧ node.token pos = some token ∧
      Within pos MASK_2 ∧ pos.toNat ≤ 2 := by
  have hself : m.setNode p (m.node p) = m := by
    unfold Memory.setNode
    rw [Function.update_eq_self]
  have hcur : (m.node p).token 0#64 = some (m.node p).token0 := rfl
  by_cases ht : token = (m.node p).token0
  · refine ⟨m.node p, 0#64, ?_, rfl, rfl, rfl, by rw [ht]; exact hcur, by decide, by decide⟩
    unfold Memory.writeToken
    simp only [hw, hcur, if_pos ht, hself]
  · have hnext : (m.node p).state.nextTokenPos = some 1#64 := by
      unfold ReadinessState.nextTokenPos
      rw [hw, hr]
      rfl
    refine ⟨(m.node p).setToken 1#64 token, 1#64, ?_, rfl, rfl, rfl, rfl, by decide, by decide⟩
    unfold Memory.writeToken
    simp only [hw, hcur, if_neg ht, hnext]

/-- A node is written and enqueued. -/
theorem enqueue_written (h : m.Chained rest) (hn : n ∉ m.queued rest) (node : ReadinessNode Unit J) :
    ∃ rest', ((m.setNode (.node n) node).enqueueNode (.node n)).1.Chained rest' ∧
      ((m.setNode (.node n) node).enqueueNode (.node n)).1.queued rest' = m.queued rest ++ [n] ∧
      ((m.setNode (.node n) node).enqueueNode (.node n)).1.node = update m.node (.node n) node := by
  have hc : (m.setNode (.node n) node).Chained rest := h
  have hout : Ptr.node n ∉ (m.setNode (.node n) node).tail :: rest := fun hm => hn (mem_nodes.mpr hm)
  obtain ⟨hc', htail, hnode⟩ := Memory.enqueueNode_spec hc hout (.inl ⟨n, rfl⟩)
  refine ⟨_, hc', ?_, hnode⟩
  unfold Memory.queued
  rw [htail, ← List.cons_append, nodes_push]
  rfl

/-- What the two orders lead to: the node is written, with this job, and is behind the
    nodes that were queued. -/
structure QueuedWith (m m' : Memory ν J) (rest : List (Ptr ν)) (n : ν) (e : Event) (job : Option J) : Prop where
  queue : ∃ rest', m'.Chained rest' ∧ m'.queued rest' = m.queued rest ++ [n]
  same : ∀ k, k ≠ n → m'.node (.node k) = m.node (.node k)
  due : Due (m'.node (.node n)) e job

theorem QueuedWith.delivers {m' : Memory ν J} {e : Event} {job : Option J} (h : QueuedWith m m' rest n e job)
    (hn : n ∉ m.queued rest) (hp : ∀ k ∈ m.queued rest, (m.node (.node k)).state.Pollable) {dst : Events J}
    (hroom : (m.queued rest).countP (fun k => (m.node (.node k)).state.emits) < dst.capacity - dst.len) :
    Delivers m m' (m.queued rest) dst e job := by
  obtain ⟨rest', hc, hq⟩ := h.queue
  exact delivers_of_due hc hq hp (fun k hk => h.same k (ne_of_mem_of_not_mem hk hn)) h.due hroom

/-- A node written with a word of both orders, and enqueued. -/
theorem queuedWith_written (h : m.Chained rest) (hn : n ∉ m.queued rest) {node : ReadinessNode Unit J} {r i : Ready}
    {pos : BitVec 64} {t : TokenEntry} (hb : node.state.Both r i pos) (hover : (r.and i).isEmpty = false) (hpos : pos.toNat ≤ 2)
    (ht : node.token pos = some t) :
    QueuedWith m ((m.setNode (.node n) node).enqueueNode (.node n)).1 rest n ⟨r.and i, t⟩ node.job := by
  obtain ⟨rest', hc, hq, hnode⟩ := enqueue_written h hn node
  refine ⟨⟨rest', hc, hq⟩, fun k hk => ?_, ?_⟩
  · rw [hnode]
    exact Function.update_of_ne (fun e => hk (by cases e; rfl)) ..
  · rw [hnode, Function.update_self]
    exact hb.due hover hpos ht

/-- `update` of a node that has no queue yet, up to the loop on its word. -/
theorem update_unassociated {p : Ptr ν} (hq : (m.node p).readinessQueue = none) (hl : (m.node p).updateLock = false)
    (hw : (m.node p).state.tokenWritePos = 0#64) (hr : (m.node p).state.tokenReadPos = 0#64) (a : UpdateArgs Unit J) :
    ∃ node pos, m.update p a = .ok ((m.setNode p node).updateState p a pos) ∧ node.state = (m.node p).state ∧
      node.job = (m.node p).job ∧ node.readinessQueue = some () ∧ node.token pos = some a.token ∧ Within pos MASK_2 ∧
      pos.toNat ≤ 2 := by
  have hassoc : m.associate p =
      m.setNode p { m.node p with readinessQueue := some (), refCount := (m.node p).refCount + 1 } := by
    unfold Memory.associate
    rw [hq]
    rfl
  obtain ⟨node, pos, hwrite, hs, hj, hq', ht, hpos, hle⟩ :=
    writeToken_spec (m := m.associate p) (p := p) (by rw [hassoc, setNode_node]; exact hw) (by rw [hassoc, setNode_node]; exact hr)
      a.token
  rw [hassoc, setNode_node] at hs hj hq'
  refine ⟨node, pos, ?_, hs, hj, hq', ht, hpos, hle⟩
  have hlock : ((m.associate p).node p).updateLock = false := by
    rw [hassoc, setNode_node]
    exact hl
  unfold Memory.update
  simp only [hlock, Bool.false_eq_true, if_false, hwrite]
  rw [hassoc, setNode_setNode]
  rfl

/-- The loop of `update` on a word that it turns QUEUED on in, or not. -/
theorem updateState_spec {p : Ptr ν} {node : ReadinessNode Unit J} {a : UpdateArgs Unit J} {pos : BitVec 64} :
    (m.setNode p node).updateState p a pos =
      if turnedOn node.state (node.state.updateNext pos a.interest a.opt) then
        ((m.setNode p { node with state := node.state.updateNext pos a.interest a.opt, job := a.job }).enqueueNode p).1
      else m.setNode p { node with state := node.state.updateNext pos a.interest a.opt } := by
  unfold Memory.updateState
  simp only [setNode_node, setNode_setNode]

/-- Edge triggered. -/
def edge4 : PollOpt4 := ⟨PollOpt.edge, edge_within⟩

/-- Signalled first: `update` queues the node, and stores the job. -/
theorem signalled (h : m.Chained rest) (hn : n ∉ m.queued rest) (hnew : m.node (.node n) = .unregistered) {r i : Ready4}
    (hover : (r.1.and i.1).isEmpty = false) (token : TokenEntry) (job : Option J) :
    ∃ m', (m.setReadiness (.node n) r).update (.node n) ⟨(), token, i, edge4, job⟩ = .ok m' ∧
      QueuedWith m m' rest n ⟨r.1.and i.1, token⟩ job := by
  have hoff := ReadinessState.fresh_signalled r.2
  obtain ⟨-, -, -, hslot⟩ := ReadinessState.fresh.set_readiness_fields r.2
  have hread : (ReadinessState.fresh.setReadinessNext r).tokenReadPos = 0#64 :=
    (ReadinessState.get_queueIfReady (by decide)).trans (ReadinessState.get_set_of_disjoint r.2 (by decide))
  have hset : m.setReadiness (.node n) r =
      m.setNode (.node n) { m.node (.node n) with state := ReadinessState.fresh.setReadinessNext r } := by
    have hstate : (m.node (.node n)).state = ReadinessState.fresh := by rw [hnew]; rfl
    have hkept : ReadinessState.fresh.isDropped = false := by decide
    have hturn : turnedOn ReadinessState.fresh (ReadinessState.fresh.setReadinessNext r) = false := by
      rw [turnedOn, hoff, Bool.and_false]
    unfold Memory.setReadiness
    simp only [hstate, hkept, hturn, Bool.false_eq_true, if_false]
  rw [hset, hnew]
  obtain ⟨node, pos, hup, hs, -, -, ht, hpos, hle⟩ := update_unassociated
    (m := m.setNode (.node n) { ReadinessNode.unregistered with state := ReadinessState.fresh.setReadinessNext r })
    (p := .node n) (by rw [setNode_node]; rfl) (by rw [setNode_node]; rfl) (by rw [setNode_node]; exact hslot)
    (by rw [setNode_node]; exact hread) ⟨(), token, i, edge4, job⟩
  rw [setNode_node] at hs
  change node.state = ReadinessState.fresh.setReadinessNext r at hs
  have hboth := ReadinessState.both_signalled r.2 hpos i.2 hover
  have hturn : turnedOn node.state (node.state.updateNext pos i edge4) = true := by
    rw [hs, turnedOn, hoff]
    exact hboth.queued
  refine ⟨_, hup, ?_⟩
  rw [setNode_setNode, updateState_spec, if_pos hturn]
  refine queuedWith_written h hn ?_ hover hle ht
  rw [← hs] at hboth
  exact hboth

/-- Registered first: `set_readiness` queues the node, and nobody stored the job. -/
theorem registered (h : m.Chained rest) (hn : n ∉ m.queued rest) (hnew : m.node (.node n) = .unregistered) {r i : Ready4}
    (hover : (r.1.and i.1).isEmpty = false) (token : TokenEntry) (job : Option J) :
    ∃ m', m.update (.node n) ⟨(), token, i, edge4, job⟩ = .ok m' ∧
      QueuedWith m (m'.setReadiness (.node n) r) rest n ⟨r.1.and i.1, token⟩ none := by
  have hslot : ReadinessState.fresh.tokenWritePos = 0#64 := by decide
  have hread : ReadinessState.fresh.tokenReadPos = 0#64 := by decide
  obtain ⟨node, pos, hup, hs, hjob, hqueue, ht, hpos, hle⟩ := update_unassociated (m := m) (p := .node n)
    (by rw [hnew]; rfl) (by rw [hnew]; rfl) (by rw [hnew]; exact hslot) (by rw [hnew]; exact hread) ⟨(), token, i, edge4, job⟩
  rw [hnew] at hs hjob
  change node.state = ReadinessState.fresh at hs
  have hoff := ReadinessState.fresh_registered hpos i.2
  have hboth := ReadinessState.both_registered r.2 hpos i.2 hover
  have hturn : turnedOn node.state (node.state.updateNext pos i edge4) = false := by
    rw [hs, turnedOn]
    show (_ && ReadinessState.isQueued (ReadinessState.fresh.updateNext pos i PollOpt.edge)) = false
    rw [hoff, Bool.and_false]
  refine ⟨_, hup, ?_⟩
  rw [updateState_spec, hturn, if_neg (by decide), hs]
  have hkept : (ReadinessState.fresh.updateNext pos i edge4).isDropped = false := by
    rw [ReadinessState.update_dropped _ hpos i.2 edge4.2]
    decide
  have hturn' : turnedOn (ReadinessState.fresh.updateNext pos i edge4)
      ((ReadinessState.fresh.updateNext pos i edge4).setReadinessNext r) = true := by
    rw [turnedOn]
    show (!ReadinessState.isQueued (ReadinessState.fresh.updateNext pos i PollOpt.edge) && _) = true
    rw [hoff]
    exact hboth.queued
  have hsignal : (m.setNode (.node n) { node with state := ReadinessState.fresh.updateNext pos i edge4 }).setReadiness (.node n) r =
      ((m.setNode (.node n) { node with
        state := (ReadinessState.fresh.updateNext pos i edge4).setReadinessNext r }).enqueueNode (.node n)).1 := by
    unfold Memory.setReadiness Memory.enqueueWithWakeup
    simp only [setNode_node, hkept, hturn', Bool.false_eq_true, if_false, if_true, setNode_setNode, hqueue, Option.isNone_some]
  rw [hsignal]
  have hnone : node.job = none := hjob
  rw [← hnone]
  exact queuedWith_written h hn hboth hover hle ht

/-- Both orders succeed, and the next poll gives one event for the node, with this token,
    the readiness that is wanted, and the given job. -/
def Commute (m : Memory ν J) (rest : List (Ptr ν)) (n : ν) (dst : Events J) (r i : Ready4) (token : TokenEntry)
    (job : Option J) : Prop :=
  (∃ m', (m.setReadiness (.node n) r).update (.node n) ⟨(), token, i, edge4, job⟩ = .ok m' ∧
      Delivers m m' (m.queued rest) dst ⟨r.1.and i.1, token⟩ job) ∧
    ∃ m', m.update (.node n) ⟨(), token, i, edge4, job⟩ = .ok m' ∧
      Delivers m (m'.setReadiness (.node n) r) (m.queued rest) dst ⟨r.1.and i.1, token⟩ job

/-- A poll delivers one job. -/
theorem Delivers.job_unique {m' : Memory ν J} {xs : List ν} {dst : Events J} {e : Event} {job job' : Option J}
    (h : Delivers m m' xs dst e job) (h' : Delivers m m' xs dst e job') : job = job' := by
  obtain ⟨s, hs, -, he⟩ := h (xs.length + 2) (by omega)
  obtain ⟨s', hs', -, he'⟩ := h' (xs.length + 2) (by omega)
  rw [hs] at hs'
  cases hs'
  rw [he] at he'
  have hlast := List.append_cancel_left he'
  injection hlast with hlast _
  injection hlast

/-- A node of `Registration::new2`, signalled and registered in either order: the two orders
    agree exactly when the given job does nothing. -/
theorem commute_iff_no_job (h : m.Chained rest) (hn : n ∉ m.queued rest) (hnew : m.node (.node n) = .unregistered)
    (hp : ∀ k ∈ m.queued rest, (m.node (.node k)).state.Pollable) {dst : Events J}
    (hroom : (m.queued rest).countP (fun k => (m.node (.node k)).state.emits) < dst.capacity - dst.len) {r i : Ready4}
    (hover : (r.1.and i.1).isEmpty = false) (token : TokenEntry) (job : Option J) :
    Commute m rest n dst r i token job ↔ job = none := by
  obtain ⟨m₁, h₁, hq₁⟩ := signalled h hn hnew hover token job
  obtain ⟨m₂, h₂, hq₂⟩ := registered h hn hnew hover token job
  have hd₁ := hq₁.delivers hn hp hroom
  have hd₂ := hq₂.delivers hn hp hroom
  constructor
  · intro hc
    obtain ⟨-, m', hm', hd⟩ := hc
    rw [h₂] at hm'
    cases hm'
    exact hd.job_unique hd₂
  · intro hj
    subst hj
    exact ⟨⟨m₁, h₁, hd₁⟩, m₂, h₂, hd₂⟩

end Orders

/-- Readable, as a readiness or an interest. -/
def readable4 : Ready4 := ⟨Ready.readable, readable_within⟩

theorem commute_iff_no_job_readable : Commute (Memory.new fun _ : Unit => (.unregistered : ReadinessNode Unit Nat)) [] ()
    ⟨[], [], 1⟩ readable4 readable4 ⟨.otherEvent, ⟨3#64⟩⟩ (some 7) ↔ some 7 = none := by
  have hn : () ∉ (Memory.new fun _ : Unit => (.unregistered : ReadinessNode Unit Nat)).queued [] := List.not_mem_nil
  exact commute_iff_no_job (Memory.new_chained _) hn rfl (fun k hk => absurd hk hn) (by decide) (by decide) _ _

/-- A new node, registered for readable with a job and then made readable: the event comes
    with the job that does nothing. -/
theorem registered_first_loses_the_job : ¬ ∀ (m : Memory Unit Nat) (rest : List (Ptr Unit)) (n : Unit) (dst : Events Nat)
    (r i : Ready4) (token : TokenEntry) (job : Option Nat), m.Chained rest → n ∉ m.queued rest →
    m.node (.node n) = .unregistered → (∀ k ∈ m.queued rest, (m.node (.node k)).state.Pollable) →
    (m.queued rest).countP (fun k => (m.node (.node k)).state.emits) < dst.capacity - dst.len →
    (r.1.and i.1).isEmpty = false → Commute m rest n dst r i token job := by
  intro hall
  have hc := Memory.new_chained fun _ : Unit => (.unregistered : ReadinessNode Unit Nat)
  have hn : () ∉ (Memory.new fun _ : Unit => (.unregistered : ReadinessNode Unit Nat)).queued [] := List.not_mem_nil
  have hover : (readable4.1.and readable4.1).isEmpty = false := by decide
  have hroom : ((Memory.new fun _ : Unit => (.unregistered : ReadinessNode Unit Nat)).queued []).countP
      (fun k => ((Memory.new fun _ : Unit => (.unregistered : ReadinessNode Unit Nat)).node (.node k)).state.emits) <
      (⟨[], [], 1⟩ : Events Nat).capacity - (⟨[], [], 1⟩ : Events Nat).len := by decide
  obtain ⟨-, m', hm', hd⟩ := hall _ [] () ⟨[], [], 1⟩ readable4 readable4 ⟨.otherEvent, ⟨3#64⟩⟩ (some 7) hc hn rfl
    (fun k hk => absurd hk hn) hroom hover
  obtain ⟨m₂, h₂, hq₂⟩ := registered hc hn rfl hover ⟨.otherEvent, ⟨3#64⟩⟩ (some 7)
  rw [h₂] at hm'
  cases hm'
  have hnone := hq₂.delivers hn (fun k hk => absurd hk hn) hroom
  cases hd.job_unique hnone

end Sickle.Poll
