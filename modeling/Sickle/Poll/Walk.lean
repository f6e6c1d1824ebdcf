/-
  Sickle.Poll.Walk — one `ReadinessQueue::poll` with nobody else about.

  `poll` takes the nodes of the queue in order. One that is dropped loses the queue's
  reference; one that is ready gives an event; one that is ready and not edge triggered
  is put back behind the others, and the first of these is where the walk ends.

  - `pollNode_spec`: what one round does to the node and to the queue.
  - `loop_spec`: the rounds, by induction on the nodes not yet visited; those put back
    come behind them in the queue, and the pointer to stop at is the first of those.
  - `poll_walks`: `poll` returns, having visited a first part of the queue.
-/

import Sickle.Poll.Alone
import Sickle.Poll.Fields

namespace Sickle.Poll

open Function (update)
open Sickle.Lib Sickle.Lib.Word

namespace ReadinessState

/-- A visit of the node gives an event. -/
def emits (s : ReadinessState) : Bool := !s.isDropped && !s.effectiveReadiness.isEmpty

/-- It also puts the node back. -/
def staysOn (s : ReadinessState) : Bool := s.emits && !s.pollOpt.isEdge

/-- The word of a node in the queue: QUEUED is set, and the write position names a slot. -/
structure Pollable (s : ReadinessState) : Prop where
  queued : s.isQueued = true
  slot : s.tokenWritePos.toNat ≤ 2

instance (s : ReadinessState) : Decidable s.Pollable :=
  decidable_of_iff (s.isQueued = true ∧ s.tokenWritePos.toNat ≤ 2) ⟨fun h => ⟨h.1, h.2⟩, fun h => ⟨h.queued, h.slot⟩⟩

/-- A node in the queue that is not dropped is put back exactly when it stays on. -/
theorem Pollable.requeued {s : ReadinessState} (h : s.Pollable) (hd : s.isDropped = false) : s.pollNext.isQueued = s.staysOn := by
  rw [poll_queued, h.queued, staysOn, emits, hd, Bool.true_and, Bool.not_false, Bool.true_and, Bool.and_comm]

end ReadinessState

namespace ReadinessNode

variable {κ J : Type}

/-- What a visit does to a node. -/
def turn (n : ReadinessNode κ J) : ReadinessNode κ J :=
  if n.state.isDropped then { n with refCount := n.refCount - 1 }
  else { n with state := n.state.pollNext, job := if n.state.effectiveReadiness.isEmpty then n.job else none }

/-- The event that a visit gives, with the token at the node's write position. -/
def event (n : ReadinessNode κ J) : Option Event :=
  if n.state.emits then (n.token n.state.tokenWritePos).map fun t => ⟨n.state.effectiveReadiness, t⟩ else none

/-- The entry beside it, with the node's job. -/
def entry (n : ReadinessNode κ J) : Option (JobEntry (Option J)) :=
  if n.state.emits then (n.token n.state.tokenWritePos).map fun t => ⟨t, n.job, Ready.empty⟩ else none

end ReadinessNode

variable {ν J : Type} [DecidableEq ν]

/-! ## One round -/

/-- The events of some nodes are added to the destination. -/
structure Pushed (dst dst' : Events J) (ns : List (ReadinessNode Unit J)) : Prop where
  events : dst'.events = dst.events ++ ns.filterMap ReadinessNode.event
  entries : dst'.entries = dst.entries ++ ns.filterMap ReadinessNode.entry
  capacity : dst'.capacity = dst.capacity

structure Turned (s s' : PollRun ν J) (rest rest' : List (Ptr ν)) (n : ν) : Prop where
  chained : s'.mem.Chained rest'
  queued : s'.mem.queued rest' = s.mem.queued rest ++ if (s.mem.node (.node n)).state.staysOn then [n] else []
  node : s'.mem.node = update s.mem.node (.node n) (s.mem.node (.node n)).turn
  dst : Pushed s.dst s'.dst [s.mem.node (.node n)]
  untilPtr : s'.untilPtr = if (s.mem.node (.node n)).state.staysOn then some (s.untilPtr.getD (.node n)) else s.untilPtr
  visited : s'.visited = s.visited

/-- The queue and the pointer to stop at, after the node's word was stored. -/
theorem putBack_spec {s : PollRun ν J} {rest : List (Ptr ν)} {n : ν} (h : s.mem.Chained rest) (hn : n ∉ s.mem.queued rest) (b : Bool) :
    ∃ rest', (if b then s.putBack (.node n) else s).mem.Chained rest' ∧
      (if b then s.putBack (.node n) else s).mem.queued rest' = s.mem.queued rest ++ (if b then [n] else []) ∧
      (if b then s.putBack (.node n) else s).mem.node = s.mem.node ∧
      (if b then s.putBack (.node n) else s).untilPtr = (if b then some (s.untilPtr.getD (.node n)) else s.untilPtr) ∧
      (if b then s.putBack (.node n) else s).dst = s.dst ∧ (if b then s.putBack (.node n) else s).visited = s.visited := by
  cases b with
  | false => exact ⟨rest, h, (List.append_nil _).symm, rfl, rfl, rfl, rfl⟩
  | true =>
    have hout : Ptr.node n ∉ s.mem.tail :: rest := fun hm => hn (mem_nodes.mpr hm)
    obtain ⟨hc, htail, hnode⟩ := Memory.enqueueNode_spec h hout (.inl ⟨n, rfl⟩)
    refine ⟨_, hc, ?_, hnode, rfl, rfl, rfl⟩
    show nodes ((s.mem.enqueueNode (.node n)).1.tail :: (rest ++ [.node n])) = nodes (s.mem.tail :: rest) ++ [n]
    rw [htail, ← List.cons_append, nodes_push]
    rfl

theorem give_some {t : PollRun ν J} {p : Ptr ν} {readiness : Ready} {pos : BitVec 64} {tok : TokenEntry}
    (h : readiness.isEmpty = false) (ht : (t.mem.node p).token pos = some tok) :
    t.give p readiness pos = .ok { t with
      dst := t.dst.pushEvent ⟨readiness, tok⟩ (t.mem.node p).job
      mem := t.mem.setNode p { t.mem.node p with job := none } } := by
  rw [PollRun.give, h]
  simp only [Bool.false_eq_true, if_false, ht]

/-- One round, on a node that is out of the chain. -/
theorem pollNode_spec {s : PollRun ν J} {rest : List (Ptr ν)} {n : ν} (h : s.mem.Chained rest) (hn : n ∉ s.mem.queued rest)
    (hp : (s.mem.node (.node n)).state.Pollable) : ∃ s' rest', s.pollNode (.node n) = .ok s' ∧ Turned s s' rest rest' n := by
  generalize hnode : s.mem.node (.node n) = node at hp
  cases hd : node.state.isDropped with
  | true =>
    have hemits : node.state.emits = false := by rw [ReadinessState.emits, hd]; rfl
    have hstays : node.state.staysOn = false := by rw [ReadinessState.staysOn, hemits]; rfl
    refine ⟨{ s with mem := s.mem.releaseNode (.node n) }, rest, ?_, h, ?_, ?_, ?_, ?_, rfl⟩
    · rw [PollRun.pollNode, hnode]
      simp only [hd, if_true]
    · rw [hnode, hstays]
      exact (List.append_nil _).symm
    · rw [hnode, ReadinessNode.turn, hd, ← hnode]
      rfl
    · rw [hnode]
      refine ⟨?_, ?_, rfl⟩
      · simp [ReadinessNode.event, hemits]
      · simp [ReadinessNode.entry, hemits]
    · rw [hnode, hstays]
      rfl
  | false =>
    have hstays := hp.requeued hd
    have hround : s.pollNode (.node n) = PollRun.give (if node.state.pollNext.isQueued then
        (s.store (.node n) node.state.pollNext).putBack (.node n) else s.store (.node n) node.state.pollNext)
        (.node n) node.state.effectiveReadiness node.state.pollNext.tokenReadPos := by
      rw [PollRun.pollNode, hnode]
      simp only [hd, Bool.false_eq_true, if_false]
    have hc₁ : (s.store (.node n) node.state.pollNext).mem.Chained rest := h
    obtain ⟨rest', hc, hq, hmem, hu, hdst, hv⟩ := putBack_spec hc₁ hn node.state.pollNext.isQueued
    rw [hround]
    generalize (if node.state.pollNext.isQueued then (s.store (.node n) node.state.pollNext).putBack (.node n)
      else s.store (.node n) node.state.pollNext) = t at hc hq hmem hu hdst hv ⊢
    rw [hstays] at hq hu
    have hmem : t.mem.node = update s.mem.node (.node n) { node with state := node.state.pollNext } := by
      rw [hmem, ← hnode]
      rfl
    change t.dst = s.dst at hdst
    have hat : t.mem.node (.node n) = { node with state := node.state.pollNext } := by
      rw [hmem]
      exact Function.update_self ..
    cases he : node.state.effectiveReadiness.isEmpty with
    | true =>
      have hemits : node.state.emits = false := by rw [ReadinessState.emits, he, Bool.not_true, Bool.and_false]
      refine ⟨t, rest', by rw [PollRun.give, if_pos he], hc, ?_, ?_, ?_, ?_, hv⟩
      · rw [hnode]
        exact hq
      · rw [hmem, hnode, ReadinessNode.turn, hd, he]
        rfl
      · rw [hnode, hdst]
        refine ⟨?_, ?_, rfl⟩
        · simp [ReadinessNode.event, hemits]
        · simp [ReadinessNode.entry, hemits]
      · rw [hnode]
        exact hu
    | false =>
      have hemits : node.state.emits = true := by rw [ReadinessState.emits, hd, he]; rfl
      obtain ⟨tok, htok⟩ := node.token_some hp.slot
      have hread : ({ node with state := node.state.pollNext } : ReadinessNode Unit J).token node.state.pollNext.tokenReadPos =
          some tok := by
        rw [ReadinessState.poll_tokenReadPos]
        exact htok
      rw [← hat] at hread
      refine ⟨_, rest', give_some he hread, hc, ?_, ?_, ?_, ?_, hv⟩
      · rw [hnode]
        exact hq
      · rw [hnode, ReadinessNode.turn, hd, he]
        show update t.mem.node (.node n) { t.mem.node (.node n) with job := none } = _
        rw [hat, hmem, Function.update_idem]
        rfl
      · rw [hnode]
        refine ⟨?_, ?_, ?_⟩
        · show t.dst.events ++ _ = _
          rw [hdst]
          simp [ReadinessNode.event, hemits, htok]
        · show t.dst.entries ++ _ = _
          rw [hdst, hat]
          simp [ReadinessNode.entry, hemits, htok]
        · show t.dst.capacity = _
          rw [hdst]
      · rw [hnode]
        exact hu

/-! ## The rounds -/

/-- A first part `vis` of `us` is visited, and `unv` is left: all of them, or as many as
    give `room` events, and none after that. -/
structure Stretch (state : ν → ReadinessState) (room : Nat) (us vis unv : List ν) : Prop where
  fifo : us = vis ++ unv
  full : unv = [] ∨ vis.countP (fun n => (state n).emits) = room
  early : ∀ ys n zs, vis = ys ++ n :: zs → ys.countP (fun n => (state n).emits) < room

namespace Stretch

variable {state : ν → ReadinessState}

omit [DecidableEq ν] in
theorem stop (us : List ν) : Stretch state 0 us [] us :=
  ⟨rfl, .inr rfl, fun ys n zs h => by simp at h⟩

omit [DecidableEq ν] in
theorem all (room : Nat) : Stretch state room [] [] [] :=
  ⟨rfl, .inl rfl, fun ys n zs h => by simp at h⟩

omit [DecidableEq ν] in
theorem cons {room : Nat} {n : ν} {us vis unv : List ν} (hroom : 0 < room)
    (h : Stretch state (room - if (state n).emits then 1 else 0) us vis unv) : Stretch state room (n :: us) (n :: vis) unv := by
  refine ⟨by rw [h.fifo]; rfl, h.full.imp_right fun hc => ?_, fun ys m zs he => ?_⟩
  · rw [List.countP_cons, hc]
    split <;> omega
  · cases ys with
    | nil => exact hroom
    | cons y ys =>
      rw [List.cons_append, List.cons_eq_cons] at he
      obtain ⟨rfl, he⟩ := he
      have := h.early ys m zs he
      rw [List.countP_cons]
      omega

omit [DecidableEq ν] in
theorem congr {room : Nat} {state' : ν → ReadinessState} {us vis unv : List ν} (h : Stretch state room us vis unv)
    (hs : ∀ n ∈ us, state' n = state n) : Stretch state' room us vis unv := by
  have hcount : ∀ xs : List ν, (∀ n ∈ xs, n ∈ us) → xs.countP (fun n => (state' n).emits) = xs.countP (fun n => (state n).emits) := by
    intro xs hxs
    refine List.countP_congr fun n hn => ?_
    rw [hs n (hxs n hn)]
  have hvis : ∀ n ∈ vis, n ∈ us := fun n hn => by rw [h.fifo]; exact List.mem_append_left _ hn
  refine ⟨h.fifo, h.full.imp_right fun hc => (hcount vis hvis).trans hc, fun ys m zs he => ?_⟩
  rw [hcount ys fun n hn => hvis n (by rw [he]; exact List.mem_append_left _ hn)]
  exact h.early ys m zs he

end Stretch

/-- Rounds from `s` to `s'`, with `us` not yet visited and `qs` put back behind them. -/
structure Walked (s s' : PollRun ν J) (us qs vis unv : List ν) : Prop where
  stretch : Stretch (fun n => (s.mem.node (.node n)).state) (s.dst.capacity - s.dst.len) us vis unv
  queue : ∃ rest, s'.mem.Chained rest ∧
    s'.mem.queued rest = unv ++ (qs ++ vis.filter fun n => (s.mem.node (.node n)).state.staysOn)
  dst : Pushed s.dst s'.dst (vis.map fun n => s.mem.node (.node n))
  turned : ∀ n ∈ vis, s'.mem.node (.node n) = (s.mem.node (.node n)).turn
  kept : ∀ p, (∀ n ∈ vis, p ≠ .node n) → s'.mem.node p = s.mem.node p
  visited : s'.visited = s.visited ++ vis.map .node

theorem Pushed.refl (dst : Events J) : Pushed dst dst [] :=
  ⟨(List.append_nil _).symm, (List.append_nil _).symm, rfl⟩

theorem Pushed.trans {a b c : Events J} {xs ys : List (ReadinessNode Unit J)} (h : Pushed a b xs) (h' : Pushed b c ys) :
    Pushed a c (xs ++ ys) := by
  refine ⟨?_, ?_, h'.capacity.trans h.capacity⟩
  · rw [h'.events, h.events, List.filterMap_append, List.append_assoc]
  · rw [h'.entries, h.entries, List.filterMap_append, List.append_assoc]

/-- A round adds one entry or none. -/
theorem Pushed.len {dst dst' : Events J} {n : ReadinessNode Unit J} (h : Pushed dst dst' [n]) (hn : n.state.Pollable) :
    dst'.len = dst.len + if n.state.emits then 1 else 0 := by
  obtain ⟨t, ht⟩ := n.token_some hn.slot
  unfold Events.len
  rw [h.entries, List.length_append]
  cases he : n.state.emits with
  | true => simp [ReadinessNode.entry, he, ht]
  | false => simp [ReadinessNode.entry, he]

omit [DecidableEq ν] in
/-- The pointer to stop at is the first node put back. -/
theorem until_put_back {u : Option (Ptr ν)} {qs : List ν} (h : u = qs.head?.map .node) (n : ν) (b : Bool) :
    (if b then some (u.getD (.node n)) else u) = (qs ++ if b then [n] else []).head?.map .node := by
  cases b with
  | false => simpa using h
  | true =>
    subst h
    cases qs with
    | nil => rfl
    | cons q qs => rfl

/-- A round on `n`, and the rounds after it. -/
theorem Walked.cons {s t s' : PollRun ν J} {n : ν} {us qs vis unv : List ν} (hn : n ∉ us) (hroom : s.dst.len < s.dst.capacity)
    (hdst : Pushed s.dst t.dst [s.mem.node (.node n)])
    (hlen : t.dst.len = s.dst.len + if (s.mem.node (.node n)).state.emits then 1 else 0)
    (hmem : t.mem.node = update s.mem.node (.node n) (s.mem.node (.node n)).turn) (hv : t.visited = s.visited ++ [.node n])
    (h : Walked t s' us (qs ++ if (s.mem.node (.node n)).state.staysOn then [n] else []) vis unv) :
    Walked s s' (n :: us) qs (n :: vis) unv := by
  have hother : ∀ x ∈ us, t.mem.node (.node x) = s.mem.node (.node x) := by
    intro x hx
    rw [hmem]
    refine Function.update_of_ne (fun e => ?_) ..
    cases e
    exact hn hx
  have hvis : ∀ x ∈ vis, x ∈ us := fun x hx => by rw [h.stretch.fifo]; exact List.mem_append_left _ hx
  constructor
  · refine .cons (by omega) ?_
    have hrest : s.dst.capacity - s.dst.len - (if (s.mem.node (.node n)).state.emits then 1 else 0) =
        t.dst.capacity - t.dst.len := by
      rw [hlen, hdst.capacity]
      omega
    rw [hrest]
    exact h.stretch.congr fun x hx => by rw [hother x hx]
  · obtain ⟨rest, hc, hq⟩ := h.queue
    refine ⟨rest, hc, ?_⟩
    have hfilter : vis.filter (fun x => (t.mem.node (.node x)).state.staysOn) =
        vis.filter fun x => (s.mem.node (.node x)).state.staysOn :=
      List.filter_congr fun x hx => by rw [hother x (hvis x hx)]
    rw [hq, hfilter, List.append_assoc, List.filter_cons]
    split <;> rfl
  · have hmap : (vis.map fun x => t.mem.node (.node x)) = vis.map fun x => s.mem.node (.node x) :=
      List.map_congr_left fun x hx => hother x (hvis x hx)
    have := hdst.trans h.dst
    rw [hmap] at this
    exact this
  · intro x hx
    rcases List.mem_cons.mp hx with rfl | hx
    · rw [h.kept _ fun y hy e => by cases e; exact hn (hvis _ hy), hmem, Function.update_self]
    · rw [h.turned x hx, hother x (hvis x hx)]
  · intro p hp
    rw [h.kept p fun x hx => hp x (List.mem_cons_of_mem _ hx), hmem]
    exact Function.update_of_ne (hp n (List.mem_cons_self ..)) ..
  · rw [h.visited, hv, List.append_assoc]
    rfl

theorem loop_spec : ∀ {us : List ν} {fuel : Nat} {s : PollRun ν J} {rest : List (Ptr ν)} {qs : List ν}, us.length < fuel →
    s.mem.Chained rest → s.mem.queued rest = us ++ qs → s.untilPtr = qs.head?.map .node →
    (∀ n ∈ us, (s.mem.node (.node n)).state.Pollable) → ∃ s' vis unv, PollRun.loop fuel s = .ok s' ∧ Walked s s' us qs vis unv := by
  intro us
  induction us with
  | nil =>
    intro fuel s rest qs hf h hq hu _
    obtain ⟨fuel, rfl⟩ := Nat.exists_eq_succ_of_ne_zero (Nat.ne_of_gt hf)
    rw [PollRun.loop]
    by_cases hlen : s.dst.len < s.dst.capacity
    · obtain ⟨m, rest', hdeq, hc, hq', hnode⟩ := Memory.dequeueNode_until h hq (by simpa using hu)
      rw [if_pos hlen, hdeq]
      refine ⟨{ s with mem := m }, [], [], rfl, .all _, ⟨rest', hc, by simpa using hq'⟩, .refl _, by simp, fun p _ => ?_, by simp⟩
      exact congrFun hnode p
    · rw [if_neg hlen]
      exact ⟨s, [], [], rfl, .all _, ⟨rest, h, by simpa using hq⟩, .refl _, by simp, fun _ _ => rfl, by simp⟩
  | cons n us ih =>
    intro fuel s rest qs hf h hq hu hp
    obtain ⟨fuel, rfl⟩ := Nat.exists_eq_succ_of_ne_zero (Nat.ne_of_gt (Nat.lt_of_le_of_lt (Nat.zero_le _) hf))
    rw [PollRun.loop]
    by_cases hlen : s.dst.len < s.dst.capacity
    · have hnd : (n :: (us ++ qs)).Nodup := by
        have := h.queued_nodup
        rwa [hq] at this
      have hn := (List.nodup_cons.mp hnd).1
      have hun : s.untilPtr ≠ some (.node n) := by
        rw [hu]
        intro e
        obtain ⟨q, hq', he⟩ := Option.map_eq_some_iff.mp e
        cases he
        exact hn (List.mem_append_right _ (List.mem_of_mem_head? hq'))
      have hq₀ : s.mem.queued rest = n :: (us ++ qs) := hq
      obtain ⟨m, rest', hdeq, hc, hq', hnode⟩ := Memory.dequeueNode_data h hq₀ hun
      have hpn : (m.node (.node n)).state.Pollable := by
        rw [hnode]
        exact hp n (List.mem_cons_self ..)
      have hn' : n ∉ m.queued rest' := by rwa [hq']
      obtain ⟨t, rest₂, hround, ht⟩ := pollNode_spec (s := ⟨m, s.dst, s.untilPtr, s.visited ++ [.node n]⟩) hc hn' hpn
      have hmem : t.mem.node = update s.mem.node (.node n) (s.mem.node (.node n)).turn := by
        rw [ht.node, ← hnode]
      have hother : ∀ x ∈ us, t.mem.node (.node x) = s.mem.node (.node x) := by
        intro x hx
        rw [hmem]
        refine Function.update_of_ne (fun e => ?_) ..
        cases e
        exact hn (List.mem_append_left _ hx)
      have hlen' := ht.dst.len hpn
      have hqt := ht.queued
      change t.mem.queued rest₂ = m.queued rest' ++ _ at hqt
      rw [hq', List.append_assoc] at hqt
      have hut := ht.untilPtr.trans (until_put_back hu n _)
      obtain ⟨s', vis, unv, hloop, hw⟩ := ih (Nat.lt_of_succ_lt_succ hf) ht.chained hqt hut fun x hx => by
        rw [hother x hx]
        exact hp x (List.mem_cons_of_mem _ hx)
      refine ⟨s', n :: vis, unv, ?_, .cons (fun hm => hn (List.mem_append_left _ hm)) hlen ?_ ?_ hmem ht.visited ?_⟩
      · rw [if_pos hlen, hdeq]
        show (PollRun.pollNode _ _ >>= _) = _
        rw [hround]
        exact hloop
      · rw [← hnode]
        exact ht.dst
      · rw [← hnode]
        exact hlen'
      · rw [← hnode]
        exact hw
    · have hroom : s.dst.capacity - s.dst.len = 0 := by omega
      rw [if_neg hlen]
      refine ⟨s, [], n :: us, rfl, ?_, ⟨rest, h, by simpa using hq⟩, .refl _, by simp, fun _ _ => rfl, by simp⟩
      rw [hroom]
      exact .stop _

/-! ## The call -/

/-- A `poll` of a queue `xs` that visits `vis` and leaves `unv`. A node in the queue has the
    queue's reference, so there is one to release. -/
structure Polled (m : Memory ν J) (dst : Events J) (xs : List ν) (s : PollRun ν J) (vis unv : List ν) : Prop where
  stretch : Stretch (fun n => (m.node (.node n)).state) (dst.capacity - dst.len) xs vis unv
  visited : s.visited = vis.map .node
  gives : ∀ n ∈ vis, (m.node (.node n)).state.emits = true → ∃ t, (m.node (.node n)).token (m.node (.node n)).state.tokenWritePos = some t ∧
    (m.node (.node n)).event = some ⟨(m.node (.node n)).state.effectiveReadiness, t⟩
  dst : Pushed dst s.dst (vis.map fun n => m.node (.node n))
  queue : ∃ rest, s.mem.Chained rest ∧ s.mem.queued rest = unv ++ vis.filter fun n => (m.node (.node n)).state.staysOn
  flags : ∀ n ∈ xs, (s.mem.node (.node n)).state.isQueued = true ↔
    n ∈ (unv ++ vis.filter fun n => (m.node (.node n)).state.staysOn) ∨ (n ∈ vis ∧ (m.node (.node n)).state.isDropped = true)
  released : ∀ n ∈ vis, (s.mem.node (.node n)).refCount =
    (m.node (.node n)).refCount - if (m.node (.node n)).state.isDropped then 1 else 0
  others : ∀ p, (∀ n ∈ vis, p ≠ .node n) → s.mem.node p = m.node p

theorem turn_refCount (n : ReadinessNode Unit J) : n.turn.refCount = n.refCount - if n.state.isDropped then 1 else 0 := by
  unfold ReadinessNode.turn
  split <;> rfl

/-- After its visit a node has QUEUED if it stays on, or is dropped. -/
theorem turn_queued {n : ReadinessNode Unit J} (h : n.state.Pollable) :
    n.turn.state.isQueued = true ↔ n.state.staysOn = true ∨ n.state.isDropped = true := by
  unfold ReadinessNode.turn
  cases hd : n.state.isDropped with
  | true => simp [h.queued]
  | false =>
    have := h.requeued hd
    simpa using by rw [this]

/-- `poll` with nobody else about returns, whatever the queue and the room there is. -/
theorem poll_walks {m : Memory ν J} {rest : List (Ptr ν)} (h : m.Chained rest)
    (hp : ∀ n ∈ m.queued rest, (m.node (.node n)).state.Pollable) (dst : Events J) {fuel : Nat}
    (hf : (m.queued rest).length < fuel) :
    ∃ s vis unv, m.poll fuel dst = .ok s ∧ Polled m dst (m.queued rest) s vis unv := by
  obtain ⟨m₀, rest₀, hm₀, hc, hq, hnode⟩ : ∃ m₀ rest₀, (if dst.len = dst.capacity then m.clearSleepMarker else m) = m₀ ∧
      m₀.Chained rest₀ ∧ m₀.queued rest₀ = m.queued rest ∧ m₀.node = m.node := by
    by_cases hlen : dst.len = dst.capacity
    · obtain ⟨rest₀, hc, hq, hnode⟩ := Memory.clearSleepMarker_spec h
      exact ⟨_, rest₀, by rw [if_pos hlen], hc, hq, hnode⟩
    · exact ⟨m, rest, by rw [if_neg hlen], h, rfl, rfl⟩
  have hq₀ : m₀.queued rest₀ = m.queued rest ++ [] := by rw [List.append_nil, hq]
  have hp₀ : ∀ n ∈ m.queued rest, (m₀.node (.node n)).state.Pollable := by
    rw [hnode]
    exact hp
  obtain ⟨s, vis, unv, hloop, hw⟩ := loop_spec (s := ⟨m₀, dst, none, []⟩) hf hc hq₀ rfl hp₀
  have hpoll : m.poll fuel dst = .ok s := by
    unfold Memory.poll
    simp only [hm₀]
    exact hloop
  obtain ⟨hstretch, hqueue, hdst, hturned, hkept, hvisited⟩ := hw
  simp only [hnode, List.nil_append] at hstretch hqueue hdst hturned hkept hvisited
  have hvis : ∀ n ∈ vis, n ∈ m.queued rest := fun n hn => by rw [hstretch.fifo]; exact List.mem_append_left _ hn
  have hnd : (vis ++ unv).Nodup := hstretch.fifo ▸ h.queued_nodup
  refine ⟨s, vis, unv, hpoll, hstretch, hvisited, fun n hn he => ?_, hdst, hqueue, fun n hn => ?_, fun n hn => ?_, hkept⟩
  · obtain ⟨t, ht⟩ := (m.node (.node n)).token_some (hp n (hvis n hn)).slot
    exact ⟨t, ht, by simp [ReadinessNode.event, he, ht]⟩
  · by_cases hm : n ∈ vis
    · have hnu : n ∉ unv := fun hu => (List.nodup_append.mp hnd).2.2 n hm n hu rfl
      rw [hturned n hm, turn_queued (hp n hn)]
      simp [hm, hnu]
    · have hnu : n ∈ unv := (List.mem_append.mp (hstretch.fifo ▸ hn)).resolve_left hm
      rw [hkept (.node n) fun x hx e => by cases e; exact hm hx]
      simp [(hp n hn).queued, hnu]
  · rw [hturned n hn, turn_refCount]

/-- Three nodes in the queue: one level triggered and ready, one dropped, one that waits for
    what it has not. The first is visited, gives its event and is put back. -/
def threeNodes (n : Nat) : ReadinessNode Unit Nat :=
  let fresh : ReadinessNode Unit Nat := .unregistered
  match n with
  | 0 => { fresh with state := ⟨0x10211#64⟩, job := some 5 }
  | 1 => { fresh with state := ⟨0x30000#64⟩ }
  | _ => { fresh with state := ⟨0x10221#64⟩ }

theorem poll_walks_three : ∃ s vis unv,
    (((((Memory.new threeNodes).enqueueNode (.node 0)).1.enqueueNode (.node 1)).1.enqueueNode (.node 2)).1.poll 4 ⟨[], [], 2⟩ = .ok s ∧
      Polled ((((Memory.new threeNodes).enqueueNode (.node 0)).1.enqueueNode (.node 1)).1.enqueueNode (.node 2)).1 ⟨[], [], 2⟩
        [0, 1, 2] s vis unv) := by
  have h0 := Memory.new_chained threeNodes
  have h1 := (Memory.enqueueNode_spec h0 (by decide) (.inl ⟨0, rfl⟩)).1
  have h2 := (Memory.enqueueNode_spec h1 (by decide) (.inl ⟨1, rfl⟩)).1
  have h3 := (Memory.enqueueNode_spec h2 (by decide) (.inl ⟨2, rfl⟩)).1
  have hp : ∀ n ∈ [0, 1, 2], (threeNodes n).state.Pollable := by decide
  exact poll_walks h3 hp ⟨[], [], 2⟩ (show 3 < 4 by decide)

end Sickle.Poll
