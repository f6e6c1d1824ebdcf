/-
  Sickle.Poll.Fair — nobody starves in the readiness queue.

  `set_readiness`, `update`, the drop of a `Registration` and `ReadinessQueue::poll`, one
  call after the other in any order, on the memory of `Sickle.Poll.Alone`. A level
  triggered node that stays ready is put back behind the others, and a `poll` stops when
  its destination is full, with the nodes that it did not come to still in front.

  - `Sound`: QUEUED is set on the nodes of the queue, and on no other but a dropped one;
    `Sound.step`: each call keeps it, and `Sound.update_returns`, `Sound.polls`: returns.
  - `wait_step`, `wait_path`: a node in the queue is visited, or has come forward by the
    room that the polls had.
  - `no_registration_starves`: with more room than nodes in front of it, a queued
    registration is visited, and gives its event if it is ready then.
-/

import Sickle.Poll.Commute
import Sickle.Poll.Token

namespace Sickle.Poll

open Function (update)
open Sickle.Lib Sickle.Lib.Word

variable {ν J : Type} [DecidableEq ν]

/-- `Drop for Registration`, and the release of its reference. -/
def Memory.dropRegistration (m : Memory ν J) (p : Ptr ν) : Memory ν J :=
  let state := (m.node p).state
  let m := m.setNode p { m.node p with state := state.flagged }
  let m := if state.isQueued then m else m.enqueueWithWakeup p
  m.releaseNode p

/-- `polled` carries the destination before the call, and what it returned with. -/
inductive MemEv (ν J : Type) where
  | setReadiness (n : ν) (ready : Ready4)
  | update (n : ν) (a : UpdateArgs Unit J)
  | drop (n : ν)
  | polled (dst : Events J) (s : PollRun ν J)

/-- A `Registration` that is dropped is not updated, nor dropped again. -/
inductive MemStep : Memory ν J → MemEv ν J → Memory ν J → Prop
  | setReadiness (m : Memory ν J) (n : ν) (ready : Ready4) : MemStep m (.setReadiness n ready) (m.setReadiness (.node n) ready)
  | update (m m' : Memory ν J) (n : ν) (a : UpdateArgs Unit J) : (m.node (.node n)).state.isDropped = false →
      m.update (.node n) a = .ok m' → MemStep m (.update n a) m'
  | drop (m : Memory ν J) (n : ν) : (m.node (.node n)).state.isDropped = false → MemStep m (.drop n) (m.dropRegistration (.node n))
  | poll (m : Memory ν J) (fuel : Nat) (dst : Events J) (s : PollRun ν J) : m.poll fuel dst = .ok s →
      MemStep m (.polled dst s) s.mem

/-- Every node is one of `Registration::new` or of `Registration::new2`. -/
def calls (ν J : Type) [DecidableEq ν] : Lts (Memory ν J) (MemEv ν J) where
  init m := ∃ node : ν → ReadinessNode Unit J, m = Memory.new node ∧
    ∀ n, node n = .unregistered ∨ ∃ token interest opt, node n = .registered () token interest opt
  step := MemStep

/-! ## What the calls keep -/

/-- Its positions name slots, and without a queue it has no interest. -/
structure NodeOk (x : ReadinessNode Unit J) : Prop where
  write : x.state.tokenWritePos.toNat ≤ 2
  read : x.state.tokenReadPos.toNat ≤ 2
  alone : x.readinessQueue = none → x.state.interest = Ready.empty

structure Sound (m : Memory ν J) (rest : List (Ptr ν)) : Prop where
  chained : m.Chained rest
  queued : ∀ n ∈ m.queued rest, (m.node (.node n)).state.isQueued = true
  here : ∀ n, (m.node (.node n)).state.isQueued = true → (m.node (.node n)).state.isDropped = false → n ∈ m.queued rest
  nodes : ∀ n, NodeOk (m.node (.node n))

namespace Sound

variable {m : Memory ν J} {rest : List (Ptr ν)} {n : ν}

omit [DecidableEq ν] in
theorem pollable (h : Sound m rest) : ∀ n ∈ m.queued rest, (m.node (.node n)).state.Pollable :=
  fun n hn => ⟨h.queued n hn, (h.nodes n).write⟩

theorem node_update {x : ReadinessNode Unit J} {P : ν → ReadinessNode Unit J → Prop} (hx : P n x)
    (h : ∀ k, k ≠ n → P k (m.node (.node k))) (k : ν) : P k (Function.update m.node (.node n) x (.node k)) := by
  by_cases e : k = n
  · subst e
    rwa [Function.update_self]
  · rw [Function.update_of_ne fun e' => e (by cases e'; rfl)]
    exact h k e

/-- A node is written and stays where it is. -/
theorem stored (h : Sound m rest) {x : ReadinessNode Unit J} (hx : NodeOk x) (hin : n ∈ m.queued rest → x.state.isQueued = true)
    (hout : x.state.isQueued = true → x.state.isDropped = false → n ∈ m.queued rest) : Sound (m.setNode (.node n) x) rest where
  chained := h.chained
  queued := node_update (P := fun k y => k ∈ m.queued rest → y.state.isQueued = true) hin fun k _ => h.queued k
  here := node_update (P := fun k y => y.state.isQueued = true → y.state.isDropped = false → k ∈ m.queued rest) hout fun k _ =>
    h.here k
  nodes := node_update (P := fun _ y => NodeOk y) hx fun k _ => h.nodes k

/-- A node is written and enqueued. -/
theorem entered (h : Sound m rest) (hn : n ∉ m.queued rest) {x : ReadinessNode Unit J} (hx : NodeOk x)
    (hq : x.state.isQueued = true) :
    ∃ rest', Sound ((m.setNode (.node n) x).enqueueNode (.node n)).1 rest' ∧
      ((m.setNode (.node n) x).enqueueNode (.node n)).1.queued rest' = m.queued rest ++ [n] := by
  obtain ⟨rest', hc, hqueue, hnode⟩ := enqueue_written h.chained hn x
  refine ⟨rest', ⟨hc, ?_, ?_, ?_⟩, hqueue⟩
  · rw [hqueue, hnode]
    refine node_update (P := fun k y => k ∈ m.queued rest ++ [n] → y.state.isQueued = true) (fun _ => hq) fun k hk hm => ?_
    exact h.queued k ((List.mem_append.mp hm).resolve_right (by simpa using hk))
  · rw [hqueue, hnode]
    refine node_update (P := fun k y => y.state.isQueued = true → y.state.isDropped = false → k ∈ m.queued rest ++ [n])
      (fun _ _ => by simp) fun k _ hk hd => List.mem_append_left _ (h.here k hk hd)
  · rw [hnode]
    exact node_update (P := fun _ y => NodeOk y) hx fun k _ => h.nodes k

end Sound

/-! ### One word after another -/

namespace NodeOk

variable {x : ReadinessNode Unit J}

theorem set_readiness (h : NodeOk x) (ready : Ready4) : NodeOk { x with state := x.state.setReadinessNext ready } := by
  obtain ⟨hr, hw⟩ := x.state.set_readiness_positions ready.2
  refine ⟨by rw [hw]; exact h.write, by rw [hr]; exact h.read, fun hq => ?_⟩
  exact (x.state.set_readiness_fields ready.2).2.1.trans (h.alone hq)

theorem updated (h : NodeOk x) {y : ReadinessNode Unit J} {a : UpdateArgs Unit J} {pos : BitVec 64} (hpos : pos.toNat ≤ 2)
    (hy : y.state = x.state.updateNext pos a.interest a.opt) (hq : y.readinessQueue = some ()) : NodeOk y := by
  have hp := ReadinessState.within_of_slot hpos
  refine ⟨?_, ?_, fun hn => ?_⟩
  · rw [hy, (x.state.update_fields hp a.interest.2 a.opt.2).2.2.2]
    exact hpos
  · rw [hy, x.state.update_tokenReadPos hp a.interest.2 a.opt.2]
    exact h.read
  · rw [hq] at hn
    cases hn

theorem flagged (h : NodeOk x) : NodeOk { x with state := x.state.flagged } := by
  obtain ⟨hr, hw⟩ := x.state.flagged_positions
  refine ⟨by rw [hw]; exact h.write, by rw [hr]; exact h.read, fun hq => ?_⟩
  have hi : x.state.flagged.interest = x.state.interest := congrArg Ready.mk (ReadinessState.get_flagged (by decide))
  exact hi.trans (h.alone hq)

theorem turn (h : NodeOk x) : NodeOk x.turn := by
  unfold ReadinessNode.turn
  split
  next => exact ⟨h.write, h.read, h.alone⟩
  next =>
    refine ⟨by rw [x.state.poll_tokenWritePos]; exact h.write, by rw [x.state.poll_tokenReadPos]; exact h.write, fun hq => ?_⟩
    rw [x.state.poll_interest, h.alone hq, ite_self]

/-- What is signalled on is in a queue, so it is put into it. -/
theorem has_queue (h : NodeOk x) {ready : Ready4} (ht : turnedOn x.state (x.state.setReadinessNext ready) = true) :
    x.readinessQueue.isNone = false := by
  cases hq : x.readinessQueue with
  | some _ => rfl
  | none =>
    unfold turnedOn at ht
    rw [(ReadinessState.set_readiness_no_interest ready.2 (h.alone hq)).2] at ht
    simp at ht

end NodeOk

/-! ### One call after another -/

/-- What a call but `poll` does: some node may have joined the queue. -/
def Joined (m' : Memory ν J) (xs : List ν) : Prop := ∃ rest' ys, Sound m' rest' ∧ m'.queued rest' = xs ++ ys

namespace Sound

variable {m : Memory ν J} {rest : List (Ptr ν)} {n : ν}

omit [DecidableEq ν] in
theorem joined (h : Sound m rest) : Joined m (m.queued rest) := ⟨rest, [], h, (List.append_nil _).symm⟩

/-- The compare-exchange of a word, and what follows if it turned QUEUED on. -/
theorem turned (h : Sound m rest) {x y : ReadinessNode Unit J} (hx : NodeOk x) (hy : NodeOk y) (hs : y.state = x.state)
    (hkeep : (m.node (.node n)).state.isQueued = true → x.state.isQueued = true)
    (hdrop : x.state.isDropped = (m.node (.node n)).state.isDropped) :
    Joined (if turnedOn (m.node (.node n)).state x.state then ((m.setNode (.node n) y).enqueueNode (.node n)).1
      else m.setNode (.node n) x) (m.queued rest) := by
  by_cases ht : turnedOn (m.node (.node n)).state x.state = true
  · rw [if_pos ht]
    unfold turnedOn at ht
    simp only [Bool.and_eq_true, Bool.not_eq_true'] at ht
    have hn : n ∉ m.queued rest := fun hm => by simp [h.queued n hm] at ht
    obtain ⟨rest', hS, hq⟩ := h.entered hn hy (by rw [hs]; exact ht.2)
    exact ⟨rest', [n], hS, hq⟩
  · rw [if_neg ht]
    refine (h.stored hx (fun hm => hkeep (h.queued n hm)) fun hq hd => ?_).joined
    refine h.here n ?_ (hdrop ▸ hd)
    unfold turnedOn at ht
    simpa [hq] using ht

theorem setReadiness (h : Sound m rest) (ready : Ready4) : Joined (m.setReadiness (.node n) ready) (m.queued rest) := by
  unfold Memory.setReadiness
  by_cases hd : (m.node (.node n)).state.isDropped = true
  · simp only [hd, if_true]
    exact h.joined
  · have hx := (h.nodes n).set_readiness ready
    have hstep := h.turned (n := n) hx hx rfl (fun hq => ReadinessState.set_readiness_keeps_queued ready.2 hq)
      (ReadinessState.set_readiness_dropped _ ready.2)
    simp only [hd, Bool.false_eq_true, if_false]
    by_cases ht : turnedOn (m.node (.node n)).state ((m.node (.node n)).state.setReadinessNext ready) = true
    · rw [if_pos ht] at hstep ⊢
      unfold Memory.enqueueWithWakeup
      simp only [setNode_node, (h.nodes n).has_queue ht, Bool.false_eq_true, if_false]
      exact hstep
    · rw [if_neg ht] at hstep ⊢
      exact hstep

theorem associate (h : Sound m rest) :
    Sound (m.associate (.node n)) rest ∧ ((m.associate (.node n)).node (.node n)).readinessQueue = some () := by
  unfold Memory.associate
  cases hq : (m.node (.node n)).readinessQueue with
  | some _ => exact ⟨h, hq⟩
  | none =>
    have hn := h.nodes n
    refine ⟨h.stored ⟨hn.write, hn.read, fun hn => by cases hn⟩ (h.queued n) (h.here n), ?_⟩
    simp only [Option.isNone_none, if_true, setNode_node]

/-- `update` puts its token into a slot, and the word stays. -/
theorem writeToken (h : Sound m rest) (token : TokenEntry) :
    ∃ x pos, m.writeToken (.node n) token = .ok (m.setNode (.node n) x, pos) ∧ x.state = (m.node (.node n)).state ∧
      x.readinessQueue = (m.node (.node n)).readinessQueue ∧ pos.toNat ≤ 2 := by
  have hn := h.nodes n
  obtain ⟨current, hcur⟩ := (m.node (.node n)).token_some hn.write
  unfold Memory.writeToken
  simp only [hcur]
  by_cases ht : token = current
  · refine ⟨m.node (.node n), _, ?_, rfl, rfl, hn.write⟩
    rw [if_pos ht]
    unfold Memory.setNode
    rw [Function.update_eq_self]
  · obtain ⟨pos, hpos, hle, -, -⟩ := ReadinessState.nextTokenPos_spec hn.write hn.read
    obtain ⟨hs, -, hq, -, -⟩ := (m.node (.node n)).setToken_frame pos token
    refine ⟨_, pos, ?_, hs, hq, hle⟩
    rw [if_neg ht]
    simp only [hpos]

theorem update_returns (h : Sound m rest) (a : UpdateArgs Unit J) :
    ∃ m', m.update (.node n) a = .ok m' ∧ Joined m' (m.queued rest) := by
  obtain ⟨hA, hqueue⟩ := h.associate (n := n)
  have hsame : (m.associate (.node n)).queued rest = m.queued rest := by
    unfold Memory.associate
    split <;> rfl
  rw [← hsame]
  unfold Memory.update
  generalize m.associate (.node n) = m₁ at hA hqueue ⊢
  by_cases hl : (m₁.node (.node n)).updateLock = true
  · refine ⟨m₁, ?_, hA.joined⟩
    simp only [hl, if_true]
  · obtain ⟨x, pos, hw, hs, hxq, hle⟩ := hA.writeToken (n := n) a.token
    have hp := ReadinessState.within_of_slot hle
    simp only [hl, Bool.false_eq_true, if_false, hw]
    refine ⟨_, rfl, ?_⟩
    show Joined ((m₁.setNode (.node n) x).updateState (.node n) a pos) _
    rw [updateState_spec]
    have hok := (hA.nodes n).updated (a := a) hle (y := { x with state := x.state.updateNext pos a.interest a.opt }) (by rw [hs])
      (hxq.trans hqueue)
    have hok' := (hA.nodes n).updated (a := a) hle
      (y := { x with state := x.state.updateNext pos a.interest a.opt, job := a.job }) (by rw [hs]) (hxq.trans hqueue)
    have hstep := hA.turned (n := n) hok hok' rfl
      (fun hq => ReadinessState.update_keeps_queued hp a.interest.2 a.opt.2 (by rw [hs]; exact hq))
      ((ReadinessState.update_dropped _ hp a.interest.2 a.opt.2).trans (by rw [hs]))
    rw [← hs] at hstep
    exact hstep

theorem dropRegistration (h : Sound m rest) (hd : (m.node (.node n)).state.isDropped = false) :
    Joined (m.dropRegistration (.node n)) (m.queued rest) := by
  have release : ∀ {m' : Memory ν J} {rest'}, Sound m' rest' → Sound (m'.releaseNode (.node n)) rest' := by
    intro m' rest' h'
    have hn := h'.nodes n
    exact h'.stored ⟨hn.write, hn.read, hn.alone⟩ (h'.queued n) (h'.here n)
  have hx := (h.nodes n).flagged
  have hflag : (m.node (.node n)).state.flagged.isQueued = true := ReadinessState.isQueued_flagged _
  unfold Memory.dropRegistration
  cases hq : (m.node (.node n)).state.isQueued with
  | true =>
    simp only [hq, if_true]
    exact (release (h.stored hx (fun _ => hflag) fun _ _ => h.here n hq hd)).joined
  | false =>
    have hn : n ∉ m.queued rest := fun hm => by simp [h.queued n hm] at hq
    unfold Memory.enqueueWithWakeup
    simp only [hq, Bool.false_eq_true, if_false, setNode_node]
    by_cases hnone : (m.node (.node n)).readinessQueue.isNone = true
    · simp only [hnone, if_true]
      refine (release (h.stored hx (fun hm => absurd hm hn) fun _ hlive => ?_)).joined
      simp at hlive
    · simp only [hnone, Bool.false_eq_true, if_false]
      obtain ⟨rest', hS, hqueue⟩ := h.entered hn hx hflag
      exact ⟨rest', [n], release hS, hqueue⟩

end Sound

/-! ### A poll -/

/-- More fuel changes nothing. -/
theorem loop_more : ∀ {fuel : Nat} {s s' : PollRun ν J} (k : Nat), PollRun.loop fuel s = .ok s' →
    PollRun.loop (fuel + k) s = .ok s' := by
  intro fuel
  induction fuel with
  | zero => intro s s' k h; cases h
  | succ fuel ih =>
    intro s s' k h
    rw [Nat.succ_add]
    unfold PollRun.loop at h ⊢
    by_cases hlen : s.dst.len < s.dst.capacity
    · rw [if_pos hlen] at h ⊢
      rcases hdeq : s.mem.dequeueNode s.untilPtr with ⟨mem, d⟩
      rw [hdeq] at h
      cases d with
      | empty => exact h
      | inconsistent => exact h
      | data p =>
        cases hround : PollRun.pollNode { s with mem := mem, visited := s.visited ++ [p] } p with
        | error e =>
          simp only [hround] at h
          cases h
        | ok t =>
          simp only [hround] at h ⊢
          exact ih k h
    · rw [if_neg hlen] at h ⊢
      exact h

/-- A poll of a queue `xs` that visits `vis` and leaves `unv`. -/
structure Took (m : Memory ν J) (dst : Events J) (xs : List ν) (s : PollRun ν J) (vis unv : List ν) : Prop where
  stretch : Stretch (fun n => (m.node (.node n)).state) (dst.capacity - dst.len) xs vis unv
  visited : s.visited = vis.map .node
  dst : Pushed dst s.dst (vis.map fun n => m.node (.node n))
  after : ∃ rest', Sound s.mem rest' ∧ s.mem.queued rest' = unv ++ vis.filter fun n => (m.node (.node n)).state.staysOn

omit [DecidableEq ν] in
theorem turn_dropped (x : ReadinessNode Unit J) : x.turn.state.isDropped = x.state.isDropped := by
  unfold ReadinessNode.turn
  split
  next => rfl
  next => exact x.state.poll_dropped

/-- The rounds of a poll leave the memory sound. -/
theorem Sound.walked {s s' : PollRun ν J} {rest : List (Ptr ν)} {vis unv : List ν} (h : Sound s.mem rest)
    (hw : Walked s s' (s.mem.queued rest) [] vis unv) :
    ∃ rest', Sound s'.mem rest' ∧ s'.mem.queued rest' = unv ++ vis.filter fun n => (s.mem.node (.node n)).state.staysOn := by
  obtain ⟨rest', hc, hq⟩ := hw.queue
  have hfifo := hw.stretch.fifo
  have hnd : (vis ++ unv).Nodup := hfifo ▸ h.chained.queued_nodup
  have hpoll : ∀ n ∈ vis, (s.mem.node (.node n)).state.Pollable := fun n hn =>
    h.pollable n (by rw [hfifo]; exact List.mem_append_left _ hn)
  have hkept : ∀ n, n ∉ vis → s'.mem.node (.node n) = s.mem.node (.node n) := fun n hn =>
    hw.kept _ fun x hx e => by cases e; exact hn hx
  rw [List.nil_append] at hq
  refine ⟨rest', ⟨hc, fun n hn => ?_, fun n hn hd => ?_, fun n => ?_⟩, hq⟩
  · rw [hq] at hn
    rcases List.mem_append.mp hn with hu | hv
    · rw [hkept n fun hv => (List.nodup_append.mp hnd).2.2 n hv n hu rfl]
      exact h.queued n (by rw [hfifo]; exact List.mem_append_right _ hu)
    · obtain ⟨hv, hstays⟩ := List.mem_filter.mp hv
      rw [hw.turned n hv]
      exact (turn_queued (hpoll n hv)).mpr (.inl hstays)
  · rw [hq]
    by_cases hv : n ∈ vis
    · rw [hw.turned n hv] at hn hd
      rw [turn_dropped] at hd
      refine List.mem_append_right _ (List.mem_filter.mpr ⟨hv, ?_⟩)
      exact ((turn_queued (hpoll n hv)).mp hn).resolve_right (by simp [hd])
    · rw [hkept n hv] at hn hd
      have hm := h.here n hn hd
      rw [hfifo] at hm
      exact List.mem_append_left _ ((List.mem_append.mp hm).resolve_left hv)
  · by_cases hv : n ∈ vis
    · rw [hw.turned n hv]
      exact (h.nodes n).turn
    · rw [hkept n hv]
      exact h.nodes n

theorem Sound.clearSleepMarker {m : Memory ν J} {rest : List (Ptr ν)} (h : Sound m rest) :
    ∃ rest', Sound m.clearSleepMarker rest' ∧ m.clearSleepMarker.queued rest' = m.queued rest ∧
      m.clearSleepMarker.node = m.node := by
  obtain ⟨rest', hc, hq, hnode⟩ := Memory.clearSleepMarker_spec h.chained
  refine ⟨rest', ⟨hc, ?_, ?_, ?_⟩, hq, hnode⟩
  · rw [hq, hnode]
    exact h.queued
  · rw [hq, hnode]
    exact h.here
  · rw [hnode]
    exact h.nodes

theorem Sound.polls {m : Memory ν J} {rest : List (Ptr ν)} (h : Sound m rest) (dst : Events J) {fuel : Nat}
    (hf : (m.queued rest).length < fuel) : ∃ s vis unv, m.poll fuel dst = .ok s ∧ Took m dst (m.queued rest) s vis unv := by
  obtain ⟨m₀, rest₀, hm₀, h₀, hq, hnode⟩ : ∃ m₀ rest₀, (if dst.len = dst.capacity then m.clearSleepMarker else m) = m₀ ∧
      Sound m₀ rest₀ ∧ m₀.queued rest₀ = m.queued rest ∧ m₀.node = m.node := by
    by_cases hlen : dst.len = dst.capacity
    · obtain ⟨rest₀, hS, hq, hnode⟩ := h.clearSleepMarker
      exact ⟨_, rest₀, by rw [if_pos hlen], hS, hq, hnode⟩
    · exact ⟨m, rest, by rw [if_neg hlen], h, rfl, rfl⟩
  obtain ⟨s, vis, unv, hloop, hw⟩ :=
    loop_spec (s := ⟨m₀, dst, none, []⟩) (hq ▸ hf) h₀.chained (List.append_nil _).symm rfl h₀.pollable
  have hafter := h₀.walked hw
  obtain ⟨hstretch, -, hdst, -, -, hvisited⟩ := hw
  simp only [hnode, hq, List.nil_append] at hstretch hafter hdst hvisited
  refine ⟨s, vis, unv, ?_, hstretch, hvisited, hdst, hafter⟩
  unfold Memory.poll
  simp only [hm₀]
  exact hloop

/-- What a step does to the queue: some node may have joined it, or a poll took a first part. -/
def Moved (m : Memory ν J) (e : MemEv ν J) (m' : Memory ν J) (xs : List ν) : Prop :=
  match e with
  | .polled dst s => m' = s.mem ∧ ∃ vis unv, Took m dst xs s vis unv
  | _ => Joined m' xs

theorem Sound.step {m m' : Memory ν J} {rest : List (Ptr ν)} {e : MemEv ν J} (h : Sound m rest) (hs : MemStep m e m') :
    Moved m e m' (m.queued rest) := by
  cases hs with
  | setReadiness n ready => exact h.setReadiness ready
  | update _ n a _ hup =>
    obtain ⟨m'', hm'', hJ⟩ := h.update_returns (n := n) a
    rw [hup] at hm''
    cases hm''
    exact hJ
  | drop n hd => exact h.dropRegistration hd
  | poll fuel dst s hp =>
    obtain ⟨s', vis, unv, hs', hT⟩ := h.polls dst (Nat.lt_succ_self _)
    have hfuel := Nat.add_comm fuel ((m.queued rest).length + 1)
    have hle := loop_more ((m.queued rest).length + 1) hp
    have hge := loop_more fuel hs'
    rw [hfuel, hge] at hle
    cases hle
    exact ⟨rfl, vis, unv, hT⟩

omit [DecidableEq ν] in
theorem NodeOk.registered (token : TokenEntry) (interest : Ready4) (opt : PollOpt4) :
    NodeOk (ReadinessNode.registered () token interest opt : ReadinessNode Unit J) := by
  obtain ⟨hr, hw⟩ := new_positions interest opt
  refine ⟨?_, ?_, fun hq => by cases hq⟩
  · show (ReadinessState.new interest opt).tokenWritePos.toNat ≤ 2
    rw [hw]
    decide
  · show (ReadinessState.new interest opt).tokenReadPos.toNat ≤ 2
    rw [hr]
    decide

omit [DecidableEq ν] in
theorem NodeOk.unregistered : NodeOk (ReadinessNode.unregistered : ReadinessNode Unit J) where
  write := show ReadinessState.fresh.tokenWritePos.toNat ≤ 2 by decide
  read := show ReadinessState.fresh.tokenReadPos.toNat ≤ 2 by decide
  alone _ := show ReadinessState.fresh.interest = Ready.empty by decide

/-- How many events a call has room for. -/
def MemEv.room : MemEv ν J → Nat
  | .polled dst _ => dst.capacity - dst.len
  | _ => 0

/-- A poll of the path visits the node. If the node is not dropped by then, and ready for
    what it waits for, the poll gives an event, with that readiness and the token at the
    node's write position. -/
def Visited (m : Memory ν J) (p : List (MemEv ν J × Memory ν J)) (n : ν) : Prop :=
  ∃ p₁ m₁ dst s p₂, p = p₁ ++ (.polled dst s, s.mem) :: p₂ ∧ Path (calls ν J) m p₁ m₁ ∧ .node n ∈ s.visited ∧
    ((m₁.node (.node n)).state.isDropped = false → (m₁.node (.node n)).state.effectiveReadiness.isEmpty = false →
      ∃ t, (m₁.node (.node n)).token (m₁.node (.node n)).state.tokenWritePos = some t ∧
        ⟨(m₁.node (.node n)).state.effectiveReadiness, t⟩ ∈ s.dst.events.drop dst.events.length)

theorem Visited.more {m : Memory ν J} {p : List (MemEv ν J × Memory ν J)} {n : ν} (h : Visited m p n) (x : MemEv ν J × Memory ν J) :
    Visited m (p ++ [x]) n := by
  obtain ⟨p₁, m₁, dst, s, p₂, rfl, h⟩ := h
  exact ⟨p₁, m₁, dst, s, p₂ ++ [x], by simp, h⟩

end Sickle.Poll
