/-
  Sickle.Poll.Refs — reference counts of readiness nodes are exact.

  - `refs_counted`: in every run a quiet node has one reference for each handle that is left
    and one for the queue until that released it, which it does at most once; the node is
    freed when the count comes to zero, so once, with no handle left and not in the queue.
  - `refs_exact`: in every run in which the drop of the queue, where it looks behind the end
    or the sleep marker, finds the link written, it leaves no queued node unreleased either.
  - `refs_leaked`: without that the drop takes a queue for empty whose first node a thread
    has still to link, and neither that node nor any behind it is ever released.
-/

import Sickle.Poll.Drain

namespace Sickle.Poll

open Function (update)
open Sickle.Lib

variable {ι ν J : Type}

/-! ## Every step keeps the ledgers -/

section Steps

variable [DecidableEq ι] [DecidableEq ν] {s t : Shared ι ν J} {e : SharedEv ι ν J}

/-- The drop of the queue has the node in hand. -/
def DropPc.hand (pc : DropPc ν) (n : ν) : Bool := decide (pc = .releasing n)

structure SharedInv (s : Shared ι ν J) : Prop where
  ledger : ∀ n, ∃ own pend, Ledger (s.nodes n) (s.life n) (s.pc.hand n) own pend
  parted : s.pc ≠ .alive → ∀ n i, (s.life n).task i ≠ some .update
  stage : Alive s ∨ Closing s ∨ ∃ rest, Draining s rest

omit [DecidableEq ι] in
/-- One node moves, with its handles. -/
theorem ledgers_update {nodes : ν → NodeSt ι Unit J} {life : ν → Life ι} {pc pc' : DropPc ν}
    (h : ∀ m, ∃ own pend, Ledger (nodes m) (life m) (pc.hand m) own pend) {n : ν} {x : NodeSt ι Unit J} {l : Life ι}
    (hn : ∃ own pend, Ledger x l (pc'.hand n) own pend) (hpc : ∀ m, m ≠ n → pc'.hand m = pc.hand m) (m : ν) :
    ∃ own pend, Ledger (update nodes n x m) (update life n l m) (pc'.hand m) own pend := by
  by_cases e : m = n
  · subst e
    rw [Function.update_self, Function.update_self]
    exact hn
  · rw [Function.update_of_ne e, Function.update_of_ne e, hpc m e]
    exact h m

omit [DecidableEq ι] in
theorem hand_same {pc : DropPc ν} (pc' : DropPc ν) (h : ∀ n, pc ≠ .releasing n) (h' : ∀ n, pc' ≠ .releasing n) (n : ν) :
    pc'.hand n = pc.hand n := by
  simp [DropPc.hand, h, h']

omit [DecidableEq ν] in
/-- What the nodes take part in with the queue is no matter of the handles. -/
theorem after_meets {n : ν} {f : NodeEv ι Unit J} {g : Ev (ι × ν) ν} (hm : Meets n f g) (l : Life ι) (c : Nat) (alive : Prop) :
    l.after c f = l ∧ l.Allows alive f := by
  cases hm <;> exact ⟨rfl, trivial⟩

/-- What the drop of the queue gave up, it gave up after the `Poll` was dropped. -/
theorem SharedInv.taken_late (h : SharedInv s) {n : ν} (ht : (s.life n).taken = true) : s.pc ≠ .alive := by
  intro hpc
  rcases h.stage with ha | hc | ⟨rest, hd⟩
  · rw [ha.intact n] at ht
    cases ht
  · rw [hc.intact n] at ht
    cases ht
  · have := hd.drop
    rw [hpc] at this
    exact this

/-- `enqueue_node` comes upon the closed marker only after the `Poll` was dropped. -/
theorem SharedInv.refused_late (h : SharedInv s) {g : Agent (ι × ν)} {p : Ptr ν}
    (h0 : s.queue.flight g = some (.swap p .closedMarker)) : s.pc ≠ .alive := by
  intro hpc
  rcases h.stage with ha | hc | ⟨rest, hd⟩
  · exact ha.world.not_refused h0
  · rw [hc.pc] at hpc
    cases hpc
  · have := hd.drop
    rw [hpc] at this
    exact this

theorem ledgers_step (h : SharedInv s) (hs : SharedStep s e t) (n : ν) :
    ∃ own pend, Ledger (t.nodes n) (t.life n) (t.pc.hand n) own pend := by
  have hany : ∀ n, ∃ hand own pend, Ledger (s.nodes n) (s.life n) hand own pend := fun n => ⟨_, h.ledger n⟩
  cases hs with
  | node m f x hx hf ha =>
    obtain ⟨own, pend, hl⟩ := h.ledger m
    exact ledgers_update h.ledger (ledger_step hl hx ha h.taken_late) (fun _ _ => rfl) n
  | queue f q hq hf hsame hc => exact h.ledger n
  | poll f q _ hq hf hc hcall => exact h.ledger n
  | both m f g x q hm hx hq hal =>
    obtain ⟨own, pend, hl⟩ := h.ledger m
    obtain ⟨hafter, hallow⟩ := after_meets hm (s.life m) (s.nodes m).node.refCount False
    have := ledger_step hl hx hallow (fun _ hf => hf)
    rw [hafter] at this
    have := ledgers_update h.ledger this (fun _ _ => rfl) n
    rwa [Function.update_eq_self] at this
  | refused i m hpc h0 =>
    obtain ⟨own, pend, hl⟩ := h.ledger m
    have hh : s.pc.hand m = false := by
      by_contra hh
      have ht := hl.hand (by simpa using hh)
      rw [hl.not_taken (by rw [(hl.enqueuing hpc).1]; simp)] at ht
      cases ht
    have := hl.refuse hpc (h.parted (h.refused_late h0) m)
    rw [← hh] at this
    exact ledgers_update h.ledger ⟨_, _, this⟩ (fun _ _ => rfl) n
  | clone m hset _ =>
    obtain ⟨own, pend, hl⟩ := h.ledger m
    exact ledgers_update h.ledger ⟨_, _, hl.clone hset⟩ (fun _ _ => rfl) n
  | dropSetReadiness m hset _ =>
    obtain ⟨own, pend, hl⟩ := h.ledger m
    exact ledgers_update h.ledger ⟨_, _, hl.dropSetReadiness hset⟩ (fun _ _ => rfl) n
  | dropRegistration i m ok htask hpc =>
    obtain ⟨own, pend, hl⟩ := h.ledger m
    exact ledgers_update h.ledger ⟨_, _, hl.dropRegistration htask hpc⟩ (fun _ _ => rfl) n
  | close hpc _ _ _ =>
    have := h.ledger n
    rwa [← hand_same .closing (by simp [hpc]) (by simp) n] at this
  | closed w hpc _ =>
    have := h.ledger n
    rwa [← hand_same .draining (by simp [hpc]) (by simp) n] at this
  | drain f q hpc hq hf hc hcall he => exact h.ledger n
  | taken m q hpc hq =>
    obtain ⟨own, pend, hl⟩ := h.ledger m
    rw [show s.pc.hand m = false by simp [DropPc.hand, hpc]] at hl
    have hlinked : 0 < (s.nodes m).linked := by
      rcases h.stage with ha | hc | ⟨rest, hd⟩
      · rw [ha.pc] at hpc
        cases hpc
      · rw [hc.pc] at hpc
        cases hpc
      · exact (hd.taken hpc hany hq s.life).1
    have := hl.take hlinked (h.parted (by simp [hpc]) m)
    refine ledgers_update h.ledger ⟨own, pend, ?_⟩ (fun k hk => ?_) n
    · simpa [DropPc.hand] using this
    · simp [DropPc.hand, hpc, Ne.symm hk]
  | release m hpc =>
    obtain ⟨own, pend, hl⟩ := h.ledger m
    rw [show s.pc.hand m = true by simp [DropPc.hand, hpc]] at hl
    refine ledgers_update h.ledger ⟨own, pend, ?_⟩ (fun k hk => ?_) n
    · simpa [DropPc.hand] using hl.give
    · simp [DropPc.hand, hpc, Ne.symm hk]
  | dropped q hpc _ =>
    have := h.ledger n
    rwa [← hand_same .dropped (by simp [hpc]) (by simp) n] at this

omit [DecidableEq ι] in
theorem parted_update {life : ν → Life ι} (h : ∀ m i, (life m).task i ≠ some .update) {n : ν} {l : Life ι}
    (hl : ∀ i, l.task i ≠ some .update) : ∀ m i, (update life n l m).task i ≠ some .update :=
  (Function.forall_update_iff life fun _ l => ∀ i, l.task i ≠ some .update).mpr ⟨hl, fun m _ => h m⟩

omit [DecidableEq ν] in
/-- Without the `Poll` nobody calls `update`. -/
theorem after_parted {l : Life ι} {f : NodeEv ι Unit J} {alive : Prop} (h : ∀ i, l.task i ≠ some .update) (ha : l.Allows alive f)
    (hal : ¬ alive) (c : Nat) (i : ι) : (l.after c f).task i ≠ some .update := by
  have turn : ∀ (j : ι) (o : Option Task), o ≠ some .update → update l.task j o i ≠ some .update := by
    intro j o ho
    by_cases e : i = j
    · subst e
      rwa [Function.update_self]
    · rw [Function.update_of_ne e]
      exact h i
  cases f with
  | called j call =>
    cases call with
    | setReadiness ready => exact turn j _ (by simp)
    | update a => exact absurd ha.2 hal
  | dropped j => exact turn j _ (by simp)
  | returned j ok => exact turn j _ (by simp)
  | released =>
    rw [show (l.after c (NodeEv.released : NodeEv ι Unit J)).task = l.task from (l.releaseNode_fields c).2.2.1]
    exact h i
  | _ => exact h i

theorem parted_step (h : SharedInv s) (hs : SharedStep s e t) (ht : t.pc ≠ .alive) (n : ν) (i : ι) :
    (t.life n).task i ≠ some .update := by
  have same : ∀ m c, ((s.life m).releaseNode c).task = (s.life m).task := fun m c => ((s.life m).releaseNode_fields c).2.2.1
  cases hs with
  | node m f x hx hf ha => exact parted_update (h.parted ht) (after_parted (h.parted ht m) ha ht _) n i
  | queue f q hq hf hsame hc => exact h.parted ht n i
  | poll f q hpc hq hf hc hcall => exact absurd hpc ht
  | both m f g x q hm hx hq hal => exact h.parted ht n i
  | refused j m hpc h0 =>
    refine parted_update (h.parted ht) (fun k => ?_) n i
    show ((s.life m).releaseNode _).task k ≠ _
    rw [same]
    exact h.parted ht m k
  | clone m _ _ =>
    refine parted_update (h.parted ht) (fun k => ?_) n i
    exact h.parted ht m k
  | dropSetReadiness m _ _ =>
    refine parted_update (h.parted ht) (fun k => ?_) n i
    show ((s.life m).releaseNode _).task k ≠ _
    rw [same]
    exact h.parted ht m k
  | dropRegistration j m ok htask hpc =>
    refine parted_update (h.parted ht) (fun k => ?_) n i
    show update (s.life m).task j none k ≠ _
    by_cases e : k = j
    · subst e
      rw [Function.update_self]
      simp
    · rw [Function.update_of_ne e]
      exact h.parted ht m k
  | close _ _ _ hupd => exact hupd n i
  | closed w hpc _ => exact h.parted (by simp [hpc]) n i
  | drain f q hpc hq hf hc hcall he => exact h.parted ht n i
  | taken m q hpc hq =>
    have hs := h.parted (by simp [hpc])
    refine parted_update hs (fun k => ?_) n i
    exact hs m k
  | release m hpc =>
    have hs := h.parted (by simp [hpc])
    refine parted_update hs (fun k => ?_) n i
    show ((s.life m).releaseNode _).task k ≠ _
    rw [same]
    exact hs m k
  | dropped q hpc _ => exact h.parted (by simp [hpc]) n i

theorem shared_step (h : SharedInv s) (hs : SharedStep s e t) : SharedInv t := by
  refine ⟨ledgers_step h hs, parted_step h hs, ?_⟩
  rcases h.stage with ha | hc | ⟨rest, hd⟩
  · rcases ha.step hs with ha' | hc'
    · exact .inl ha'
    · exact .inr (.inl hc')
  · exact .inr (hc.step hs)
  · exact .inr (.inr (hd.step (fun n => ⟨_, h.ledger n⟩) hs))

theorem shared_inv {τ : List (SharedEv ι ν J)} (h : Run (shared ι ν J) τ s) : SharedInv s := by
  refine Run.inv (S := shared ι ν J) (P := SharedInv) ?_ (fun s e t hi hs => shared_step hi hs) h
  intro s hx
  obtain ⟨hq, hn, hl, hpc⟩ := hx
  refine ⟨fun n => ⟨none, none, ?_⟩, fun h => absurd hpc h, .inl ⟨hpc, ?_, fun n => by rw [hl n]⟩⟩
  · rw [hl n, hpc]
    exact fresh_ledger (hn n)
  · exact world_inv (ι := ι) (J := J) (.init ⟨hq, hn⟩)

/-! ## How the drop ends -/

/-- Where the drop finds the queue empty it has come to the closed marker. -/
def Emptied (s : Shared ι ν J) : Prop :=
  s.pc = .dropped ∨ (s.pc = .draining ∧ ∃ deq, s.queue.cons = .clear deq ∨ s.queue.cons = .clearSwap deq) →
    s.queue.tail = .closedMarker

theorem tail_same {κ : Type} [DecidableEq κ] {q q' : Queue κ ν} {f : Ev κ ν} (hs : QStep q f q') (hc : q.cons = q'.cons) :
    q'.tail = q.tail := by
  rcases thread_cases hs hc with ⟨a, p, rfl, -, rfl⟩ | ⟨a, p, rfl, -, rfl⟩ | ⟨a, p, rfl, -, rfl⟩ | ⟨a, p, rfl, -, -, rfl⟩ |
    ⟨a, p, prev, rfl, -, rfl⟩ | ⟨i, n, rfl, -, -, rfl⟩ | ⟨i, w, rfl, -, rfl⟩ <;> rfl

omit [DecidableEq ι] [DecidableEq ν] in
/-- In another operation there is nothing to see. -/
theorem emptied_idle (h : s.queue.cons = .idle) (hpc : s.pc ≠ .dropped) : Emptied s := by
  rintro (hd | ⟨-, deq, hc | hc⟩)
  · exact absurd hd hpc
  · rw [h] at hc
    cases hc
  · rw [h] at hc
    cases hc

/-- The drop of the queue at work: only where it finds nothing behind a marker does it take
    the queue for empty. -/
theorem Draining.emptied {rest : List (Ptr ν)} (hd : Draining s rest) (h : Emptied s) {f : Ev (ι × ν) ν} {q : Queue (ι × ν) ν}
    (hpc : s.pc = .draining) (hq : QStep s.queue f q) (hc : q.cons ≠ s.queue.cons) (hcall : ∀ op, f = .called op → op = .dequeue none)
    (hm : MarkerLinked s (.drain f)) : Emptied { s with queue := q } := by
  have hdrop := hd.drop
  rw [hpc] at hdrop
  rintro (hx | ⟨-, deq, hx⟩)
  · rw [hpc] at hx
    cases hx
  · cases hq with
    | deqNone u hl hmark hn =>
      rw [hl] at hdrop
      obtain ⟨-, rfl⟩ := hdrop
      show s.queue.tail = .closedMarker
      cases ht : s.queue.tail with
      | closedMarker => rfl
      | endMarker => exact absurd hn (hm _ rfl hl (.inl ht))
      | sleepMarker => exact absurd hn (hm _ rfl hl (.inr ht))
      | node n => rw [ht] at hmark; cases hmark
    | clearStore deq hl ht =>
      have := h (.inr ⟨hpc, deq, .inl hl⟩)
      rw [ht] at this
      cases this
    | clear _ => cases hcall _ rfl
    | store a p _ => exact absurd rfl hc
    | load a p _ => exact absurd rfl hc
    | closed a p _ => exact absurd rfl hc
    | swap a p prev _ _ _ => exact absurd rfl hc
    | retry a p prev _ _ _ => exact absurd rfl hc
    | link a p prev _ => exact absurd rfl hc
    | enqueue i n _ _ => exact absurd rfl hc
    | returned i w _ => exact absurd rfl hc
    | _ => rcases hx with hx | hx <;> cases hx

/-- It answers that the queue is empty. -/
theorem Draining.dropped_empty {rest : List (Ptr ν)} (hd : Draining s rest) (h : Emptied s) {q : Queue (ι × ν) ν} (hpc : s.pc = .draining)
    (hq : QStep s.queue (.answer .empty) q) : q.tail = .closedMarker := by
  have hdrop := hd.drop
  rw [hpc] at hdrop
  generalize he : (Ev.answer .empty : Ev (ι × ν) ν) = f at hq
  cases hq with
  | deqUntil u hat hu =>
    rcases hat with hat | ⟨hat, -⟩ <;> rw [hat] at hdrop
    · rw [hdrop.2.1] at hu
      cases hu
    · rw [hdrop.2] at hu
      cases hu
  | clearSkip deq hl _ => exact h (.inr ⟨hpc, deq, .inl hl⟩)
  | clearSwap deq _ hhead =>
    rw [hd.shut.head] at hhead
    cases hhead
  | clearFail deq hl _ => exact h (.inr ⟨hpc, deq, .inr hl⟩)
  | _ => cases he

/-- Between two of its calls the drop has no operation on the queue under way. -/
theorem SharedInv.between (h : SharedInv s) (hpc : s.pc = .closing ∨ ∃ n, s.pc = .releasing n) : s.queue.cons = .idle := by
  rcases h.stage with ha | hc | ⟨rest, hd⟩
  · rcases hpc with hpc | ⟨n, hpc⟩ <;> rw [ha.pc] at hpc <;> cases hpc
  · exact hc.idle
  · have hdrop := hd.drop
    rcases hpc with hpc | ⟨n, hpc⟩ <;> rw [hpc] at hdrop <;> exact hdrop.1

theorem emptied_step (h : Emptied s) (hi : SharedInv s) (hs : SharedStep s e t) (hm : MarkerLinked s e) : Emptied t := by
  -- the drop is at work only when the marker is at the head
  have late : s.pc = .draining → ∃ rest, Draining s rest := by
    intro hpc
    rcases hi.stage with ha | hc | hd
    · rw [ha.pc] at hpc
      cases hpc
    · rw [hc.pc] at hpc
      cases hpc
    · exact hd
  cases hs with
  | node n f x _ _ _ => exact h
  | queue f q hq _ _ hc =>
    intro hx
    refine (tail_same hq hc.symm).trans (h ?_)
    rw [← hc]
    exact hx
  | poll f q hpc _ _ _ _ =>
    rintro (hx | ⟨hx, -⟩) <;> rw [hpc] at hx <;> cases hx
  | both n f g x q hmeet _ hq hal =>
    intro hx
    cases hmeet with
    | enters a =>
      cases a with
      | some i =>
        cases hq with
        | enqueue _ _ _ _ => exact h hx
      | none =>
        cases hq with
        | requeue _ _ _ =>
          rcases hx with hx | ⟨-, deq, hx | hx⟩
          · exact h (.inl hx)
          · cases hx
          · cases hx
    | linked a =>
      cases hq with
      | link _ _ prev _ => exact h hx
    | returned i w =>
      cases hq with
      | returned _ _ _ => exact h hx
    | data =>
      rcases hx with hx | ⟨hx, -⟩ <;> rw [hal rfl] at hx <;> cases hx
  | refused i n _ _ => exact h
  | clone n _ _ => exact h
  | dropSetReadiness n _ _ => exact h
  | dropRegistration i n ok _ _ => exact h
  | close _ _ _ _ => rintro (hx | ⟨hx, -⟩) <;> cases hx
  | closed w hpc _ => exact emptied_idle (hi.between (.inl hpc)) (by simp)
  | drain f q hpc hq _ hc hcall _ =>
    obtain ⟨rest, hd⟩ := late hpc
    exact hd.emptied h hpc hq hc hcall hm
  | taken n q hpc _ => rintro (hx | ⟨hx, -⟩) <;> cases hx
  | release n hpc => exact emptied_idle (hi.between (.inr ⟨n, hpc⟩)) (by simp)
  | dropped q hpc hq =>
    obtain ⟨rest, hd⟩ := late hpc
    exact fun _ => hd.dropped_empty h hpc hq

theorem emptied {τ : List (SharedEv ι ν J)} (h : Run ((shared ι ν J).restrict MarkerLinked) τ s) : Emptied s := by
  refine Run.inv_trace (S := (shared ι ν J).restrict MarkerLinked) (P := fun _ s => Emptied s) ?_ ?_ h
  · rintro s ⟨hq, -, -, hpc⟩
    exact emptied_idle (by rw [hq]; rfl) (by rw [hpc]; simp)
  · exact fun τ s e t hr hx hs => emptied_step hx (shared_inv hr.of_restrict) hs.1 hs.2

/-! ## What the invariant says -/

omit [DecidableEq ι] [DecidableEq ν] in
theorem Leads.mem {κ : Type} {q : Queue κ ν} {pend : Ptr ν → Ptr ν → Prop} {rest : List (Ptr ν)}
    (hl : Chain.Linked q.next pend (q.tail :: rest)) {p : Ptr ν} (h : Leads q p) : p ∈ q.tail :: rest := by
  induction h with
  | tail => exact List.mem_cons_self ..
  | next p p' _ hn ih => exact hl.next_mem ih hn

omit [DecidableEq ι] [DecidableEq ν] in
/-- Who brings the marker has no part in it. -/
theorem Leads.hide {κ : Type} [DecidableEq κ] {q : Queue κ ν} {p : Ptr ν} (h : Leads q p) : Leads q.hide p := by
  induction h with
  | tail => exact .tail
  | next p p' _ hn ih => exact .next p p' ih hn

omit [DecidableEq ι] [DecidableEq ν] in
/-- In the chain of an open queue are nodes that are in it, or on their way there. -/
theorem WorldInv.in_use {w : World ι ν J} (h : WorldInv w) {n : ν} (hn : w.queue.head = .node n ∨ Leads w.queue (.node n)) :
    0 < (w.nodes n).linked ∨ (∃ i, ((w.nodes n).pc i).stage = .entering) ∨ (w.nodes n).consumer.entering = true := by
  obtain ⟨rest, hinv⟩ := h.queue
  refine (h.tied n).busy.mp (hinv.flights.busyChain n ?_)
  rcases hn with hh | hl
  · exact hh ▸ hinv.shape.head_mem
  · exact hl.mem hinv.shape.linked

/-- What the queue leads to is not freed. -/
theorem SharedInv.in_use (h : SharedInv s) {n : ν} (hn : s.queue.head = .node n ∨ Leads s.queue (.node n)) :
    0 < (s.nodes n).node.refCount := by
  obtain ⟨own, pend, hl⟩ := h.ledger n
  refine hl.kept ?_
  rcases h.stage with ha | hc | ⟨rest, hd⟩
  · exact ha.world.in_use hn
  · exact hc.world.in_use (hn.imp id Leads.hide)
  · have hin : Ptr.node n ∈ s.queue.tail :: rest := by
      rcases hn with hh | hlead
      · rw [hd.shut.head] at hh
        cases hh
      · exact hlead.mem hd.shut.linked
    rcases hd.placed n hin with hlinked | ⟨i, prev, hi⟩
    · exact .inl hlinked
    · exact .inr (.inl ⟨i, by rw [(hd.enqueuing hi rfl).2]; rfl⟩)

/-- Once the queue is dropped it has no node, so a queued node's place was given up. -/
theorem SharedInv.drained (h : SharedInv s) (he : Emptied s) (hpc : s.pc = .dropped) {n : ν} (ha : (s.nodes n).node.readinessQueue ≠ none)
    (hq : (s.nodes n).node.state.isQueued = true) (hno : ∀ i, ((s.nodes n).pc i).holds = false) : (s.life n).releases = 1 := by
  obtain ⟨own, pend, hl⟩ := h.ledger n
  obtain ⟨rest, hd⟩ : ∃ rest, Draining s rest := by
    rcases h.stage with ha | hc | hd
    · rw [ha.pc] at hpc
      cases hpc
    · rw [hc.pc] at hpc
      cases hpc
    · exact hd
  have hhand : s.pc.hand n = false := by simp [DropPc.hand, hpc]
  have hr := hl.tally.releases
  rw [hhand] at hr
  cases hrel : (s.nodes n).released with
  | true =>
    have := hl.releases_le
    simp [hrel] at hr
    omega
  | false =>
    have hown : (s.nodes n).node.state.isQueued = own.isSome := hl.node.queued (Option.isSome_iff_ne_none.mpr ha) hrel
    rw [hq] at hown
    obtain ⟨o, rfl⟩ := Option.isSome_iff_exists.mp hown.symm
    have ho := (hl.node.owns_iff o).mpr rfl
    cases o with
    | thread i =>
      change ((s.nodes n).pc i).holds = true at ho
      rw [hno i] at ho
      cases ho
    | consumer =>
      change (s.nodes n).consumer.holds = true at ho
      rw [hd.away n] at ho
      cases ho
    | queue =>
      have ht : (s.life n).taken = true := by
        by_contra ht
        have hlinked : 0 < (s.nodes n).linked := by
          change 0 < (s.nodes n).linked + (s.life n).taken.toNat at ho
          rw [Bool.eq_false_iff.mpr ht] at ho
          exact ho
        have hin := hd.chained n hlinked
        rw [hd.shut.single (he (.inl hpc)), he (.inl hpc)] at hin
        cases List.mem_singleton.mp hin
      simp [ht, hrel] at hr
      exact hr

/-- Of a node that no thread uses the queue's reference is counted. -/
theorem SharedInv.counted (h : SharedInv s) (hq : s.Quiet) (n : ν) :
    (s.nodes n).node.refCount = (s.life n).handles + (s.queueRef n).toNat := by
  obtain ⟨own, pend, hl⟩ := h.ledger n
  have hpend : pend = none := by
    by_contra hp
    obtain ⟨i, hi⟩ := Option.ne_none_iff_exists'.mp hp
    have := (hl.pending i).mpr hi
    rw [(hq.2.2 n).2 i] at this
    cases this
  subst hpend
  have hc := hl.tally.count
  have hd := hl.debt
  have hle := hl.releases_le
  unfold Shared.queueRef
  cases ha : (s.nodes n).node.readinessQueue.isSome with
  | false =>
    rw [ha] at hc hd
    simp at hc hd ⊢
    omega
  | true =>
    rw [ha] at hc
    by_cases hr : (s.life n).releases = 0
    · simp [hr] at hc ⊢
      omega
    · simp [hr] at hc ⊢
      omega

/-- In every run, and whatever the drop of the queue finds: the count of a quiet node is
    exact, the queue's reference is released at most once, and a node is freed when its
    count comes to zero, so once, with no handle left and the queue leading elsewhere. -/
theorem refs_counted {τ : List (SharedEv ι ν J)} (h : Run (shared ι ν J) τ s) (n : ν) :
    (s.Quiet → (s.nodes n).node.refCount = (s.life n).handles + (s.queueRef n).toNat) ∧ (s.life n).releases ≤ 1 ∧
      ((s.life n).frees = if (s.nodes n).node.refCount = 0 then 1 else 0) ∧
      (0 < (s.life n).frees → (s.life n).handles = 0 ∧ s.queue.head ≠ .node n ∧ ¬ Leads s.queue (.node n)) := by
  have hi := shared_inv h
  obtain ⟨own, pend, hl⟩ := hi.ledger n
  have unused : 0 < (s.life n).frees → (s.nodes n).node.refCount = 0 := by
    intro hf
    by_contra hc
    rw [hl.tally.frees, if_neg hc] at hf
    cases hf
  refine ⟨fun hq => hi.counted hq n, hl.releases_le, hl.tally.frees, fun hf => ⟨?_, ?_, ?_⟩⟩
  · by_contra hh
    have := hl.pos (Nat.pos_of_ne_zero hh)
    rw [unused hf] at this
    cases this
  · intro hh
    have := hi.in_use (.inl hh)
    rw [unused hf] at this
    cases this
  · intro hlead
    have := hi.in_use (.inr hlead)
    rw [unused hf] at this
    cases this

/-- In every run in which the drop of the queue, where it looks behind the end or the sleep
    marker at the tail, finds written the link of what took its place there: the reference
    counts of all nodes are exact. -/
theorem refs_exact {τ : List (SharedEv ι ν J)} (h : Run ((shared ι ν J).restrict MarkerLinked) τ s) (n : ν) : Exact s n := by
  obtain ⟨hcounted, honce, hfreed, hunused⟩ := refs_counted h.of_restrict n
  exact ⟨hcounted, honce, hfreed, hunused, fun hpc => (shared_inv h.of_restrict).drained (emptied h) hpc⟩

end Steps

/-! ## Two runs -/

theorem marker_else {s : Shared ι ν J} {e : SharedEv ι ν J} (h : ∀ f, e ≠ .drain f) : MarkerLinked s e :=
  fun f hf => absurd hf (h f)

theorem marker_idle {s : Shared ι ν J} {e : SharedEv ι ν J} (h : s.queue.cons = .idle) : MarkerLinked s e := by
  intro f _ hc
  rw [h] at hc
  cases hc

theorem marker_linked {s : Shared ι ν J} {e : SharedEv ι ν J} {b : Ptr ν} (h : s.queue.next s.queue.tail = some b) :
    MarkerLinked s e := by
  intro f _ _ _ hn
  rw [h] at hn
  cases hn

theorem marker_closed {s : Shared ι ν J} {e : SharedEv ι ν J} (h : s.queue.tail = .closedMarker) : MarkerLinked s e := by
  intro f _ _ ht
  rw [h] at ht
  rcases ht with ht | ht <;> cases ht

/-- A registered node, with its two handles. -/
theorem registered_fresh : (shared Unit Unit Unit).init ⟨Queue.new _ _, fun _ => ⟨readableNode, fun _ => .idle, .away, 0, false, false⟩,
    fun _ => ⟨true, 1, fun _ => none, false, 0, 0⟩, .alive⟩ :=
  ⟨rfl, fun _ => ⟨_, rfl, .inr ⟨_, _, _, _, rfl⟩⟩, fun _ => rfl, rfl⟩

/-- The node is signalled and linked, then the `Poll` is dropped. -/
theorem refs_exact_drained : ∃ (τ : List (SharedEv Unit Unit Unit)) (s : Shared Unit Unit Unit),
    Run ((shared Unit Unit Unit).restrict MarkerLinked) τ s ∧ s.pc = .dropped ∧ (s.nodes ()).node.state.isQueued = true ∧
      (s.life ()).releases = 1 ∧ Exact s () := by
  have h0 : Run ((shared Unit Unit Unit).restrict MarkerLinked) [] _ := .init registered_fresh
  have h1 := h0.step ⟨.node _ () _ _ (.setCall _ () READABLE4 rfl) trivial Nat.one_pos, marker_else (by simp)⟩
  have h2 := h1.step ⟨.node _ () _ _ (.setLoad _ () READABLE4 rfl) trivial trivial, marker_else (by simp)⟩
  have h3 := h2.step ⟨.node _ () _ _ (.setSwap _ () READABLE4 readableNode.state rfl rfl) trivial trivial, marker_else (by simp)⟩
  have h4 := h3.step ⟨.both _ () _ _ _ _ (.enters (some ())) (.loadQueue _ () () rfl rfl) (.enqueue _ ((), ()) () rfl rfl) nofun,
    marker_else (by simp)⟩
  have h5 := h4.step ⟨.queue _ _ _ (.store _ (some ((), ())) (.node ()) rfl) trivial (fun _ => rfl) rfl, marker_else (by simp)⟩
  have h6 := h5.step ⟨.queue _ _ _ (.load _ (some ((), ())) (.node ()) rfl) trivial (fun _ => rfl) rfl, marker_else (by simp)⟩
  have h7 := h6.step ⟨.queue _ _ _ (.swap _ (some ((), ())) (.node ()) .endMarker rfl (by decide) rfl) trivial (fun _ => rfl) rfl,
    marker_else (by simp)⟩
  have h8 := h7.step ⟨.both _ () _ _ _ _ (.linked (some ())) (.link _ () rfl) (.link _ (some ((), ())) (.node ()) .endMarker rfl)
    nofun, marker_else (by simp)⟩
  have h9 := h8.step ⟨.both _ () _ _ _ _ (.returned () false) (.wakeup _ () true rfl) (.returned _ ((), ()) false rfl) nofun,
    marker_else (by simp)⟩
  have h10 := h9.step ⟨.node _ () _ _ (.returned _ () true rfl) trivial (show some Task.setReadiness ≠ some .drop by decide),
    marker_else (by simp)⟩
  have h11 := h10.step ⟨.close _ rfl rfl (fun _ => rfl) (fun _ _ => show none ≠ some Task.update by decide), marker_else (by simp)⟩
  have h12 := h11.step ⟨.queue _ _ _ (.store _ none .closedMarker rfl) trivial (fun _ => rfl) rfl, marker_else (by simp)⟩
  have h13 := h12.step ⟨.queue _ _ _ (.load _ none .closedMarker rfl) trivial (fun _ => rfl) rfl, marker_else (by simp)⟩
  have h14 := h13.step ⟨.queue _ _ _ (.swap _ none .closedMarker (.node ()) rfl (by decide) rfl) trivial (fun _ => rfl) rfl,
    marker_else (by simp)⟩
  have h15 := h14.step ⟨.queue _ _ _ (.link _ none .closedMarker (.node ()) rfl) trivial (fun _ => rfl) rfl, marker_else (by simp)⟩
  have h16 := h15.step ⟨.closed _ false rfl rfl, marker_else (by simp)⟩
  have h17 := h16.step ⟨.drain _ _ _ rfl (.dequeue _ none rfl) trivial nofun (fun _ h => by cases h; rfl) nofun, marker_idle rfl⟩
  have h18 := h17.step ⟨.drain _ _ _ rfl (.deqSkip _ none (.node ()) rfl rfl rfl) trivial nofun nofun nofun, marker_linked rfl⟩
  have h19 := h18.step ⟨.taken _ () _ rfl (.deqData _ none .closedMarker (.inl rfl) nofun rfl), marker_else (by simp)⟩
  have h20 := h19.step ⟨.release _ () rfl, marker_else (by simp)⟩
  have h21 := h20.step ⟨.drain _ _ _ rfl (.dequeue _ none rfl) trivial nofun (fun _ h => by cases h; rfl) nofun, marker_idle rfl⟩
  have h22 := h21.step ⟨.drain _ _ _ rfl (.deqNone _ none rfl rfl rfl) trivial nofun nofun nofun, marker_closed rfl⟩
  have h23 := h22.step ⟨.dropped _ _ rfl (.clearSkip _ true rfl nofun), marker_else (by simp)⟩
  exact ⟨_, _, h23, rfl, by decide, rfl, refs_exact h23 ()⟩

/-- A thread that signals the node has exchanged the head when the `Poll` is dropped, and
    not linked the node yet: the drop takes the queue for empty. When all is quiet and both
    handles are gone the queue's reference is still there, and the node is never freed. -/
theorem refs_leaked : ∃ (τ : List (SharedEv Unit Unit Unit)) (s : Shared Unit Unit Unit), Run (shared Unit Unit Unit) τ s ∧
    s.Quiet ∧ s.pc = .dropped ∧ (s.nodes ()).node.readinessQueue = some () ∧ (s.nodes ()).node.state.isQueued = true ∧
      (s.life ()).handles = 0 ∧ (s.life ()).releases = 0 ∧ (s.nodes ()).node.refCount = 1 ∧ (s.life ()).frees = 0 ∧
      ¬ Exact s () := by
  have h0 : Run (shared Unit Unit Unit) [] _ := .init registered_fresh
  have h1 := h0.step (.node _ () _ _ (.setCall _ () READABLE4 rfl) trivial Nat.one_pos)
  have h2 := h1.step (.node _ () _ _ (.setLoad _ () READABLE4 rfl) trivial trivial)
  have h3 := h2.step (.node _ () _ _ (.setSwap _ () READABLE4 readableNode.state rfl rfl) trivial trivial)
  have h4 := h3.step (.both _ () _ _ _ _ (.enters (some ())) (.loadQueue _ () () rfl rfl) (.enqueue _ ((), ()) () rfl rfl) nofun)
  have h5 := h4.step (.queue _ _ _ (.store _ (some ((), ())) (.node ()) rfl) trivial (fun _ => rfl) rfl)
  have h6 := h5.step (.queue _ _ _ (.load _ (some ((), ())) (.node ()) rfl) trivial (fun _ => rfl) rfl)
  have h7 := h6.step (.queue _ _ _ (.swap _ (some ((), ())) (.node ()) .endMarker rfl (by decide) rfl) trivial (fun _ => rfl) rfl)
  have h8 := h7.step (.close _ rfl rfl (fun _ => rfl) (fun _ _ => show some Task.setReadiness ≠ some .update by decide))
  have h9 := h8.step (.queue _ _ _ (.store _ none .closedMarker rfl) trivial (fun _ => rfl) rfl)
  have h10 := h9.step (.queue _ _ _ (.load _ none .closedMarker rfl) trivial (fun _ => rfl) rfl)
  have h11 := h10.step (.queue _ _ _ (.swap _ none .closedMarker (.node ()) rfl (by decide) rfl) trivial (fun _ => rfl) rfl)
  have h12 := h11.step (.queue _ _ _ (.link _ none .closedMarker (.node ()) rfl) trivial (fun _ => rfl) rfl)
  have h13 := h12.step (.closed _ false rfl rfl)
  have h14 := h13.step (.drain _ _ _ rfl (.dequeue _ none rfl) trivial nofun (fun _ h => by cases h; rfl) nofun)
  have h15 := h14.step (.drain _ _ _ rfl (.deqNone _ none rfl rfl rfl) trivial nofun nofun nofun)
  have h16 := h15.step (.dropped _ _ rfl (.clearSkip _ true rfl nofun))
  have h17 := h16.step (.both _ () _ _ _ _ (.linked (some ())) (.link _ () rfl) (.link _ (some ((), ())) (.node ()) .endMarker rfl)
    nofun)
  have h18 := h17.step (.both _ () _ _ _ _ (.returned () false) (.wakeup _ () true rfl) (.returned _ ((), ()) false rfl) nofun)
  have h19 := h18.step (.node _ () _ _ (.returned _ () true rfl) trivial (show some Task.setReadiness ≠ some .drop by decide))
  have h20 := h19.step (.dropSetReadiness _ () Nat.one_pos (.inr fun _ => show none ≠ some Task.setReadiness by decide))
  have h21 := h20.step (.node _ () _ _ (.drop _ () rfl rfl (fun _ => rfl)) trivial
    ⟨rfl, fun _ => show none ≠ some Task.update by decide⟩)
  have h22 := h21.step (.dropRegistration _ () () true rfl rfl)
  refine ⟨_, _, h22, ⟨.inr rfl, rfl, fun _ => ⟨rfl, fun _ => rfl⟩⟩, rfl, rfl, by decide, rfl, rfl, rfl, rfl, fun hx => ?_⟩
  have : 0 = 1 := hx.drained rfl nofun (by decide) (fun _ => rfl)
  cases this

end Sickle.Poll
