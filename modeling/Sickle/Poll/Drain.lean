/-
  Sickle.Poll.Drain — the drop of the queue, while threads go on.

  Three stages. Until the `Poll` is dropped its queue and nodes are `Sickle.Poll.Compose`'s
  (`Alive`). While the closed marker is on its way they still are, but for the thread that
  brings it (`Closing`). From then on the chain only gets shorter, and what is in it has
  the queue's reference (`Draining`): each node in the chain is linked, or a thread has still
  to link it, so a chain that is down to the closed marker has left no node behind.

  - `Alive.step`, `Closing.step`, `Draining.step`: each stage is kept, or is followed by the
    next.
-/

import Sickle.Poll.Closed
import Sickle.Poll.Ledger

namespace Sickle.Poll

open Function (update)
open Sickle.Lib Sickle.Lib.Chain

variable {ι ν J : Type}

structure Alive (s : Shared ι ν J) : Prop where
  pc : s.pc = .alive
  world : WorldInv ⟨s.queue, s.nodes⟩
  intact : ∀ n, (s.life n).taken = false

structure Closing [DecidableEq ι] [DecidableEq ν] (s : Shared ι ν J) : Prop where
  pc : s.pc = .closing
  world : WorldInv ⟨s.queue.hide, s.nodes⟩
  intact : ∀ n, (s.life n).taken = false
  idle : s.queue.cons = .idle
  away : ∀ n, (s.nodes n).consumer = .away
  own : s.queue.flight none = some (.store .closedMarker) ∨ (s.queue.next .closedMarker = none ∧
    (s.queue.flight none = some (.load .closedMarker) ∨
      ∃ prev, s.queue.flight none = some (.swap .closedMarker prev) ∧ prev ≠ .closedMarker))

/-- What the thread that drops the queue knows, where it is. -/
def DropOk (pc : DropPc ν) (cons : Cons ν) (tail : Ptr ν) (own : Option (Enq ν)) : Prop :=
  match pc with
  | .alive => False
  | .closing => cons = .idle ∧ ((∃ prev, own = some (.link .closedMarker prev)) ∨ ∃ w, own = some (.done w))
  | .draining =>
    match cons with
    | .idle => own = none
    | .deqLoad u => own = none ∧ u = none
    | .deqNext u => own = none ∧ u = none ∧ (tail.isMarker = false ∨ tail = .closedMarker)
    | .deqHead => own = none ∧ (tail.isMarker = false ∨ tail = .closedMarker)
    | .deqEnd => tail = .closedMarker ∧ ∃ e, own = some e ∧ ∀ p, e.target = some p → e.waiting = some .endMarker
    | .deqLast => own = none ∧ tail = .closedMarker
    | .clear deq => own = none ∧ deq = true
    | .clearSwap deq => own = none ∧ deq = true
    | _ => False
  | .releasing _ => cons = .idle ∧ own = none
  | .dropped => cons = .idle ∧ own = none

/-- The closed marker is at the head. -/
structure Draining (s : Shared ι ν J) (rest : List (Ptr ν)) : Prop where
  shut : Shut s.queue rest
  drop : DropOk s.pc s.queue.cons s.queue.tail (s.queue.flight none)
  away : ∀ n, (s.nodes n).consumer = .away
  threads : ∀ n i, flights s.queue (some (i, n)) = ((s.nodes n).pc i).stage.flight n
  chained : ∀ n, 0 < (s.nodes n).linked → .node n ∈ s.queue.tail :: rest
  placed : ∀ n, .node n ∈ s.queue.tail :: rest →
    0 < (s.nodes n).linked ∨ ∃ i prev, s.queue.flight (some (i, n)) = some (.link (.node n) prev)

/-! ## Until the marker is at the head -/

/-- Of a node the queue sees its threads, the consumer and how often it is linked. -/
theorem WorldInv.recount [DecidableEq ν] {q : Queue (ι × ν) ν} {nodes : ν → NodeSt ι Unit J} (h : WorldInv ⟨q, nodes⟩) {n : ν}
    {t : NodeSt ι Unit J} (ht : t.view = (nodes n).view) : WorldInv ⟨q, update nodes n t⟩ := by
  have hpc : t.pc = (nodes n).pc := congrArg View.pc ht
  have hcons : t.consumer = (nodes n).consumer := congrArg View.consumer ht
  have hlinked : t.linked = (nodes n).linked := congrArg View.linked ht
  have consumer : ∀ m, (update nodes n t m).consumer = (nodes m).consumer := by
    intro m
    by_cases e : m = n
    · subst e
      rw [Function.update_self, hcons]
    · rw [Function.update_of_ne e]
  refine ⟨h.queue, ?_, ?_, fun m m' hm hm' => ?_⟩
  · exact (Function.forall_update_iff nodes fun _ x => ∃ own, NodeInv x.view own).mpr ⟨ht ▸ h.nodes n, fun m _ => h.nodes m⟩
  · refine (Function.forall_update_iff nodes fun m x => Tied q x m).mpr ⟨?_, fun m _ => h.tied m⟩
    obtain ⟨h1, h2, h3, h4, h5⟩ := h.tied n
    exact ⟨by rw [hpc]; exact h1, by rw [hcons]; exact h2, by rw [hcons]; exact h3, by rw [hcons]; exact h4,
      by rw [hpc, hcons, hlinked]; exact h5⟩
  · refine h.alone m m' ?_ ?_
    · exact (consumer m) ▸ hm
    · exact (consumer m') ▸ hm'

section Steps

variable [DecidableEq ι] [DecidableEq ν] {s t : Shared ι ν J} {e : SharedEv ι ν J}

omit [DecidableEq ν] in
theorem after_taken (l : Life ι) (c : Nat) (f : NodeEv ι Unit J) : (l.after c f).taken = l.taken := by
  cases f with
  | called i call => cases call <;> rfl
  | released => exact (l.releaseNode_fields c).2.2.2.1
  | _ => rfl

omit [DecidableEq ι] in
theorem update_taken {life : ν → Life ι} (h : ∀ m, (life m).taken = false) {n : ν} {l : Life ι} (hl : l.taken = false) (m : ν) :
    (update life n l m).taken = false := by
  by_cases e : m = n
  · subst e
    rw [Function.update_self, hl]
  · rw [Function.update_of_ne e]
    exact h m

/-- A step that leaves the consumer where it is calls nothing. -/
theorem not_called {κ : Type} [DecidableEq κ] {q q' : Queue κ ν} {f : Ev κ ν} (hs : QStep q f q') (hc : q.cons = q'.cons)
    (op : Op ν) : f ≠ .called op := by
  rcases thread_cases hs hc with ⟨a, p, rfl, -⟩ | ⟨a, p, rfl, -⟩ | ⟨a, p, rfl, -⟩ | ⟨a, p, rfl, -⟩ | ⟨a, p, prev, rfl, -⟩ |
    ⟨i, n, rfl, -⟩ | ⟨i, w, rfl, -⟩ <;> simp

/-- The end of the drop of a `Registration` is, but for the count, the return of a call. -/
theorem WorldInv.unregister {q : Queue (ι × ν) ν} {nodes : ν → NodeSt ι Unit J} (h : WorldInv ⟨q, nodes⟩) {n : ν} {i : ι} {ok : Bool}
    (hpc : (nodes n).pc i = .ret ok) (c : Nat) :
    WorldInv ⟨q, update nodes n { nodes n with node.refCount := c, pc := update (nodes n).pc i .idle }⟩ := by
  have hw := world_step h (.node _ n _ _ (.returned _ i ok hpc) trivial)
  have := hw.recount (n := n) (t := { nodes n with node.refCount := c, pc := update (nodes n).pc i .idle })
    (by rw [Function.update_self]; rfl)
  rwa [Function.update_idem] at this

omit [DecidableEq ι] [DecidableEq ν] in
/-- While the queue is open nobody finds the closed marker. -/
theorem WorldInv.not_refused {w : World ι ν J} (h : WorldInv w) {a : Agent (ι × ν)} {p : Ptr ν} :
    w.queue.flight a ≠ some (.swap p .closedMarker) := by
  obtain ⟨rest, hinv⟩ := h.queue
  exact hinv.flights.opened a p

theorem Alive.step (h : Alive s) (hs : SharedStep s e t) : Alive t ∨ Closing t := by
  have hp := h.pc
  cases hs with
  | node n f x hx hf ha =>
    exact .inl ⟨hp, world_step h.world (.node _ n f x hx hf), update_taken h.intact (by rw [after_taken, h.intact])⟩
  | queue f q hq hf hsame hc =>
    exact .inl ⟨hp, world_step h.world (.queue _ f q hq hf fun op hop => absurd hop (not_called hq hc.symm op)), h.intact⟩
  | poll f q _ hq hf hc hcall => exact .inl ⟨hp, world_step h.world (.queue _ f q hq hf hcall), h.intact⟩
  | both n f g x q hm hx hq _ => exact .inl ⟨hp, world_step h.world (.both _ n f g x q hm hx hq), h.intact⟩
  | refused i n hpc h0 => exact absurd h0 h.world.not_refused
  | clone n _ _ => exact .inl ⟨hp, h.world.recount rfl, update_taken h.intact (h.intact n)⟩
  | dropSetReadiness n _ _ =>
    refine .inl ⟨hp, h.world.recount rfl, update_taken h.intact ?_⟩
    exact ((s.life n).releaseNode_fields _).2.2.2.1.trans (h.intact n)
  | dropRegistration i n ok _ hpc =>
    refine .inl ⟨hp, h.world.unregister hpc _, update_taken h.intact ?_⟩
    exact ((s.life n).releaseNode_fields _).2.2.2.1.trans (h.intact n)
  | close _ hidle haway hupd =>
    right
    obtain ⟨rest, hinv⟩ := h.world.queue
    have hown : s.queue.flight none = none := hinv.cons.own_none (by simp [hidle]) (by simp [hidle])
    refine ⟨rfl, ?_, h.intact, hidle, haway, .inl (by simp)⟩
    show WorldInv ⟨Queue.hide { s.queue with flight := _ }, s.nodes⟩
    rw [hide_own, hide_same hown]
    exact h.world
  | closed w hpc _ => rw [hp] at hpc; cases hpc
  | drain f q hpc _ _ _ _ _ => rw [hp] at hpc; cases hpc
  | taken n q hpc _ => rw [hp] at hpc; cases hpc
  | release n hpc => rw [hp] at hpc; cases hpc
  | dropped q hpc _ => rw [hp] at hpc; cases hpc

/-! ## While it is on its way -/

omit [DecidableEq ι] in
/-- The marker's own link is none of the chain. -/
theorem WorldInv.null_closed {w : World ι ν J} (h : WorldInv w) (hc : w.queue.cons = .idle) :
    WorldInv ⟨{ w.queue with next := update w.queue.next .closedMarker none }, w.nodes⟩ := by
  obtain ⟨rest, hinv⟩ := h.queue
  refine ⟨⟨rest, hinv.shape.congr (fun x hx => ?_) (fun _ _ => Iff.rfl), hinv.flights.null, ?_⟩, h.nodes, fun n => ?_, h.alone⟩
  · refine Function.update_of_ne ?_ ..
    intro e
    subst e
    exact hinv.shape.notClosed hx
  · have := hinv.cons
    rw [hc] at this
    show ConsInv w.queue.cons _ _ _
    rw [hc]
    exact this
  · obtain ⟨h1, h2, h3, h4, h5⟩ := h.tied n
    exact ⟨h1, h2, h3, h4, h5⟩

/-- The chain that the marker ends. -/
theorem Closing.shut (h : Closing s) (hn : s.queue.next .closedMarker = none) {q : Queue (ι × ν) ν}
    (hq : q = { s.queue with head := .closedMarker, flight := update s.queue.flight none (some (.link .closedMarker s.queue.head)) }) :
    ∃ rest, Draining { s with queue := q } rest := by
  obtain ⟨rest, hinv⟩ := h.world.queue
  have hchain : ∀ n, .node n ∈ s.queue.tail :: (rest ++ [Ptr.closedMarker]) ↔ .node n ∈ s.queue.tail :: rest := by
    intro n
    simp
  have hflight : ∀ i, q.flight (some i) = s.queue.hide.flight (some i) := by
    intro i
    rw [hq, hide_flight]
    simp
  refine ⟨rest ++ [.closedMarker], ?_, ?_, h.away, fun n i => ?_, fun n hl => ?_, fun n hm => ?_⟩
  · rw [hq]
    exact hinv.shut hn
  · show DropOk s.pc q.cons q.tail (q.flight none)
    rw [h.pc, hq]
    exact ⟨h.idle, .inl ⟨s.queue.head, by simp⟩⟩
  · show flights q (some (i, n)) = _
    unfold flights
    rw [hflight]
    exact (h.world.tied n).threads i
  · subst hq
    exact (hchain n).mpr (h.world.in_chain hinv hl)
  · subst hq
    have hm := (hchain n).mp hm
    rcases (h.world.tied n).busy.mp (hinv.flights.busyChain n hm) with hl | ⟨i, hst⟩ | hent
    · exact .inl hl
    · -- a thread that has not linked it would not have exchanged the head
      have hf := (h.world.tied n).threads i
      rw [hst] at hf
      obtain ⟨x, hx, hxn⟩ := Option.map_eq_some_iff.mp hf
      refine .inr ⟨i, ?_⟩
      rw [hflight]
      cases x with
      | link p prev =>
        obtain rfl : p = .node n := by simpa [Enq.target] using hxn
        exact ⟨prev, hx⟩
      | done w => cases hxn
      | store p => exact absurd hm (by cases hxn; exact hinv.flights.unlinked _ _ _ hx rfl)
      | load p => exact absurd hm (by cases hxn; exact hinv.flights.unlinked _ _ _ hx rfl)
      | swap p prev => exact absurd hm (by cases hxn; exact hinv.flights.unlinked _ _ _ hx rfl)
    · have haway := h.away n
      change (s.nodes n).consumer.entering = true at hent
      rw [haway] at hent
      cases hent

/-- A step of the queue: another thread's, or one of the marker's. -/
theorem Closing.queue (h : Closing s) {f : Ev (ι × ν) ν} {q : Queue (ι × ν) ν} (hq : QStep s.queue f q) (hf : f.Apart)
    (hc : q.cons = s.queue.cons) : Closing { s with queue := q } ∨ ∃ rest, Draining { s with queue := q } rest := by
  obtain ⟨rest, hinv⟩ := h.world.queue
  have hhead : s.queue.head ≠ .closedMarker := fun e => hinv.shape.notClosed (e ▸ hinv.shape.head_mem)
  have other : q.flight none = s.queue.flight none → (s.queue.next .closedMarker = none → q.next .closedMarker = none) →
      Closing { s with queue := q } := by
    intro hn hnext
    refine ⟨h.pc, world_step h.world (.queue _ f q.hide (hide_step hq hc.symm hn) hf fun op hop =>
      absurd hop (not_called hq hc.symm op)), h.intact, hc.trans h.idle, h.away, ?_⟩
    show q.flight none = _ ∨ _ ∧ (q.flight none = _ ∨ ∃ prev, q.flight none = _ ∧ _)
    rw [hn]
    rcases h.own with h0 | ⟨h1, h0⟩
    · exact .inl h0
    · exact .inr ⟨hnext h1, h0⟩
  rcases thread_cases hq hc.symm with ⟨a, p, rfl, h0, rfl⟩ | ⟨a, p, rfl, h0, rfl⟩ | ⟨a, p, rfl, h0, rfl⟩ | ⟨a, p, rfl, h0, hh, rfl⟩ |
    ⟨a, p, prev, rfl, h0, rfl⟩ | ⟨i, n, rfl, h0, hb, rfl⟩ | ⟨i, w, rfl, h0, rfl⟩
  · cases a with
    | some i =>
      refine .inl (other (by simp) fun hn => ?_)
      show update s.queue.next p none .closedMarker = none
      simp [Function.update_apply, hn]
    | none =>
      have hp : p = .closedMarker := by
        rcases h.own with h1 | ⟨-, h1 | ⟨prev, h1, -⟩⟩ <;> rw [h0] at h1 <;> simp at h1
        exact h1
      subst hp
      refine .inl ⟨h.pc, ?_, h.intact, h.idle, h.away, .inr ⟨by simp, .inl (by simp)⟩⟩
      have := h.world.null_closed h.idle
      show WorldInv ⟨Queue.hide { s.queue with next := _, flight := _ }, s.nodes⟩
      unfold Queue.hide at this ⊢
      rw [Function.update_idem]
      exact this
  · cases a with
    | some i => exact .inl (other (by simp) id)
    | none =>
      obtain ⟨hp, hn⟩ : p = .closedMarker ∧ s.queue.next .closedMarker = none := by
        rcases h.own with h1 | ⟨hn, h1 | ⟨prev, h1, -⟩⟩ <;> rw [h1] at h0 <;> simp at h0
        · exact ⟨h0.symm, hn⟩
        · exact ⟨h0.1.symm, hn⟩
      subst hp
      refine .inl ⟨h.pc, ?_, h.intact, h.idle, h.away, .inr ⟨hn, .inr ⟨s.queue.head, by simp, hhead⟩⟩⟩
      show WorldInv ⟨Queue.hide { s.queue with flight := _ }, s.nodes⟩
      rw [hide_own]
      exact h.world
  · cases a with
    | some i => exact absurd ((hide_flight i).trans h0) h.world.not_refused
    | none =>
      rcases h.own with h1 | ⟨-, h1 | ⟨prev, h1, hne⟩⟩ <;> rw [h0] at h1 <;> simp at h1
      exact absurd h1.2.symm hne
  · cases a with
    | some i => exact .inl (other (by simp) id)
    | none =>
      obtain ⟨hp, hn⟩ : p = .closedMarker ∧ s.queue.next .closedMarker = none := by
        rcases h.own with h1 | ⟨hn, h1 | ⟨prev, h1, -⟩⟩ <;> rw [h0] at h1 <;> simp at h1
        exact ⟨h1.1, hn⟩
      subst hp
      exact .inr (h.shut hn rfl)
  · cases a with
    | some i =>
      refine .inl (other (by simp) fun hn => ?_)
      refine (Function.update_of_ne ?_ ..).trans hn
      intro e
      have := hinv.flights.behind (some i) p prev ((hide_flight i).trans h0)
      rw [← e] at this
      exact hinv.shape.notClosed this
    | none => rcases h.own with h1 | ⟨-, h1 | ⟨prev, h1, -⟩⟩ <;> rw [h0] at h1 <;> simp at h1
  · exact hf.elim
  · exact hf.elim

/-- A thread's step of a node and of the queue. -/
theorem Closing.both (h : Closing s) {n : ν} {f : NodeEv ι Unit J} {g : Ev (ι × ν) ν} {x : NodeSt ι Unit J} {q : Queue (ι × ν) ν}
    (hm : Meets n f g) (hx : NodeStep (s.nodes n) f x) (hq : QStep s.queue g q) (hg : g ≠ .answer (.data (.node n))) :
    Closing { s with queue := q, nodes := update s.nodes n x } := by
  have haway := h.away n
  obtain ⟨hx', hc, hn, hnext⟩ : x.consumer = .away ∧ s.queue.cons = q.cons ∧ q.flight none = s.queue.flight none ∧
      (s.queue.next .closedMarker = none → q.next .closedMarker = none) := by
    cases hm with
    | enters a =>
      cases a with
      | some i =>
        cases hq with
        | enqueue _ _ h0 hb =>
          cases hx with
          | loadQueue _ k hpc hk => exact ⟨haway, rfl, by simp, id⟩
          | updJob _ a hpc => exact ⟨haway, rfl, by simp, id⟩
      | none =>
        cases hx with
        | putBack next readiness hcons => rw [haway] at hcons; cases hcons
    | linked a =>
      cases a with
      | some i =>
        cases hq with
        | link _ _ prev h0 =>
          cases hx with
          | link _ hpc =>
            refine ⟨haway, rfl, by simp [agent], fun hnx => ?_⟩
            obtain ⟨rest, hinv⟩ := h.world.queue
            show update s.queue.next prev _ .closedMarker = none
            rw [Function.update_of_ne]
            · exact hnx
            · intro e
              have := hinv.flights.behind (some (i, n)) _ prev ((hide_flight _).trans h0)
              rw [← e] at this
              exact hinv.shape.notClosed this
      | none =>
        cases hx with
        | requeueLink next readiness hcons => rw [haway] at hcons; cases hcons
    | returned i w =>
      cases hq with
      | returned _ _ h0 =>
        cases hx with
        | wakeup _ ok hpc => exact ⟨haway, rfl, by simp, id⟩
    | data => exact absurd rfl hg
  refine ⟨h.pc, world_step h.world (.both _ n f g x q.hide hm hx (hide_step hq hc hn)), h.intact, hc.symm.trans h.idle, ?_, ?_⟩
  · intro m
    show (update s.nodes n x m).consumer = .away
    by_cases e : m = n
    · subst e
      rw [Function.update_self, hx']
    · rw [Function.update_of_ne e]
      exact h.away m
  · show q.flight none = _ ∨ _ ∧ (q.flight none = _ ∨ ∃ prev, q.flight none = _ ∧ _)
    rw [hn]
    rcases h.own with h0 | ⟨h1, h0⟩
    · exact .inl h0
    · exact .inr ⟨hnext h1, h0⟩

/-- A node moves that the consumer has not. -/
theorem Closing.nodes (h : Closing s) {n : ν} {x : NodeSt ι Unit J} {l : Life ι} (hw : WorldInv ⟨s.queue.hide, update s.nodes n x⟩)
    (hx : x.consumer = .away) (hl : l.taken = false) :
    Closing { s with nodes := update s.nodes n x, life := update s.life n l } := by
  refine ⟨h.pc, hw, update_taken h.intact hl, h.idle, fun m => ?_, h.own⟩
  show (update s.nodes n x m).consumer = .away
  by_cases e : m = n
  · subst e
    rw [Function.update_self, hx]
  · rw [Function.update_of_ne e]
    exact h.away m

theorem Closing.step (h : Closing s) (hs : SharedStep s e t) : Closing t ∨ ∃ rest, Draining t rest := by
  have hp := h.pc
  cases hs with
  | node n f x hx hf ha =>
    refine .inl (h.nodes (world_step h.world (.node _ n f x hx hf)) ?_ (by rw [after_taken, h.intact]))
    by_contra hc
    exact (apart_step hx hf).2.2.2.1 hc (h.away n)
  | queue f q hq hf _ hc => exact h.queue hq hf hc
  | poll f q hpc _ _ _ _ => rw [hp] at hpc; cases hpc
  | both n f g x q hm hx hq hal =>
    refine .inl (h.both hm hx hq fun hg => ?_)
    have := hal hg
    rw [hp] at this
    cases this
  | refused i n hpc h0 => exact absurd ((hide_flight _).trans h0) h.world.not_refused
  | clone n _ _ => exact .inl (h.nodes (h.world.recount rfl) (h.away n) (h.intact n))
  | dropSetReadiness n _ _ =>
    exact .inl (h.nodes (h.world.recount rfl) (h.away n) (((s.life n).releaseNode_fields _).2.2.2.1.trans (h.intact n)))
  | dropRegistration i n ok _ hpc =>
    exact .inl (h.nodes (h.world.unregister hpc _) (h.away n) (((s.life n).releaseNode_fields _).2.2.2.1.trans (h.intact n)))
  | close hpc _ _ _ => rw [hp] at hpc; cases hpc
  | closed w _ h0 => rcases h.own with h1 | ⟨-, h1 | ⟨prev, h1, -⟩⟩ <;> rw [h0] at h1 <;> cases h1
  | drain f q hpc _ _ _ _ _ => rw [hp] at hpc; cases hpc
  | taken n q hpc _ => rw [hp] at hpc; cases hpc
  | release n hpc => rw [hp] at hpc; cases hpc
  | dropped q hpc _ => rw [hp] at hpc; cases hpc

/-! ## Once it is at the head -/

omit [DecidableEq ι] [DecidableEq ν] in
/-- Of its own `enqueue_node` the drop has the marker's link to write, or the end marker to
    bring, which the closed marker turns away. -/
theorem DropOk.waiting {pc : DropPc ν} {cons : Cons ν} {tail : Ptr ν} {x : Enq ν} (h : DropOk pc cons tail (some x)) {p : Ptr ν}
    (hp : x.waiting = some p) : p = .endMarker ∧ tail = .closedMarker := by
  cases pc with
  | alive => exact h.elim
  | closing =>
    obtain ⟨-, ⟨prev, hx⟩ | ⟨w, hx⟩⟩ := h <;> cases hx <;> cases hp
  | draining =>
    cases cons with
    | deqEnd =>
      obtain ⟨ht, y, hy, hw⟩ := h
      cases hy
      have := hw p (Enq.target_of_waiting hp)
      rw [hp] at this
      exact ⟨Option.some.inj this, ht⟩
    | _ => simp [DropOk] at h
  | releasing n => cases h.2
  | dropped => cases h.2

omit [DecidableEq ι] [DecidableEq ν] in
theorem DropOk.goes {pc : DropPc ν} {cons : Cons ν} {tail : Ptr ν} {x y : Enq ν} (h : DropOk pc cons tail (some x)) {p : Ptr ν}
    (hp : x.waiting = some p) (hy : ∀ z, y.target = some z → y.waiting = some p) : DropOk pc cons tail (some y) := by
  obtain ⟨rfl, ht⟩ := h.waiting hp
  cases pc with
  | alive => exact h.elim
  | closing =>
    obtain ⟨-, ⟨prev, hx⟩ | ⟨w, hx⟩⟩ := h <;> cases hx <;> cases hp
  | draining =>
    cases cons with
    | deqEnd => exact ⟨ht, y, rfl, hy⟩
    | _ => simp [DropOk] at h
  | releasing n => cases h.2
  | dropped => cases h.2

omit [DecidableEq ι] [DecidableEq ν] in
theorem DropOk.link {pc : DropPc ν} {cons : Cons ν} {tail p prev : Ptr ν} (h : DropOk pc cons tail (some (.link p prev))) :
    pc = .closing ∧ p = .closedMarker := by
  cases pc with
  | alive => exact h.elim
  | closing =>
    obtain ⟨-, ⟨prev, hx⟩ | ⟨w, hx⟩⟩ := h <;> cases hx
    exact ⟨rfl, rfl⟩
  | draining =>
    cases cons with
    | deqEnd =>
      obtain ⟨ht, y, hy, hw⟩ := h
      cases hy
      cases hw p rfl
    | _ => simp [DropOk] at h
  | releasing n => cases h.2
  | dropped => cases h.2

namespace Draining

variable {rest rest' : List (Ptr ν)}

omit [DecidableEq ι] [DecidableEq ν] in
/-- A thread in the queue's `enqueue_node` is in the node's. -/
theorem enqueuing (h : Draining s rest) {i : ι} {n : ν} {x : Enq ν} {p : Ptr ν} (hx : s.queue.flight (some (i, n)) = some x)
    (hp : x.target = some p) : p = .node n ∧ (s.nodes n).pc i = .enqueue := by
  have hf := h.threads n i
  unfold flights at hf
  rw [hx, Option.map_some, hp] at hf
  cases hpc : (s.nodes n).pc i with
  | enqueue =>
    rw [hpc] at hf
    exact ⟨by simpa [Stage.flight, Pc.stage] using hf, rfl⟩
  | _ => rw [hpc] at hf; simp [Stage.flight, Pc.stage] at hf

omit [DecidableEq ι] [DecidableEq ν] in
/-- What a thread has not linked yet, but for the chain's own places, is not in the chain. -/
theorem unlinked (h : Draining s rest) (hl : ∀ n, ∃ hand own pend, Ledger (s.nodes n) (s.life n) hand own pend)
    {g : Agent (ι × ν)} {x : Enq ν} {p : Ptr ν} (hx : s.queue.flight g = some x) (hp : x.waiting = some p) :
    p ∉ s.queue.tail :: rest := by
  intro hm
  cases g with
  | none =>
    obtain ⟨rfl, ht⟩ := (hx ▸ h.drop : DropOk _ _ _ (some x)).waiting hp
    rw [h.shut.single ht, ht] at hm
    cases List.mem_singleton.mp hm
  | some im =>
    obtain ⟨i, n⟩ := im
    obtain ⟨rfl, hpc⟩ := h.enqueuing hx (Enq.target_of_waiting hp)
    obtain ⟨hand, own, pend, hn⟩ := hl n
    obtain ⟨-, hl0, hone⟩ := hn.enqueuing hpc
    rcases h.placed n hm with hl1 | ⟨j, prev, hj⟩
    · omega
    · -- the thread with its link to write is another one
      obtain rfl := hone j (h.enqueuing hj rfl).2
      rw [hx] at hj
      cases hj
      cases hp

omit [DecidableEq ι] [DecidableEq ν] in
/-- The queue moves, and no node with it. -/
theorem keep (h : Draining s rest) {q : Queue (ι × ν) ν} {pc : DropPc ν} (hshut : Shut q rest')
    (hdrop : DropOk pc q.cons q.tail (q.flight none)) (hsame : ∀ x, flights q (some x) = flights s.queue (some x))
    (hlinks : ∀ x p prev, s.queue.flight (some x) = some (.link p prev) → q.flight (some x) = some (.link p prev))
    (hmem : ∀ n, .node n ∈ q.tail :: rest' ↔ .node n ∈ s.queue.tail :: rest) :
    Draining { s with queue := q, pc := pc } rest' := by
  refine ⟨hshut, hdrop, h.away, fun n i => (hsame (i, n)).trans (h.threads n i), fun n hl => (hmem n).mpr (h.chained n hl),
    fun n hm => ?_⟩
  rcases h.placed n ((hmem n).mp hm) with hl | ⟨i, prev, hi⟩
  · exact .inl hl
  · exact .inr ⟨i, prev, hlinks _ _ _ hi⟩

omit [DecidableEq ι] in
/-- A node moves, and the queue sees nothing of it. -/
theorem nodes (h : Draining s rest) {n : ν} {x : NodeSt ι Unit J} {life : ν → Life ι} {pc : DropPc ν}
    (hst : ∀ i, (x.pc i).stage = ((s.nodes n).pc i).stage) (hl : x.linked = (s.nodes n).linked) (hx : x.consumer = .away)
    (hdrop : DropOk pc s.queue.cons s.queue.tail (s.queue.flight none)) :
    Draining { s with nodes := update s.nodes n x, life := life, pc := pc } rest := by
  have same : ∀ m, (update s.nodes n x m).consumer = .away ∧ (update s.nodes n x m).linked = (s.nodes m).linked ∧
      ∀ i, ((update s.nodes n x m).pc i).stage = ((s.nodes m).pc i).stage :=
    (Function.forall_update_iff s.nodes fun m y => y.consumer = .away ∧ y.linked = (s.nodes m).linked ∧
      ∀ i, (y.pc i).stage = ((s.nodes m).pc i).stage).mpr ⟨⟨hx, hl, hst⟩, fun m _ => ⟨h.away m, rfl, fun _ => rfl⟩⟩
  refine ⟨h.shut, hdrop, fun m => (same m).1, fun m i => ?_, fun m hm => ?_, fun m hm => ?_⟩
  · show _ = ((update s.nodes n x m).pc i).stage.flight m
    rw [(same m).2.2 i]
    exact h.threads m i
  · change 0 < (update s.nodes n x m).linked at hm
    rw [(same m).2.1] at hm
    exact h.chained m hm
  · show 0 < (update s.nodes n x m).linked ∨ _
    rw [(same m).2.1]
    exact h.placed m hm

/-- A thread moves, in a node and in the queue. -/
theorem thread (h : Draining s rest) {i : ι} {n : ν} {x : NodeSt ι Unit J} {p : Pc Unit J} {o : Option (Enq ν)}
    {next : Ptr ν → Option (Ptr ν)} {busy : ν → Bool} {life : ν → Life ι}
    (hshut : Shut { s.queue with next := next, flight := update s.queue.flight (some (i, n)) o, busy := busy } rest)
    (ho : o.map Enq.target = p.stage.flight n) (hpc : x.pc = update (s.nodes n).pc i p) (hx : x.consumer = .away)
    (hl : (x.linked = (s.nodes n).linked ∧ ∀ prev, s.queue.flight (some (i, n)) ≠ some (.link (.node n) prev)) ∨
      0 < x.linked ∧ .node n ∈ s.queue.tail :: rest) :
    Draining { s with
      queue.next := next
      queue.flight := update s.queue.flight (some (i, n)) o
      queue.busy := busy
      nodes := update s.nodes n x
      life := life } rest := by
  refine ⟨hshut, ?_, fun m => ?_, fun m j => ?_, fun m hm => ?_, fun m hm => ?_⟩
  · show DropOk s.pc s.queue.cons s.queue.tail (update s.queue.flight (some (i, n)) o none)
    rw [Function.update_of_ne (by simp)]
    exact h.drop
  · show (update s.nodes n x m).consumer = .away
    by_cases e : m = n
    · subst e
      rw [Function.update_self, hx]
    · rw [Function.update_of_ne e]
      exact h.away m
  · show (update s.queue.flight (some (i, n)) o (some (j, m))).map Enq.target = ((update s.nodes n x m).pc j).stage.flight m
    by_cases e : m = n
    · subst e
      rw [Function.update_self, hpc]
      by_cases ej : j = i
      · subst ej
        rw [Function.update_self, Function.update_self, ho]
      · rw [Function.update_of_ne (by simpa using ej), Function.update_of_ne ej]
        exact h.threads m j
    · rw [Function.update_of_ne (by simp [e]), Function.update_of_ne e]
      exact h.threads m j
  · change 0 < (update s.nodes n x m).linked at hm
    by_cases e : m = n
    · subst e
      rw [Function.update_self] at hm
      rcases hl with ⟨hl, -⟩ | ⟨-, hin⟩
      · exact h.chained m (hl ▸ hm)
      · exact hin
    · rw [Function.update_of_ne e] at hm
      exact h.chained m hm
  · show 0 < (update s.nodes n x m).linked ∨ ∃ j prev, update s.queue.flight (some (i, n)) o (some (j, m)) = _
    by_cases e : m = n
    · subst e
      rw [Function.update_self]
      rcases hl with ⟨hl, hno⟩ | ⟨hl, -⟩
      · rcases h.placed m hm with hl' | ⟨j, prev, hj⟩
        · exact .inl (hl ▸ hl')
        · refine .inr ⟨j, prev, ?_⟩
          rw [Function.update_of_ne]
          · exact hj
          · intro ej
            rw [ej] at hj
            exact hno prev hj
      · exact .inl hl
    · rw [Function.update_of_ne e]
      rcases h.placed m hm with hl' | ⟨j, prev, hj⟩
      · exact .inl hl'
      · exact .inr ⟨j, prev, by rw [Function.update_of_ne (by simp [e]), hj]⟩

/-- A step of `enqueue_node` that no node has a part in. -/
theorem queue (h : Draining s rest) (hl : ∀ n, ∃ hand own pend, Ledger (s.nodes n) (s.life n) hand own pend)
    {f : Ev (ι × ν) ν} {q : Queue (ι × ν) ν} (hq : QStep s.queue f q) (hf : f.Apart) (hsame : SameFlights s.queue q)
    (hc : q.cons = s.queue.cons) : Draining { s with queue := q } rest := by
  have go : ∀ {a : Agent (ι × ν)} {p : Ptr ν} {x y : Enq ν} {next : Ptr ν → Option (Ptr ν)}, s.queue.flight a = some x →
      x.waiting = some p → (∀ z, y.target = some z → y.waiting = some p) → (∀ z ∈ s.queue.tail :: rest, next z = s.queue.next z) →
      SameFlights s.queue { s.queue with next := next, flight := update s.queue.flight a (some y) } →
      Draining { s with queue.next := next, queue.flight := update s.queue.flight a (some y) } rest := by
    intro a p x y next hx hxp hy hn hsame
    have hold : ∀ z prev, s.queue.flight a ≠ some (.link z prev) := by
      intro z prev hz
      rw [hx] at hz
      cases hz
      cases hxp
    refine h.keep (h.shut.quiet hold ?_ hn) ?_ hsame ?_ (fun _ => Iff.rfl)
    · rintro z prev ⟨rfl⟩
      cases hy z rfl
    · show DropOk s.pc s.queue.cons s.queue.tail (update s.queue.flight a (some y) none)
      cases a with
      | some i =>
        rw [Function.update_of_ne (by simp)]
        exact h.drop
      | none =>
        rw [Function.update_self]
        exact (hx ▸ h.drop : DropOk _ _ _ (some x)).goes hxp hy
    · intro z p' prev hz
      show update s.queue.flight a (some y) (some z) = _
      rw [Function.update_of_ne]
      · exact hz
      · intro e
        rw [e] at hz
        exact hold _ _ hz
  rcases thread_cases hq hc.symm with ⟨a, p, rfl, h0, rfl⟩ | ⟨a, p, rfl, h0, rfl⟩ | ⟨a, p, rfl, h0, rfl⟩ | ⟨a, p, rfl, h0, hh, rfl⟩ |
    ⟨a, p, prev, rfl, h0, rfl⟩ | ⟨i, n, rfl, h0, hb, rfl⟩ | ⟨i, w, rfl, h0, rfl⟩
  · refine go h0 rfl (fun _ _ => rfl) (fun z hz => Function.update_of_ne ?_ ..) hsame
    intro e
    subst e
    exact h.unlinked hl h0 rfl hz
  · rcases h0 with h0 | ⟨prev, h0, -, -⟩
    · exact go h0 rfl (fun _ _ => rfl) (fun _ _ => rfl) hsame
    · exact go h0 rfl (fun _ _ => rfl) (fun _ _ => rfl) hsame
  · exact go h0 rfl (fun z hz => by cases hz) (fun _ _ => rfl) hsame
  · exact absurd h.shut.head hh
  · cases a with
    | some i =>
      have := hsame i
      simp [flights, h0, Enq.target] at this
    | none =>
      obtain ⟨hpc, rfl⟩ := (h0 ▸ h.drop : DropOk _ _ _ (some (.link p prev))).link
      refine h.keep (h.shut.link h0 (fun g hg => ?_) _) ?_ hsame (fun x p' prev' hx => ?_) (fun _ => Iff.rfl)
      · cases g with
        | none => rfl
        | some x => cases (h.enqueuing hg rfl).1
      · have hd := h.drop
        rw [hpc] at hd ⊢
        exact ⟨hd.1, .inr ⟨decide (prev = .sleepMarker), by simp⟩⟩
      · show update s.queue.flight none (some (.done (decide (prev = .sleepMarker)))) (some x) = _
        rw [Function.update_of_ne (by simp)]
        exact hx
  · exact hf.elim
  · exact hf.elim

/-- A thread's step of a node and of the queue. -/
theorem both (h : Draining s rest) (hl : ∀ n, ∃ hand own pend, Ledger (s.nodes n) (s.life n) hand own pend) {n : ν} {f : NodeEv ι Unit J} {g : Ev (ι × ν) ν} {x : NodeSt ι Unit J} {q : Queue (ι × ν) ν}
    (hm : Meets n f g) (hx : NodeStep (s.nodes n) f x) (hq : QStep s.queue g q) (hg : g ≠ .answer (.data (.node n))) :
    Draining { s with queue := q, nodes := update s.nodes n x } rest := by
  have haway := h.away n
  cases hm with
  | enters a =>
    cases a with
    | none =>
      cases hx with
      | putBack next readiness hcons => rw [haway] at hcons; cases hcons
    | some i =>
      obtain ⟨hpc, hcons, hlinked⟩ : x.pc = update (s.nodes n).pc i .enqueue ∧ x.consumer = (s.nodes n).consumer ∧
          x.linked = (s.nodes n).linked := by
        cases hx with
        | loadQueue => exact ⟨rfl, rfl, rfl⟩
        | updJob => exact ⟨rfl, rfl, rfl⟩
      cases hq with
      | enqueue _ _ h0 hb =>
        refine h.thread (h.shut.quiet ?_ (by simp) (fun _ _ => rfl)) rfl hpc (hcons.trans haway) (.inl ⟨hlinked, ?_⟩)
        · simp [h0]
        · simp [h0]
  | linked a =>
    cases a with
    | none =>
      cases hx with
      | requeueLink next readiness hcons => rw [haway] at hcons; cases hcons
    | some i =>
      cases hx with
      | link _ hpc =>
        cases hq with
        | link _ _ prev h0 =>
          refine h.thread (p := .wakeup) (h.shut.link h0 (fun g hg => ?_) _) rfl rfl haway (.inr ⟨Nat.succ_pos _, ?_⟩)
          · -- the node is enqueued by one thread
            cases g with
            | none => cases (hg ▸ h.drop : DropOk _ _ _ (some (.link (.node n) prev))).link.2
            | some y =>
              obtain ⟨j, m⟩ := y
              obtain ⟨hm, hj⟩ := h.enqueuing hg rfl
              cases hm
              obtain ⟨hand, own, pend, hn⟩ := hl n
              rw [(hn.enqueuing hpc).2.2 j hj]
              rfl
          · exact List.mem_cons_of_mem _ (h.shut.linked.pending (h.shut.behind _ _ _ h0) ⟨_, h0⟩).2
  | returned i w =>
    cases hx with
    | wakeup _ ok hpc =>
      cases hq with
      | returned _ _ h0 =>
        refine h.thread (p := .ret ok) (h.shut.quiet ?_ (by simp) (fun _ _ => rfl)) rfl rfl haway (.inl ⟨rfl, ?_⟩)
        · simp [h0]
        · simp [h0]
  | data => exact absurd rfl hg

/-- `enqueue_node` finds the closed marker. -/
theorem refused (h : Draining s rest) {i : ι} {n : ν}
    (h0 : s.queue.flight (some (i, n)) = some (.swap (.node n) .closedMarker)) (c : Nat) (life : ν → Life ι) :
    Draining { s with
      queue.flight := update s.queue.flight (some (i, n)) (some (.done false))
      nodes := update s.nodes n { s.nodes n with node.refCount := c, pc := update (s.nodes n).pc i .wakeup }
      life := life } rest := by
  refine h.thread (p := .wakeup) (h.shut.quiet ?_ (by simp) (fun _ _ => rfl)) rfl rfl (h.away n) (.inl ⟨rfl, ?_⟩)
  · simp [h0]
  · simp [h0]

/-- `dequeue_node`, until it answers. -/
theorem drain (h : Draining s rest) (hpc : s.pc = .draining) {f : Ev (ι × ν) ν} {q : Queue (ι × ν) ν} (hq : QStep s.queue f q)
    (hf : f.Apart) (hc : q.cons ≠ s.queue.cons) (hcall : ∀ op, f = .called op → op = .dequeue none)
    (he : f ≠ .answer .empty) : ∃ rest', Draining { s with queue := q } rest' := by
  have hd := h.drop
  rw [hpc] at hd
  have go : ∀ {c : Cons ν}, DropOk .draining c s.queue.tail (s.queue.flight none) →
      Draining { s with queue := { s.queue with cons := c } } rest := by
    intro c hd
    refine h.keep (h.shut.congr rfl rfl (fun _ _ => rfl) (fun _ _ _ => Iff.rfl)) ?_ (fun _ => rfl) (fun _ _ _ => id) (fun _ => Iff.rfl)
    rw [hpc]
    exact hd
  have own : ∀ {c : Cons ν} {o : Option (Enq ν)}, (∀ p prev, s.queue.flight none ≠ some (.link p prev)) →
      (∀ p prev, o ≠ some (.link p prev)) → DropOk .draining c s.queue.tail o →
      Draining { s with queue := { s.queue with flight := update s.queue.flight none o, cons := c } } rest := by
    intro c o hold hnew hd
    refine h.keep (h.shut.quiet hold hnew (fun _ _ => rfl)) ?_ (fun x => ?_) (fun x p prev hx => ?_) (fun _ => Iff.rfl)
    · show DropOk s.pc c s.queue.tail (update s.queue.flight none o none)
      rw [hpc, Function.update_self]
      exact hd
    · show (update s.queue.flight none o (some x)).map Enq.target = _
      rw [Function.update_of_ne (by simp)]
    · show update s.queue.flight none o (some x) = _
      rw [Function.update_of_ne (by simp)]
      exact hx
  have marked : s.queue.AtNode none → s.queue.flight none = none ∧ (s.queue.tail.isMarker = false ∨ s.queue.tail = .closedMarker) := by
    intro hat
    rcases hat with hat | ⟨hat, hm⟩
    · rw [hat] at hd
      exact ⟨hd.1, hd.2.2⟩
    · rw [hat] at hd
      exact ⟨hd.1, .inl hm⟩
  have asked : ∀ {u}, s.queue.AtNode u → u = none := by
    intro u hat
    rcases hat with hat | ⟨hat, -⟩ <;> rw [hat] at hd
    · exact hd.2.1
    · exact hd.2
  cases hq with
  | store a p _ => exact absurd rfl hc
  | load a p _ => exact absurd rfl hc
  | closed a p _ => exact absurd rfl hc
  | swap a p prev _ _ _ => exact absurd rfl hc
  | retry a p prev _ _ _ => exact absurd rfl hc
  | link a p prev _ => exact absurd rfl hc
  | enqueue i n _ _ => exact absurd rfl hc
  | returned i w _ => exact absurd rfl hc
  | dequeue u hi =>
    rw [hi] at hd
    cases hcall _ rfl
    exact ⟨rest, go ⟨hd, rfl⟩⟩
  | deqNone u hl hmark hn =>
    rw [hl] at hd
    exact ⟨rest, go ⟨hd.1, rfl⟩⟩
  | deqSkip u b hl hmark hb =>
    rw [hl] at hd
    obtain ⟨hown, rfl⟩ := hd
    obtain ⟨ys, rfl, hs⟩ := h.shut.pop hb s.queue.busy (.deqNext none)
    refine ⟨ys, h.keep hs ?_ (fun _ => rfl) (fun _ _ _ => id) (fun n => ?_)⟩
    · show DropOk s.pc (.deqNext none) b (s.queue.flight none)
      rw [hpc]
      exact ⟨hown, rfl, h.shut.next_kind hb hmark⟩
    · have hne : Ptr.node n ≠ s.queue.tail := by
        intro e
        rw [← e] at hmark
        cases hmark
      simp [hne]
  | deqUntil u hat hu =>
    cases asked hat
    cases hu
  | deqData u b _ _ _ => exact hf.elim
  | deqMore u hat _ _ =>
    cases asked hat
    exact ⟨rest, go (marked hat)⟩
  | deqHeadNe hh _ =>
    rw [hh] at hd
    exact ⟨rest, go hd.1⟩
  | deqHeadEq hh heq =>
    rw [hh] at hd
    have ht : s.queue.tail = .closedMarker := heq.symm.trans h.shut.head
    exact ⟨rest, own (by simp [hd.1]) (by simp) ⟨ht, _, rfl, fun p hp => by cases hp; rfl⟩⟩
  | deqEnded w hh h0 =>
    rw [hh] at hd
    exact ⟨rest, own (by simp [h0]) (by simp) ⟨rfl, hd.1⟩⟩
  | deqLastData b _ _ => exact hf.elim
  | deqLastNone hh _ =>
    rw [hh] at hd
    exact ⟨rest, go hd.1⟩
  | clear _ => cases hcall _ rfl
  | clearSkip deq hh _ =>
    rw [hh] at hd
    cases hd.2
    exact absurd rfl he
  | clearStore deq hh ht =>
    rw [hh] at hd
    have hend : .endMarker ∉ s.queue.tail :: rest := by
      intro hm
      obtain ⟨-, hno⟩ := h.shut.sleep (ht ▸ List.mem_cons_self ..)
      rcases List.mem_cons.mp hm with e | hm
      · rw [ht] at e
        cases e
      · exact hno hm
    refine ⟨rest, h.keep (h.shut.congr rfl rfl (fun x hx => ?_) (fun _ _ _ => Iff.rfl)) ?_ (fun _ => rfl) (fun _ _ _ => id)
      (fun _ => Iff.rfl)⟩
    · refine Function.update_of_ne ?_ ..
      intro e
      exact hend (e ▸ hx)
    · rw [hpc]
      exact hd
  | clearSwap deq hh hhead =>
    rw [h.shut.head] at hhead
    cases hhead
  | clearFail deq hh _ =>
    rw [hh] at hd
    cases hd.2
    exact absurd rfl he
  | prepare _ => cases hcall _ rfl
  | prepareHead hh _ => rw [hh] at hd; exact hd.elim
  | prepareNo hh _ _ => rw [hh] at hd; exact hd.elim
  | prepareStore hh _ => rw [hh] at hd; exact hd.elim
  | prepareSwap hh _ => rw [hh] at hd; exact hd.elim
  | prepareFail hh _ => rw [hh] at hd; exact hd.elim
  | requeue n _ _ => exact hf.elim
  | requeued w hh _ => rw [hh] at hd; exact hd.elim

/-- It answers that the queue is empty. -/
theorem dropped (h : Draining s rest) (hpc : s.pc = .draining) {q : Queue (ι × ν) ν} (hq : QStep s.queue (.answer .empty) q) :
    Draining { s with queue := q, pc := .dropped } rest := by
  have hd := h.drop
  rw [hpc] at hd
  have go : s.queue.flight none = none → Draining { s with queue := { s.queue with cons := .idle }, pc := .dropped } rest := by
    intro hown
    exact h.keep (h.shut.congr rfl rfl (fun _ _ => rfl) (fun _ _ _ => Iff.rfl)) ⟨rfl, hown⟩ (fun _ => rfl) (fun _ _ _ => id)
      (fun _ => Iff.rfl)
  generalize he : (Ev.answer .empty : Ev (ι × ν) ν) = f at hq
  cases hq with
  | deqUntil u hat hu =>
    rcases hat with hat | ⟨hat, -⟩ <;> rw [hat] at hd
    · exact go hd.1
    · exact go hd.1
  | clearSkip deq hh _ =>
    rw [hh] at hd
    exact go hd.1
  | clearSwap deq hh hhead =>
    rw [h.shut.head] at hhead
    cases hhead
  | clearFail deq hh _ =>
    rw [hh] at hd
    exact go hd.1
  | _ => cases he

/-- It hands out a node, which is linked. -/
theorem taken (h : Draining s rest) (hpc : s.pc = .draining) (hl : ∀ n, ∃ hand own pend, Ledger (s.nodes n) (s.life n) hand own pend)
    {n : ν} {q : Queue (ι × ν) ν} (hq : QStep s.queue (.answer (.data (.node n))) q) (life : ν → Life ι) :
    0 < (s.nodes n).linked ∧ ∃ rest', Draining { s with
      queue := q
      nodes := update s.nodes n { s.nodes n with linked := (s.nodes n).linked - 1 }
      life := life
      pc := .releasing n } rest' := by
  obtain ⟨ht, hat, b, hb, rfl⟩ := data_cases hq
  have hd := h.drop
  rw [hpc] at hd
  have hown : s.queue.flight none = none := by
    rcases hat with ⟨u, hat | ⟨hat, -⟩⟩ | hat <;> rw [hat] at hd <;> exact hd.1
  have hin : Ptr.node n ∈ s.queue.tail :: rest := ht ▸ List.mem_cons_self ..
  -- a thread with its link to write would put it further on
  have hlinked : 0 < (s.nodes n).linked := by
    rcases h.placed n hin with hlk | ⟨i, prev, hi⟩
    · exact hlk
    · have := (h.shut.linked.pending (h.shut.behind _ _ _ hi) ⟨_, hi⟩).2
      rw [ht] at this
      exact absurd this (List.nodup_cons.mp h.shut.nodup).1
  have hle : (s.nodes n).linked ≤ 1 := by
    obtain ⟨hand, own, pend, hn⟩ := hl n
    have hlk := hn.node.held.linked
    change (own = _ → (s.nodes n).linked + _ = 1) ∧ (own ≠ _ → (s.nodes n).linked + _ = 0) at hlk
    by_cases ho : own = some .queue
    · have := hlk.1 ho
      omega
    · have := hlk.2 ho
      omega
  obtain ⟨ys, rfl, hs⟩ := h.shut.pop hb (handOut s.queue.busy s.queue.tail) .idle
  have hnot : Ptr.node n ∉ b :: ys := ht ▸ (List.nodup_cons.mp h.shut.nodup).1
  have hmem : ∀ m, m ≠ n → (Ptr.node m ∈ b :: ys ↔ Ptr.node m ∈ s.queue.tail :: b :: ys) := by
    intro m hm
    have hne : Ptr.node m ≠ s.queue.tail := by
      rw [← ht]
      simpa using hm
    rw [List.mem_cons (a := Ptr.node m) (b := s.queue.tail), or_iff_right hne]
  refine ⟨hlinked, ys, hs, ⟨rfl, hown⟩, fun m => ?_, fun m i => ?_, fun m hm => ?_, fun m hm => ?_⟩
  · refine (Function.forall_update_iff s.nodes fun _ x => x.consumer = .away).mpr ⟨?_, fun m _ => h.away m⟩ m
    exact h.away n
  · refine (Function.forall_update_iff s.nodes fun m x => flights s.queue (some (i, m)) = (x.pc i).stage.flight m).mpr
      ⟨?_, fun m _ => h.threads m i⟩ m
    exact h.threads n i
  · change 0 < (update s.nodes n _ m).linked at hm
    by_cases e : m = n
    · subst e
      rw [Function.update_self] at hm
      change 0 < (s.nodes m).linked - 1 at hm
      omega
    · rw [Function.update_of_ne e] at hm
      exact (hmem m e).mpr (h.chained m hm)
  · by_cases e : m = n
    · subst e
      exact absurd hm hnot
    · show 0 < (update s.nodes n _ m).linked ∨ _
      rw [Function.update_of_ne e]
      exact h.placed m ((hmem m e).mp hm)

theorem step (h : Draining s rest) (hl : ∀ n, ∃ hand own pend, Ledger (s.nodes n) (s.life n) hand own pend)
    (hs : SharedStep s e t) : ∃ rest', Draining t rest' := by
  have hd := h.drop
  cases hs with
  | node n f x hx hf ha =>
    obtain ⟨hst, hlinked, -, haway, -⟩ := apart_step hx hf
    refine ⟨rest, h.nodes hst hlinked ?_ hd⟩
    by_contra hc
    exact haway hc (h.away n)
  | queue f q hq hf hsame hc => exact ⟨rest, h.queue hl hq hf hsame hc⟩
  | poll f q hpc _ _ _ _ => rw [hpc] at hd; exact hd.elim
  | both n f g x q hmeet hx hq hal =>
    refine ⟨rest, h.both hl hmeet hx hq fun hg => ?_⟩
    rw [hal hg] at hd
    exact hd
  | refused i n hpc h0 => exact ⟨rest, h.refused h0 _ _⟩
  | clone n _ _ => exact ⟨rest, h.nodes (fun _ => rfl) rfl (h.away n) hd⟩
  | dropSetReadiness n _ _ => exact ⟨rest, h.nodes (fun _ => rfl) rfl (h.away n) hd⟩
  | dropRegistration i n ok _ hpc => exact ⟨rest, h.nodes (stage_update (by rw [hpc]; rfl)) rfl (h.away n) hd⟩
  | close hpc _ _ _ => rw [hpc] at hd; exact hd.elim
  | closed w hpc h0 =>
    rw [hpc] at hd
    refine ⟨rest, h.keep (h.shut.quiet (by simp [h0]) (by simp) (fun _ _ => rfl)) ?_ (fun x => ?_) (fun x p prev hx => ?_)
      (fun _ => Iff.rfl)⟩
    · show DropOk .draining s.queue.cons s.queue.tail (update s.queue.flight none none none)
      rw [hd.1, Function.update_self]
      rfl
    · show (update s.queue.flight none none (some x)).map Enq.target = _
      rw [Function.update_of_ne (by simp)]
    · show update s.queue.flight none none (some x) = _
      rw [Function.update_of_ne (by simp)]
      exact hx
  | drain f q hpc hq hf hc hcall he => exact h.drain hpc hq hf hc hcall he
  | taken n q hpc hq => exact (h.taken hpc hl hq _).2
  | release n hpc =>
    rw [hpc] at hd
    refine ⟨rest, h.nodes (fun _ => rfl) rfl (h.away n) ?_⟩
    rw [hd.1]
    exact hd.2
  | dropped q hpc hq => exact ⟨rest, h.dropped hpc hq⟩

end Draining

end Steps

end Sickle.Poll
