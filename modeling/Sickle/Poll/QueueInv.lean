/-
  Sickle.Poll.QueueInv — the shape of the queue between any two steps.

  Behind `tail` the queue is a chain of distinct pointers that ends at `head`; where a
  link is missing, exactly one thread has taken the next place and has still to write it
  (`Shape`). What a thread is about to enqueue is in the chain only from its exchange of
  the head on, no two threads enqueue the same thing, and a thread that links a
  predecessor finds it still in the chain (`Flights`).

  `run_inv` is that, in every reachable state, and more:
  - `queue_order`: what has been handed out, then the nodes of the chain, is the order in
    which nodes took their place at the head; so nothing is lost, doubled or reordered.
  - `data_linked`: a node is handed out only when its `enqueue_node` has linked it.
  - markers: the sleep marker is only ever at the tail, without the end marker, and an end
    marker about to be enqueued is not in the chain.
-/

import Mathlib.Data.List.Nodup
import Sickle.Lib.Chain
import Sickle.Poll.Queue

namespace Sickle.Poll

open Function (update)
open Sickle.Lib Sickle.Lib.Chain

variable {ι ν : Type}

/-- What a call of `enqueue_node` enqueues. -/
def Enq.target (e : Enq ν) : Option (Ptr ν) :=
  match e with
  | .store p => some p
  | .load p => some p
  | .swap p _ => some p
  | .link p _ => some p
  | .done _ => none

/-- The same, until its place is taken. -/
def Enq.waiting (e : Enq ν) : Option (Ptr ν) :=
  match e with
  | .store p => some p
  | .load p => some p
  | .swap p _ => some p
  | _ => none

theorem Enq.target_of_waiting {e : Enq ν} {p : Ptr ν} (h : e.waiting = some p) : e.target = some p := by
  cases e <;> first | exact h | cases h

/-- Some thread has still to write `b` to `a.next`. -/
def Pend (flight : Agent ι → Option (Enq ν)) (a b : Ptr ν) : Prop := ∃ g, flight g = some (.link b a)

structure Shape (head tail : Ptr ν) (next : Ptr ν → Option (Ptr ν)) (flight : Agent ι → Option (Enq ν))
    (rest : List (Ptr ν)) : Prop where
  last : rest.getLastD tail = head
  nodup : (tail :: rest).Nodup
  linked : Linked next (Pend flight) (tail :: rest)
  /-- The sleep marker is at the tail only, and not together with the end marker. -/
  sleep : .sleepMarker ∈ tail :: rest → tail = .sleepMarker ∧ .endMarker ∉ rest
  notClosed : .closedMarker ∉ tail :: rest

/-- What goes behind the chain is not the sleep marker, nor the end marker behind it. -/
theorem sleep_concat {tail p : Ptr ν} {rest : List (Ptr ν)} (h : .sleepMarker ∈ tail :: rest → tail = .sleepMarker ∧ .endMarker ∉ rest)
    (hp : p ≠ .sleepMarker) (hend : p = .endMarker → tail ≠ .sleepMarker) :
    .sleepMarker ∈ tail :: (rest ++ [p]) → tail = .sleepMarker ∧ .endMarker ∉ rest ++ [p] := by
  intro hm
  rw [← List.cons_append] at hm
  rcases List.mem_append.mp hm with hm | hm
  · obtain ⟨ht, he⟩ := h hm
    refine ⟨ht, fun hm' => ?_⟩
    rcases List.mem_append.mp hm' with hm' | hm'
    · exact he hm'
    · exact hend (List.mem_singleton.mp hm').symm ht
  · exact absurd (List.mem_singleton.mp hm).symm hp

theorem notClosed_concat {tail p : Ptr ν} {rest : List (Ptr ν)} (h : .closedMarker ∉ tail :: rest) (hp : p ≠ .closedMarker) :
    .closedMarker ∉ tail :: (rest ++ [p]) := by
  rw [← List.cons_append]
  intro hm
  rcases List.mem_append.mp hm with hm | hm
  · exact h hm
  · exact hp (List.mem_singleton.mp hm).symm

/-- A node, or the end marker behind no marker: what may go behind the chain. -/
theorem kind_ne {tail p : Ptr ν} (h : (∃ n, p = .node n) ∨ (p = .endMarker ∧ tail.isMarker = false)) :
    p ≠ .sleepMarker ∧ p ≠ .closedMarker ∧ (p = .endMarker → tail ≠ .sleepMarker) := by
  rcases h with ⟨n, rfl⟩ | ⟨rfl, ht⟩
  · simp
  · refine ⟨by simp, by simp, fun _ hs => ?_⟩
    rw [hs] at ht
    cases ht

structure Flights (tail : Ptr ν) (next : Ptr ν → Option (Ptr ν)) (flight : Agent ι → Option (Enq ν)) (busy : ν → Bool)
    (rest : List (Ptr ν)) : Prop where
  unlinked : ∀ g e p, flight g = some e → e.waiting = some p → p ∉ tail :: rest
  nulled : ∀ g p, (flight g = some (.load p) ∨ ∃ prev, flight g = some (.swap p prev)) → next p = none
  behind : ∀ g p prev, flight g = some (.link p prev) → prev ∈ tail :: rest
  distinct : ∀ g g' e e' p, flight g = some e → flight g' = some e' → e.target = some p → e'.target = some p → g = g'
  busyChain : ∀ n, .node n ∈ tail :: rest → busy n = true
  busyFlight : ∀ g e n, flight g = some e → e.target = some (.node n) → busy n = true
  producer : ∀ i e p, flight (some i) = some e → e.target = some p → ∃ n, p = .node n
  opened : ∀ g p, flight g ≠ some (.swap p .closedMarker)
  /-- What is not free to be enqueued is in the chain or on its way there. -/
  placed : ∀ n, busy n = true → .node n ∈ tail :: rest ∨ ∃ g e, flight g = some e ∧ e.waiting = some (.node n)

/-- What the consumer knows, where it is. -/
def ConsInv (cons : Cons ν) (tail : Ptr ν) (next : Ptr ν → Option (Ptr ν)) (own : Option (Enq ν)) : Prop :=
  match cons with
  | .deqNext _ => own = none ∧ tail.isMarker = false
  | .deqHead => own = none ∧ tail.isMarker = false
  | .deqLast => own = none ∧ tail.isMarker = false
  | .deqEnd => tail.isMarker = false ∧ ∃ e, own = some e ∧ ∀ p, e.target = some p → p = .endMarker
  | .requeue => ∃ e, own = some e ∧ ∀ p, e.target = some p → ∃ n, p = .node n
  | .clearSwap _ => own = none ∧ tail = .sleepMarker ∧ next .endMarker = none
  | .prepareSwap => own = none ∧ tail = .endMarker ∧ next .sleepMarker = none
  | _ => own = none

structure Inv (s : Queue ι ν) (rest : List (Ptr ν)) : Prop where
  shape : Shape s.head s.tail s.next s.flight rest
  flights : Flights s.tail s.next s.flight s.busy rest
  cons : ConsInv s.cons s.tail s.next (s.flight none)

theorem new_inv : Inv (Queue.new ι ν) [] where
  shape := {
    last := rfl
    nodup := List.nodup_singleton _
    linked := ⟨rfl, fun c hc => by obtain ⟨g, hg⟩ := hc; cases hg⟩
    sleep := fun h => by cases List.mem_singleton.mp h
    notClosed := fun h => by cases List.mem_singleton.mp h }
  flights := {
    unlinked := fun g e p h => by cases h
    nulled := fun g p _ => rfl
    behind := fun g p prev h => by cases h
    distinct := fun g g' e e' p h => by cases h
    busyChain := fun n h => by cases List.mem_singleton.mp h
    busyFlight := fun g e n h => by cases h
    producer := fun i e p h => by cases h
    opened := fun g p h => by cases h
    placed := fun n h => by cases h }
  cons := rfl

/-! ## One thread moves on -/

/-- The chain depends on the links of its own pointers only. -/
theorem Shape.congr {head tail : Ptr ν} {next next' : Ptr ν → Option (Ptr ν)} {flight flight' : Agent ι → Option (Enq ν)}
    {rest : List (Ptr ν)} (h : Shape head tail next flight rest) (hn : ∀ x ∈ tail :: rest, next' x = next x)
    (hp : ∀ x c, Pend flight' x c ↔ Pend flight x c) : Shape head tail next' flight' rest :=
  ⟨h.last, h.nodup, h.linked.congr hn (fun x _ => hp x), h.sleep, h.notClosed⟩

theorem Shape.head_mem {head tail : Ptr ν} {next : Ptr ν → Option (Ptr ν)} {flight : Agent ι → Option (Enq ν)}
    {rest : List (Ptr ν)} (h : Shape head tail next flight rest) : head ∈ tail :: rest := by
  obtain ⟨xs, hxs⟩ := exists_concat h.last
  rw [hxs]
  exact List.mem_concat_self

section flight

variable [DecidableEq ι]

theorem flight_cases {flight : Agent ι → Option (Enq ν)} {g a : Agent ι} {e : Enq ν} {o : Option (Enq ν)}
    (h : update flight a o g = some e) : (g = a ∧ o = some e) ∨ (g ≠ a ∧ flight g = some e) := by
  by_cases hg : g = a
  · subst hg; rw [Function.update_self] at h; exact .inl ⟨rfl, h⟩
  · rw [Function.update_of_ne hg] at h; exact .inr ⟨hg, h⟩

theorem flight_keep {flight : Agent ι → Option (Enq ν)} {g a : Agent ι} {e : Enq ν} (h : flight g = some e)
    (ha : flight a ≠ some e) (o : Option (Enq ν)) : update flight a o g = some e := by
  have hga : g ≠ a := fun hga => ha (hga ▸ h)
  rw [Function.update_of_ne hga, h]

/-- A thread that neither had a link to write nor has one now changes no pending link. -/
theorem pend_quiet {flight : Agent ι → Option (Enq ν)} {a : Agent ι} {o : Option (Enq ν)}
    (hold : ∀ p prev, flight a ≠ some (.link p prev)) (hnew : ∀ p prev, o ≠ some (.link p prev)) (x c : Ptr ν) :
    Pend (update flight a o) x c ↔ Pend flight x c := by
  constructor
  · intro hx
    obtain ⟨g, hg⟩ := hx
    rcases flight_cases hg with ⟨-, h⟩ | ⟨-, h⟩
    · exact absurd h (hnew _ _)
    · exact ⟨g, h⟩
  · intro hx
    obtain ⟨g, hg⟩ := hx
    exact ⟨g, flight_keep hg (hold _ _) o⟩

/-- One thread goes from a point of `enqueue_node` to the next one, the chain as it is. -/
theorem Flights.move {tail : Ptr ν} {next next' : Ptr ν → Option (Ptr ν)} {flight : Agent ι → Option (Enq ν)} {busy : ν → Bool}
    {rest : List (Ptr ν)} (h : Flights tail next flight busy rest) {a : Agent ι} {e0 : Enq ν} (h0 : flight a = some e0)
    {o : Option (Enq ν)} (ht : ∀ e p, o = some e → e.target = some p → e0.target = some p)
    (hw : ∀ e p, o = some e → e.waiting = some p → e0.waiting = some p)
    (hnull : ∀ p, (o = some (.load p) ∨ ∃ prev, o = some (.swap p prev)) → next' p = none)
    (hb : ∀ p prev, o = some (.link p prev) → prev ∈ tail :: rest)
    (hnext : ∀ p, p ∉ tail :: rest → next p = none → next' p = none) (hopen : ∀ p, o ≠ some (.swap p .closedMarker))
    (hkeep : ∀ p, e0.waiting = some p → ∃ e, o = some e ∧ e.waiting = some p) :
    Flights tail next' (update flight a o) busy rest := by
  -- a thread's target is, before the step too, that thread's target
  have old : ∀ g e p, update flight a o g = some e → e.target = some p → ∃ e', flight g = some e' ∧ e'.target = some p := by
    intro g e p hg hp
    rcases flight_cases hg with ⟨rfl, ho⟩ | ⟨-, hg⟩
    · exact ⟨e0, h0, ht e p ho hp⟩
    · exact ⟨e, hg, hp⟩
  constructor
  · intro g e p hg hp
    rcases flight_cases hg with ⟨rfl, ho⟩ | ⟨-, hg⟩
    · exact h.unlinked g e0 p h0 (hw e p ho hp)
    · exact h.unlinked g e p hg hp
  · intro g p hg
    by_cases e : g = a
    · subst e
      rw [Function.update_self] at hg
      exact hnull p hg
    · rw [Function.update_of_ne e] at hg
      refine hnext p ?_ (h.nulled g p hg)
      rcases hg with hg | ⟨prev, hg⟩
      · exact h.unlinked g _ p hg rfl
      · exact h.unlinked g _ p hg rfl
  · intro g p prev hg
    rcases flight_cases hg with ⟨rfl, ho⟩ | ⟨-, hg⟩
    · exact hb p prev ho
    · exact h.behind g p prev hg
  · intro g g' e e' p hg hg' hp hp'
    obtain ⟨f, hf, hfp⟩ := old g e p hg hp
    obtain ⟨f', hf', hfp'⟩ := old g' e' p hg' hp'
    exact h.distinct g g' f f' p hf hf' hfp hfp'
  · exact h.busyChain
  · intro g e n hg hp
    obtain ⟨f, hf, hfp⟩ := old g e _ hg hp
    exact h.busyFlight g f n hf hfp
  · intro i e p hg hp
    obtain ⟨f, hf, hfp⟩ := old _ e p hg hp
    exact h.producer i f p hf hfp
  · intro g p hg
    rcases flight_cases hg with ⟨-, ho⟩ | ⟨-, hg⟩
    · exact hopen p ho
    · exact h.opened g p hg
  · intro n hn
    rcases h.placed n hn with hm | ⟨g, e, hg, hw⟩
    · exact .inl hm
    · right
      by_cases hga : g = a
      · subst hga
        obtain rfl : e0 = e := Option.some.inj (h0.symm.trans hg)
        obtain ⟨e', ho, hw'⟩ := hkeep (.node n) hw
        exact ⟨g, e', by rw [Function.update_self, ho], hw'⟩
      · exact ⟨g, e, by rw [Function.update_of_ne hga, hg], hw⟩

/-- A thread that goes on to neither the load nor the exchange of the head. -/
theorem Flights.nulled_move {tail : Ptr ν} {next : Ptr ν → Option (Ptr ν)} {flight : Agent ι → Option (Enq ν)} {busy : ν → Bool}
    {rest : List (Ptr ν)} (h : Flights tail next flight busy rest) {a : Agent ι} {o : Option (Enq ν)}
    (hload : ∀ p, o ≠ some (.load p)) (hswap : ∀ p prev, o ≠ some (.swap p prev)) :
    ∀ g p, (update flight a o g = some (.load p) ∨ ∃ prev, update flight a o g = some (.swap p prev)) → next p = none := by
  rintro g p (hg | ⟨prev, hg⟩)
  · rcases flight_cases hg with ⟨-, ho⟩ | ⟨-, hg⟩
    · exact absurd ho (hload p)
    · exact h.nulled g p (.inl hg)
  · rcases flight_cases hg with ⟨-, ho⟩ | ⟨-, hg⟩
    · exact absurd ho (hswap p prev)
    · exact h.nulled g p (.inr ⟨prev, hg⟩)

/-- A call of `enqueue_node` begins, of something that is neither in the chain nor on its
    way there. -/
theorem Flights.begin {tail : Ptr ν} {next : Ptr ν → Option (Ptr ν)} {flight : Agent ι → Option (Enq ν)} {busy busy' : ν → Bool}
    {rest : List (Ptr ν)} (h : Flights tail next flight busy rest) {a : Agent ι} {p : Ptr ν} (hp : p ∉ tail :: rest)
    (hfree : ∀ g e, flight g = some e → e.target ≠ some p) (hbusy : ∀ n, busy n = true → busy' n = true)
    (hnew : ∀ n, p = .node n → busy' n = true) (hprod : ∀ i, a = some i → ∃ n, p = .node n) (h0 : flight a = none)
    (hold : ∀ n, busy' n = true → busy n = true ∨ p = .node n) :
    Flights tail next (update flight a (some (.store p))) busy' rest := by
  constructor
  · intro g e q hg hq
    rcases flight_cases hg with ⟨rfl, ho⟩ | ⟨-, hg⟩
    · cases ho; cases hq; exact hp
    · exact h.unlinked g e q hg hq
  · exact h.nulled_move (by simp) (by simp)
  · intro g q prev hg
    rcases flight_cases hg with ⟨rfl, ho⟩ | ⟨-, hg⟩
    · cases ho
    · exact h.behind g q prev hg
  · intro g g' e e' q hg hg' hq hq'
    rcases flight_cases hg with ⟨hga, ho⟩ | ⟨-, hf⟩ <;> rcases flight_cases hg' with ⟨hga', ho'⟩ | ⟨-, hf'⟩
    · rw [hga, hga']
    · cases ho; cases hq; exact absurd hq' (hfree g' e' hf')
    · cases ho'; cases hq'; exact absurd hq (hfree g e hf)
    · exact h.distinct g g' e e' q hf hf' hq hq'
  · exact fun n hn => hbusy n (h.busyChain n hn)
  · intro g e n hg hn
    rcases flight_cases hg with ⟨rfl, ho⟩ | ⟨-, hg⟩
    · cases ho; cases hn; exact hnew n rfl
    · exact hbusy n (h.busyFlight g e n hg hn)
  · intro i e q hg hq
    rcases flight_cases hg with ⟨hi, ho⟩ | ⟨-, hg⟩
    · cases ho; cases hq; exact hprod i hi.symm
    · exact h.producer i e q hg hq
  · intro g q hg
    rcases flight_cases hg with ⟨-, ho⟩ | ⟨-, hg⟩
    · cases ho
    · exact h.opened g q hg
  · intro n hn
    rcases hold n hn with hn | rfl
    · rcases h.placed n hn with hm | ⟨g, e, hg, hw⟩
      · exact .inl hm
      · have hga : g ≠ a := by intro e; subst e; rw [h0] at hg; cases hg
        exact .inr ⟨g, e, by rw [Function.update_of_ne hga, hg], hw⟩
    · exact .inr ⟨a, _, Function.update_self .., rfl⟩

/-- A thread takes the place behind the head, of something that is not in the chain and
    leads nowhere: it has the link from the head to write. -/
theorem Shape.linked_push {head tail p : Ptr ν} {next : Ptr ν → Option (Ptr ν)} {flight : Agent ι → Option (Enq ν)}
    {rest : List (Ptr ν)} (h : Shape head tail next flight rest)
    (hb : ∀ g q prev, flight g = some (.link q prev) → prev ∈ tail :: rest) {a : Agent ι}
    (ha : ∀ q prev, flight a ≠ some (.link q prev)) (hp : p ∉ tail :: rest) (hn : next p = none) :
    (tail :: (rest ++ [p])).Nodup ∧ Linked next (Pend (update flight a (some (.link p head)))) (tail :: (rest ++ [p])) := by
  obtain ⟨xs, hxs⟩ := exists_concat h.last
  have hl := h.linked
  have hnd := h.nodup
  rw [hxs] at hp hl hnd
  have hhead : head ∉ xs := fun hm => (List.nodup_append.mp hnd).2.2 head hm head (List.mem_singleton.mpr rfl) rfl
  have hne : head ≠ p := by intro e; subst e; exact hp (by simp)
  constructor
  · rw [← List.cons_append, hxs]
    refine List.nodup_append.mpr ⟨hnd, by simp, fun x hx y hy => ?_⟩
    obtain rfl := List.mem_singleton.mp hy
    exact fun e => hp (e ▸ hx)
  · rw [← List.cons_append, hxs, List.append_assoc]
    refine hl.push hhead hn (fun c hc => ?_) (fun c => ?_) (fun x hx c => ?_)
    · obtain ⟨g, hg⟩ := hc
      rcases flight_cases hg with ⟨-, ho⟩ | ⟨-, hg⟩
      · cases ho; exact hne rfl
      · exact hp (hxs ▸ hb g c p hg)
    · constructor
      · intro hx
        obtain ⟨g, hg⟩ := hx
        rcases flight_cases hg with ⟨-, ho⟩ | ⟨-, hg⟩
        · cases ho; rfl
        · exact absurd ⟨g, hg⟩ (hl.last.2 c)
      · intro e; subst e; exact ⟨a, Function.update_self ..⟩
    · constructor
      · intro hx
        obtain ⟨g, hg⟩ := hx
        rcases flight_cases hg with ⟨-, ho⟩ | ⟨-, hg⟩
        · cases ho; exact absurd hx hhead
        · exact ⟨g, hg⟩
      · intro hx
        obtain ⟨g, hg⟩ := hx
        exact ⟨g, flight_keep hg (ha _ _) _⟩

/-- A thread's exchange of the head succeeds: what it enqueues is the last of the chain,
    and it has the link from the old head to write. -/
theorem Shape.push {head tail p : Ptr ν} {next : Ptr ν → Option (Ptr ν)} {flight : Agent ι → Option (Enq ν)} {busy : ν → Bool}
    {rest : List (Ptr ν)} (h : Shape head tail next flight rest) (hf : Flights tail next flight busy rest) {a : Agent ι}
    (ha : flight a = some (.swap p head)) (hkind : (∃ n, p = .node n) ∨ (p = .endMarker ∧ tail.isMarker = false)) :
    Shape p tail next (update flight a (some (.link p head))) (rest ++ [p]) := by
  obtain ⟨hnd, hl⟩ := h.linked_push hf.behind (a := a) (by simp [ha]) (hf.unlinked a _ p ha rfl) (hf.nulled a p (.inr ⟨head, ha⟩))
  obtain ⟨hsleep, hclosed, hend⟩ := kind_ne hkind
  exact ⟨by rw [List.getLastD_concat], hnd, hl, sleep_concat h.sleep hsleep hend, notClosed_concat h.notClosed hclosed⟩

theorem Flights.push {head tail p : Ptr ν} {next : Ptr ν → Option (Ptr ν)} {flight : Agent ι → Option (Enq ν)} {busy : ν → Bool}
    {rest : List (Ptr ν)} (h : Flights tail next flight busy rest) (hs : Shape head tail next flight rest) {a : Agent ι}
    (ha : flight a = some (.swap p head)) : Flights tail next (update flight a (some (.link p head))) busy (rest ++ [p]) := by
  have old : ∀ g e q, update flight a (some (.link p head)) g = some e → e.target = some q →
      ∃ e', flight g = some e' ∧ e'.target = some q := by
    intro g e q hg hq
    rcases flight_cases hg with ⟨rfl, ho⟩ | ⟨-, hg⟩
    · cases ho; cases hq; exact ⟨_, ha, rfl⟩
    · exact ⟨e, hg, hq⟩
  constructor
  · intro g e q hg hq
    rcases flight_cases hg with ⟨rfl, ho⟩ | ⟨hne, hold⟩
    · cases ho; cases hq
    · rw [← List.cons_append]
      intro hm
      rcases List.mem_append.mp hm with hm | hm
      · exact h.unlinked g e q hold hq hm
      · rw [List.mem_singleton.mp hm] at hq
        exact hne (h.distinct g a e _ p hold ha (Enq.target_of_waiting hq) rfl)
  · exact h.nulled_move (by simp) (by simp)
  · intro g q prev hg
    rw [← List.cons_append]
    rcases flight_cases hg with ⟨rfl, ho⟩ | ⟨-, hg⟩
    · cases ho; exact List.mem_append_left _ hs.head_mem
    · exact List.mem_append_left _ (h.behind g q prev hg)
  · intro g g' e e' q hg hg' hq hq'
    obtain ⟨f, hf, hfq⟩ := old g e q hg hq
    obtain ⟨f', hf', hfq'⟩ := old g' e' q hg' hq'
    exact h.distinct g g' f f' q hf hf' hfq hfq'
  · intro n hn
    rw [← List.cons_append] at hn
    rcases List.mem_append.mp hn with hn | hn
    · exact h.busyChain n hn
    · exact h.busyFlight a _ n ha (by rw [List.mem_singleton.mp hn]; rfl)
  · intro g e n hg hn
    obtain ⟨f, hf, hfn⟩ := old g e _ hg hn
    exact h.busyFlight g f n hf hfn
  · intro i e q hg hq
    obtain ⟨f, hf, hfq⟩ := old _ e q hg hq
    exact h.producer i f q hf hfq
  · intro g q hg
    rcases flight_cases hg with ⟨-, ho⟩ | ⟨-, hg⟩
    · cases ho
    · exact h.opened g q hg
  · intro n hn
    rw [← List.cons_append]
    rcases h.placed n hn with hm | ⟨g, e, hg, hw⟩
    · exact .inl (List.mem_append_left _ hm)
    · by_cases hga : g = a
      · subst hga
        obtain rfl : Enq.swap p head = e := Option.some.inj (ha.symm.trans hg)
        cases hw
        exact .inl (by simp)
      · exact .inr ⟨g, e, by rw [Function.update_of_ne hga, hg], hw⟩

end flight

/-! ## The consumer moves on -/

/-- The tail moves to what it leads to. -/
theorem Shape.pop {head tail b : Ptr ν} {next : Ptr ν → Option (Ptr ν)} {flight : Agent ι → Option (Enq ν)}
    {rest : List (Ptr ν)} (h : Shape head tail next flight rest) (hb : next tail = some b) :
    ∃ ys, rest = b :: ys ∧ Shape head b next flight ys := by
  obtain ⟨ys, rfl, -⟩ := h.linked.pop hb
  refine ⟨ys, rfl, ⟨?_, (List.nodup_cons.mp h.nodup).2, h.linked.tail, fun hm => ?_,
    fun hm => h.notClosed (List.mem_cons_of_mem _ hm)⟩⟩
  · rw [← h.last]; cases ys <;> rfl
  · -- a sleep marker would be at the old tail
    obtain ⟨ht, -⟩ := h.sleep (List.mem_cons_of_mem _ hm)
    exact absurd (ht ▸ hm) (List.nodup_cons.mp h.nodup).1

/-- Nobody is enqueuing the tail: the link to it is written. -/
theorem Flights.settled {head tail : Ptr ν} {next : Ptr ν → Option (Ptr ν)} {flight : Agent ι → Option (Enq ν)}
    {busy : ν → Bool} {rest : List (Ptr ν)} (h : Flights tail next flight busy rest)
    (hs : Shape head tail next flight rest) {g : Agent ι} {e : Enq ν} (hg : flight g = some e) :
    e.target ≠ some tail := by
  intro ht
  cases e with
  | link p prev =>
    cases ht
    exact (List.nodup_cons.mp hs.nodup).1 (hs.linked.pending (h.behind g _ prev hg) ⟨g, hg⟩).2
  | done w => cases ht
  | store p => cases ht; exact h.unlinked g _ _ hg rfl (List.mem_cons_self ..)
  | load p => cases ht; exact h.unlinked g _ _ hg rfl (List.mem_cons_self ..)
  | swap p prev => cases ht; exact h.unlinked g _ _ hg rfl (List.mem_cons_self ..)

theorem Flights.pop {head tail b : Ptr ν} {next : Ptr ν → Option (Ptr ν)} {flight : Agent ι → Option (Enq ν)}
    {busy busy' : ν → Bool} {ys : List (Ptr ν)} (h : Flights tail next flight busy (b :: ys))
    (hs : Shape head tail next flight (b :: ys)) (hb : next tail = some b)
    (hbusy : ∀ n, tail ≠ .node n → busy n = true → busy' n = true)
    (hout : ∀ n, busy' n = true → busy n = true ∧ tail ≠ .node n) : Flights b next flight busy' ys := by
  have htail : tail ∉ b :: ys := (List.nodup_cons.mp hs.nodup).1
  constructor
  · exact fun g e p hg hp hm => h.unlinked g e p hg hp (List.mem_cons_of_mem _ hm)
  · exact h.nulled
  · intro g p prev hg
    rcases List.mem_cons.mp (h.behind g p prev hg) with rfl | hm
    · obtain ⟨zs, -, hc⟩ := hs.linked.pop hb
      exact absurd ⟨g, hg⟩ (hc p)
    · exact hm
  · exact h.distinct
  · intro n hn
    refine hbusy n ?_ (h.busyChain n (List.mem_cons_of_mem _ hn))
    intro e; subst e; exact htail hn
  · intro g e n hg hn
    refine hbusy n ?_ (h.busyFlight g e n hg hn)
    intro e; subst e; exact h.settled hs hg hn
  · exact h.producer
  · exact h.opened
  · intro n hn
    obtain ⟨hn, hne⟩ := hout n hn
    rcases h.placed n hn with hm | hw
    · rcases List.mem_cons.mp hm with e | hm
      · exact absurd e.symm hne
      · exact .inl hm
    · exact .inr hw

/-- A chain of one marker becomes a chain of another. -/
theorem Shape.replace {x y : Ptr ν} {next : Ptr ν → Option (Ptr ν)} {flight : Agent ι → Option (Enq ν)} {busy : ν → Bool}
    (h : Shape x x next flight []) (hf : Flights x next flight busy []) (hy : next y = none)
    (hmark : y = .endMarker ∨ y = .sleepMarker) : Shape y y next flight [] := by
  have hno : ∀ g p prev, flight g ≠ some (.link p prev) := by
    intro g p prev hg
    obtain rfl := List.mem_singleton.mp (hf.behind g p prev hg)
    exact h.linked.2 p ⟨g, hg⟩
  refine ⟨rfl, by simp, ⟨hy, fun c ⟨g, hg⟩ => hno g c y hg⟩, fun hm => ⟨(List.mem_singleton.mp hm).symm, by simp⟩, fun hm => ?_⟩
  rcases hmark with rfl | rfl <;> cases List.mem_singleton.mp hm

theorem Flights.replace {x y : Ptr ν} {next : Ptr ν → Option (Ptr ν)} {flight : Agent ι → Option (Enq ν)} {busy : ν → Bool}
    (h : Flights x next flight busy []) (hs : Shape x x next flight []) (hown : flight none = none)
    (hx : x.isMarker = true) (hmark : y = .endMarker ∨ y = .sleepMarker) : Flights y next flight busy [] := by
  constructor
  · intro g e p hg hp hm
    obtain rfl := List.mem_singleton.mp hm
    cases g with
    | none => rw [hown] at hg; cases hg
    | some i =>
      obtain ⟨n, rfl⟩ := h.producer i e _ hg (Enq.target_of_waiting hp)
      rcases hmark with e | e <;> cases e
  · exact h.nulled
  · intro g p prev hg
    obtain rfl := List.mem_singleton.mp (h.behind g p prev hg)
    exact absurd ⟨g, hg⟩ (hs.linked.2 p)
  · exact h.distinct
  · intro n hn
    obtain rfl := List.mem_singleton.mp hn
    rcases hmark with e | e <;> cases e
  · exact h.busyFlight
  · exact h.producer
  · exact h.opened
  · intro n hn
    rcases h.placed n hn with hm | hw
    · rw [← List.mem_singleton.mp hm] at hx
      cases hx
    · exact .inr hw

/-! ## What the consumer knows -/

/-- A singleton chain: the head is the tail. -/
theorem Shape.single {x : Ptr ν} {next : Ptr ν → Option (Ptr ν)} {flight : Agent ι → Option (Enq ν)} {rest : List (Ptr ν)}
    (h : Shape x x next flight rest) : rest = [] := eq_nil_of_last h.last h.nodup

theorem Inv.target_kind {s : Queue ι ν} {rest : List (Ptr ν)} (h : Inv s rest) {g : Agent ι} {e : Enq ν} {p : Ptr ν}
    (hg : s.flight g = some e) (hp : e.target = some p) : (∃ n, p = .node n) ∨ (p = .endMarker ∧ s.tail.isMarker = false) := by
  cases g with
  | some i => exact .inl (h.flights.producer i e p hg hp)
  | none =>
    have hc := h.cons
    rw [hg] at hc
    cases hcons : s.cons with
    | deqEnd =>
      rw [hcons] at hc
      obtain ⟨ht, e', he, hend⟩ := hc
      cases he
      exact .inr ⟨hend p hp, ht⟩
    | requeue =>
      rw [hcons] at hc
      obtain ⟨e', he, hn⟩ := hc
      cases he
      exact .inl (hn p hp)
    | _ => rw [hcons] at hc; simp [ConsInv] at hc

/-- A thread goes on in `enqueue_node`: if it is the consumer, it is in one of the two
    places that wait for that. -/
theorem ConsInv.move [DecidableEq ι] {cons : Cons ν} {tail : Ptr ν} {next next' : Ptr ν → Option (Ptr ν)}
    {flight : Agent ι → Option (Enq ν)} (h : ConsInv cons tail next (flight none)) {a : Agent ι} {e0 e1 : Enq ν}
    (h0 : flight a = some e0) (ht : ∀ p, e1.target = some p → e0.target = some p)
    (hsleep : tail = .sleepMarker → next .endMarker = none → next' .endMarker = none)
    (hend : tail = .endMarker → next .sleepMarker = none → next' .sleepMarker = none) :
    ConsInv cons tail next' (update flight a (some e1) none) := by
  have key : ConsInv cons tail next' (flight none) := by
    cases cons with
    | clearSwap deq => exact ⟨h.1, h.2.1, hsleep h.2.1 h.2.2⟩
    | prepareSwap => exact ⟨h.1, h.2.1, hend h.2.1 h.2.2⟩
    | _ => exact h
  cases a with
  | some i => rw [Function.update_of_ne (by simp)]; exact key
  | none =>
    rw [Function.update_self]
    rw [h0] at key
    cases cons with
    | deqEnd =>
      obtain ⟨hm, e, he, hp⟩ := key
      cases he
      exact ⟨hm, e1, rfl, fun p hp1 => hp p (ht p hp1)⟩
    | requeue =>
      obtain ⟨e, he, hp⟩ := key
      cases he
      exact ⟨e1, rfl, fun p hp1 => hp p (ht p hp1)⟩
    | _ => simp [ConsInv] at key

/-- The consumer is not in `enqueue_node` where it starts something else. -/
theorem ConsInv.own_none {cons : Cons ν} {tail : Ptr ν} {next : Ptr ν → Option (Ptr ν)} {own : Option (Enq ν)}
    (h : ConsInv cons tail next own) (hd : cons ≠ .deqEnd) (hr : cons ≠ .requeue) : own = none := by
  cases cons with
  | deqEnd => exact absurd rfl hd
  | requeue => exact absurd rfl hr
  | deqNext u => exact h.1
  | deqHead => exact h.1
  | deqLast => exact h.1
  | clearSwap deq => exact h.1
  | prepareSwap => exact h.1
  | _ => exact h

/-! ## Every step keeps the shape -/

/-- The nodes of a chain. -/
def nodes (xs : List (Ptr ν)) : List ν := xs.filterMap Ptr.node?

/-- What a step does to the nodes of the chain. -/
def Moves (e : Ev ι ν) (xs ys : List ν) : Prop :=
  match e with
  | .swapped _ p => ys = xs ++ p.node?.toList
  | .answer (.data p) => ∃ n, p = .node n ∧ xs = n :: ys
  | _ => ys = xs

theorem nodes_marker {p : Ptr ν} {xs : List (Ptr ν)} (h : p.isMarker = true) : nodes (p :: xs) = nodes xs := by
  cases p with
  | node n => cases h
  | _ => rfl

theorem node_of_not_marker {p : Ptr ν} (h : p.isMarker = false) : ∃ n, p = .node n := by
  cases p with
  | node n => exact ⟨n, rfl⟩
  | _ => cases h

theorem nodes_push (xs : List (Ptr ν)) (p : Ptr ν) : nodes (xs ++ [p]) = nodes xs ++ p.node?.toList := by
  cases p <;> simp [nodes, Ptr.node?]

theorem Flights.null [DecidableEq ν] {tail p : Ptr ν} {next : Ptr ν → Option (Ptr ν)} {flight : Agent ι → Option (Enq ν)}
    {busy : ν → Bool} {rest : List (Ptr ν)} (h : Flights tail next flight busy rest) :
    Flights tail (update next p none) flight busy rest := by
  refine ⟨h.unlinked, fun g q hg => ?_, h.behind, h.distinct, h.busyChain, h.busyFlight, h.producer, h.opened, h.placed⟩
  by_cases e : q = p
  · rw [e, Function.update_self]
  · rw [Function.update_of_ne e]; exact h.nulled g q hg

section steps

variable {s s' : Queue ι ν} {rest : List (Ptr ν)}

/-- The tail moves to what it leads to; the old one was a node handed out, or a marker. -/
theorem Inv.pop (h : Inv s rest) {b : Ptr ν} {busy' : ν → Bool} {c : Cons ν} (hb : s.next s.tail = some b)
    (hbusy : ∀ n, s.tail ≠ .node n → s.busy n = true → busy' n = true)
    (hout : ∀ n, busy' n = true → s.busy n = true ∧ s.tail ≠ .node n) (hc : ConsInv c b s.next (s.flight none)) :
    ∃ ys, rest = b :: ys ∧ Inv { s with tail := b, busy := busy', cons := c } ys := by
  obtain ⟨ys, rfl, hs⟩ := h.shape.pop hb
  exact ⟨ys, rfl, hs, h.flights.pop h.shape hb hbusy hout, hc⟩

theorem Inv.data [DecidableEq ν] (h : Inv s rest) {b : Ptr ν} (hb : s.next s.tail = some b) (hm : s.tail.isMarker = false)
    (hown : s.flight none = none) : ∃ ys, Inv { s with tail := b, busy := handOut s.busy s.tail, cons := .idle } ys ∧
      Moves (.answer (.data s.tail) : Ev ι ν) (nodes (s.tail :: rest)) (nodes (b :: ys)) := by
  obtain ⟨n, hn⟩ := node_of_not_marker hm
  have hbusy : ∀ m, s.tail ≠ .node m → s.busy m = true → handOut s.busy s.tail m = true := by
    intro m hne hbm
    rw [hn, handOut, Function.update_of_ne]
    · exact hbm
    · intro e; subst e; exact hne hn
  have hout : ∀ m, handOut s.busy s.tail m = true → s.busy m = true ∧ s.tail ≠ .node m := by
    intro m hm
    rw [hn, handOut] at hm
    by_cases e : m = n
    · rw [e, Function.update_self] at hm
      cases hm
    · rw [Function.update_of_ne e] at hm
      exact ⟨hm, by rw [hn]; simpa using Ne.symm e⟩
  obtain ⟨ys, rfl, hi⟩ := h.pop (c := .idle) hb hbusy hout hown
  exact ⟨ys, hi, n, hn, by rw [hn]; rfl⟩

/-- What follows a marker at the tail is a node. -/
theorem Shape.next_node {head tail b : Ptr ν} {next : Ptr ν → Option (Ptr ν)} {flight : Agent ι → Option (Enq ν)}
    {ys : List (Ptr ν)} (h : Shape head tail next flight (b :: ys)) (hm : tail.isMarker = true) : b.isMarker = false := by
  have hb : b ∈ tail :: b :: ys := List.mem_cons_of_mem _ (List.mem_cons_self ..)
  have hne : tail ≠ b := by intro e; subst e; exact (List.nodup_cons.mp h.nodup).1 (List.mem_cons_self ..)
  cases b with
  | node n => rfl
  | closedMarker => exact absurd hb h.notClosed
  | sleepMarker => exact absurd (h.sleep hb).1 hne
  | endMarker =>
    cases tail with
    | node n => cases hm
    | endMarker => exact absurd rfl hne
    | sleepMarker => exact absurd (List.mem_cons_self ..) (h.sleep (List.mem_cons_self ..)).2
    | closedMarker => exact absurd (List.mem_cons_self ..) h.notClosed

theorem Inv.atNode (h : Inv s rest) {u : Option (Ptr ν)} (hat : s.AtNode u) : s.tail.isMarker = false ∧ s.flight none = none := by
  have hc := h.cons
  rcases hat with hu | ⟨hu, hm⟩
  · rw [hu] at hc; exact ⟨hc.2, hc.1⟩
  · rw [hu] at hc; exact ⟨hm, hc⟩

/-- A head that is read is not the closed marker. -/
theorem Inv.head_open (h : Inv s rest) {p : Ptr ν} (q : Ptr ν) : Enq.swap p s.head ≠ .swap q .closedMarker := by
  intro e
  have hh : s.head = .closedMarker := (Enq.swap.inj e).2
  exact h.shape.notClosed (hh ▸ h.shape.head_mem)

/-- The end marker is about to take a place: by `enqueue_node`, or in `clear_sleep_marker`. -/
def LinksEnd (s : Queue ι ν) : Prop :=
  (∃ g e, s.flight g = some e ∧ e.waiting = some .endMarker) ∨ ∃ deq, s.cons = .clearSwap deq

theorem Inv.end_unlinked (h : Inv s rest) (hl : LinksEnd s) : .endMarker ∉ s.tail :: rest := by
  rcases hl with ⟨g, e, hg, hw⟩ | ⟨deq, hcl⟩
  · exact h.flights.unlinked g e _ hg hw
  · have hc := h.cons
    rw [hcl] at hc
    intro hm
    obtain ⟨-, he⟩ := h.shape.sleep (hc.2.1 ▸ List.mem_cons_self ..)
    rcases List.mem_cons.mp hm with e | hm
    · rw [hc.2.1] at e; cases e
    · exact he hm

/-- The debug assertions of the source hold: a predecessor to be linked leads nowhere yet,
    and an exchange of one marker for the other never meets the new one at the head. -/
theorem Inv.assertions (h : Inv s rest) : (∀ g p prev, s.flight g = some (.link p prev) → s.next prev = none) ∧
    (∀ deq, s.cons = .clearSwap deq → s.head ≠ .endMarker) ∧ (s.cons = .prepareSwap → s.head ≠ .sleepMarker) := by
  refine ⟨fun g p prev hg => ?_, fun deq hcl he => ?_, fun hp he => ?_⟩
  · exact (h.shape.linked.pending (h.flights.behind g p prev hg) ⟨g, hg⟩).1
  · exact h.end_unlinked (.inr ⟨deq, hcl⟩) (he ▸ h.shape.head_mem)
  · have hc := h.cons
    rw [hp] at hc
    obtain ⟨ht, -⟩ := h.shape.sleep (he ▸ h.shape.head_mem)
    rw [hc.2.1] at ht; cases ht

theorem swapped_snoc (τ : List (Ev ι ν)) (e : Ev ι ν) : swapped (τ ++ [e]) = swapped τ ++ swapped [e] := by
  simp [swapped, List.filterMap_append]

theorem handedOut_snoc (τ : List (Ev ι ν)) (e : Ev ι ν) : handedOut (τ ++ [e]) = handedOut τ ++ handedOut [e] := by
  simp [handedOut, List.filterMap_append]

/-- The law of a history: what is in the queue is what took its place and has not been
    handed out. -/
theorem moves_history {τ : List (Ev ι ν)} {e : Ev ι ν} {xs ys : List ν} (hm : Moves e xs ys)
    (h : (swapped τ).map .node = handedOut τ ++ xs.map .node) :
    (swapped (τ ++ [e])).map .node = handedOut (τ ++ [e]) ++ ys.map .node := by
  rw [swapped_snoc, handedOut_snoc, List.map_append, h]
  match e, hm with
  | .swapped a (.node n), hm => cases hm; simp [swapped, handedOut, Ptr.node?]
  | .swapped a .endMarker, hm => cases hm; simp [swapped, handedOut, Ptr.node?]
  | .swapped a .sleepMarker, hm => cases hm; simp [swapped, handedOut, Ptr.node?]
  | .swapped a .closedMarker, hm => cases hm; simp [swapped, handedOut, Ptr.node?]
  | .answer (.data p), ⟨n, hp, hx⟩ => subst hp; subst hx; simp [swapped, handedOut]
  | .answer .empty, hm => cases hm; simp [swapped, handedOut]
  | .answer .inconsistent, hm => cases hm; simp [swapped, handedOut]
  | .answer (.slept b), hm => cases hm; simp [swapped, handedOut]
  | .answer .cleared, hm => cases hm; simp [swapped, handedOut]
  | .answer .enqueued, hm => cases hm; simp [swapped, handedOut]
  | .enqueue a n, hm => cases hm; simp [swapped, handedOut]
  | .quiet, hm => cases hm; simp [swapped, handedOut]
  | .linked a p, hm => cases hm; simp [swapped, handedOut]
  | .called op, hm => cases hm; simp [swapped, handedOut]
  | .returned i w, hm => cases hm; simp [swapped, handedOut]

variable [DecidableEq ι]

/-- A step of `enqueue_node` other than the exchange and the link. -/
theorem Inv.quiet (h : Inv s rest) {a : Agent ι} {e0 e1 : Enq ν} {next' : Ptr ν → Option (Ptr ν)} (h0 : s.flight a = some e0)
    (hl0 : ∀ p prev, e0 ≠ .link p prev) (hl1 : ∀ p prev, e1 ≠ .link p prev)
    (ht : ∀ p, e1.target = some p → e0.target = some p) (hw : ∀ p, e1.waiting = some p → e0.waiting = some p)
    (hnull : ∀ p, (e1 = .load p ∨ ∃ prev, e1 = .swap p prev) → next' p = none)
    (hchain : ∀ p ∈ s.tail :: rest, next' p = s.next p) (hnone : ∀ p, s.next p = none → next' p = none)
    (hopen : ∀ p, e1 ≠ .swap p .closedMarker) (hkeep : ∀ p, e0.waiting = some p → e1.waiting = some p) :
    Inv { s with next := next', flight := update s.flight a (some e1) } rest where
  shape := h.shape.congr hchain (pend_quiet (fun p prev e => hl0 p prev (Option.some.inj (h0.symm.trans e)))
    (fun p prev e => hl1 p prev (Option.some.inj e)))
  flights := h.flights.move h0 (fun e p ho hp => by cases ho; exact ht p hp) (fun e p ho hp => by cases ho; exact hw p hp)
    (fun p hp => hnull p (by
      rcases hp with hp | ⟨prev, hp⟩
      · exact .inl (Option.some.inj hp)
      · exact .inr ⟨prev, Option.some.inj hp⟩))
    (fun p prev e => absurd (Option.some.inj e) (hl1 p prev)) (fun p _ hn => hnone p hn)
    (fun p e => hopen p (Option.some.inj e)) (fun p hp => ⟨e1, rfl, hkeep p hp⟩)
  cons := h.cons.move h0 ht (fun _ hn => hnone _ hn) (fun _ hn => hnone _ hn)

/-- The thread that has a link of the chain to write, and is the only one that enqueues
    what it leads to, writes it. -/
theorem linked_link [DecidableEq ν] {next : Ptr ν → Option (Ptr ν)} {flight : Agent ι → Option (Enq ν)} {xs : List (Ptr ν)}
    (hl : Linked next (Pend flight) xs) (hnd : xs.Nodup) {a : Agent ι} {p prev : Ptr ν} (hprev : prev ∈ xs)
    (h0 : flight a = some (.link p prev)) (hone : ∀ g, flight g = some (.link p prev) → g = a) (w : Bool) :
    Linked (update next prev (some p)) (Pend (update flight a (some (.done w)))) xs := by
  refine hl.link hnd hprev ⟨a, h0⟩ (fun c hc => ?_) (fun x _ hx c => ?_)
  · -- another thread with a link behind the same pointer would enqueue the same thing
    obtain ⟨g, hg⟩ := hc
    rcases flight_cases hg with ⟨-, ho⟩ | ⟨hne, hold⟩
    · cases ho
    · have hcp := hl.pending_unique hprev ⟨g, hold⟩ ⟨a, h0⟩
      exact hne (hone g (by rw [hold, hcp]))
  · constructor
    · intro hx
      obtain ⟨g, hg⟩ := hx
      rcases flight_cases hg with ⟨-, ho⟩ | ⟨-, hold⟩
      · cases ho
      · exact ⟨g, hold⟩
    · intro hx
      obtain ⟨g, hg⟩ := hx
      refine ⟨g, flight_keep hg (fun e => ?_) _⟩
      rw [h0] at e
      cases e
      exact hx rfl

theorem Shape.link [DecidableEq ν] {head tail p prev : Ptr ν} {next : Ptr ν → Option (Ptr ν)} {flight : Agent ι → Option (Enq ν)}
    {busy : ν → Bool} (h : Shape head tail next flight rest) (hf : Flights tail next flight busy rest) {a : Agent ι}
    (h0 : flight a = some (.link p prev)) (w : Bool) :
    Shape head tail (update next prev (some p)) (update flight a (some (.done w))) rest := by
  refine ⟨h.last, h.nodup, ?_, h.sleep, h.notClosed⟩
  exact linked_link h.linked h.nodup (hf.behind a p prev h0) h0
    (fun g hg => hf.distinct g a _ _ p hg h0 rfl rfl) w

theorem Inv.link [DecidableEq ν] (h : Inv s rest) {a : Agent ι} {p prev : Ptr ν} (h0 : s.flight a = some (.link p prev)) (w : Bool) :
    Inv { s with next := update s.next prev (some p), flight := update s.flight a (some (.done w)) } rest := by
  have hprev := h.flights.behind a p prev h0
  constructor
  · exact h.shape.link h.flights h0 w
  · refine h.flights.move h0 (fun e q ho hq => ?_) (fun e q ho hq => ?_) (fun q hq => ?_) (fun q pr ho => ?_) (fun q hq hn => ?_)
      (by simp) (fun q hq => by cases hq)
    · cases ho; cases hq
    · cases ho; cases hq
    · rcases hq with hq | ⟨_, hq⟩ <;> cases hq
    · cases ho
    · show update s.next prev (some p) q = none
      rw [Function.update_of_ne]
      · exact hn
      · intro e; subst e; exact hq hprev
  · refine h.cons.move h0 (fun q hq => by cases hq) (fun ht hn => ?_) (fun ht hn => ?_)
    · show update s.next prev (some p) .endMarker = none
      rw [Function.update_of_ne]
      · exact hn
      · intro e
        subst e
        obtain ⟨-, he⟩ := h.shape.sleep (ht ▸ List.mem_cons_self ..)
        rcases List.mem_cons.mp hprev with e | hm
        · rw [ht] at e; cases e
        · exact he hm
    · show update s.next prev (some p) .sleepMarker = none
      rw [Function.update_of_ne]
      · exact hn
      · intro e
        subst e
        obtain ⟨e, -⟩ := h.shape.sleep hprev
        rw [ht] at e; cases e

theorem Inv.swap (h : Inv s rest) {a : Agent ι} {p : Ptr ν} (h0 : s.flight a = some (.swap p s.head)) :
    Inv { s with head := p, flight := update s.flight a (some (.link p s.head)) } (rest ++ [p]) where
  shape := h.shape.push h.flights h0 (h.target_kind h0 rfl)
  flights := h.flights.push h.shape h0
  cons := h.cons.move h0 (fun q hq => by cases hq; rfl) (fun _ hn => hn) (fun _ hn => hn)

/-- A call of `enqueue_node` on a node begins. -/
theorem Inv.enqueue [DecidableEq ν] (h : Inv s rest) {a : Agent ι} {n : ν} {c : Cons ν} (h0 : s.flight a = none) (hn : s.busy n = false)
    (hc : ConsInv c s.tail s.next (update s.flight a (some (.store (.node n))) none)) :
    Inv { s with flight := update s.flight a (some (.store (.node n))), busy := update s.busy n true, cons := c } rest where
  shape := h.shape.congr (fun _ _ => rfl) (pend_quiet (by simp [h0]) (by simp))
  flights := by
    refine h.flights.begin (fun hm => ?_) (fun g e hg ht => ?_) (fun m hm => ?_) (fun m hm => ?_) (fun i _ => ⟨n, rfl⟩)
      h0 (fun m hm => ?_)
    · rw [h.flights.busyChain n hm] at hn; cases hn
    · rw [h.flights.busyFlight g e n hg ht] at hn; cases hn
    · show update s.busy n true m = true
      by_cases e : m = n
      · rw [e, Function.update_self]
      · rw [Function.update_of_ne e]; exact hm
    · cases hm; exact Function.update_self ..
    · have hm : update s.busy n true m = true := hm
      by_cases e : m = n
      · exact .inr (by rw [e])
      · rw [Function.update_of_ne e] at hm; exact .inl hm
  cons := hc

/-- A call of `enqueue_node` has returned. -/
theorem Inv.finish (h : Inv s rest) {a : Agent ι} {w : Bool} {c : Cons ν} (h0 : s.flight a = some (.done w))
    (hc : ConsInv c s.tail s.next (update s.flight a none none)) :
    Inv { s with flight := update s.flight a none, cons := c } rest where
  shape := h.shape.congr (fun _ _ => rfl) (pend_quiet (by simp [h0]) (by simp))
  flights := h.flights.move h0 (by simp) (by simp) (by simp) (by simp) (fun _ _ hn => hn) (by simp) (fun _ hw => by cases hw)
  cons := hc

/-- The end marker is enqueued behind a single node. -/
theorem Inv.enqueueEnd (h : Inv s rest) (hown : s.flight none = none) (hm : s.tail.isMarker = false) (ht : s.head = s.tail) :
    Inv { s with flight := update s.flight none (some (.store .endMarker)), cons := .deqEnd } rest where
  shape := h.shape.congr (fun _ _ => rfl) (pend_quiet (by simp [hown]) (by simp))
  flights := by
    have hrest : rest = [] := (ht ▸ h.shape).single
    refine h.flights.begin (fun hmem => ?_) (fun g e hg htg => ?_) (fun _ hb => hb) (fun n hn => by cases hn) (fun i hi => by cases hi)
      hown (fun n hn => .inl hn)
    · rw [hrest] at hmem
      rw [← List.mem_singleton.mp hmem] at hm; cases hm
    · cases g with
      | none => rw [hown] at hg; cases hg
      | some i => obtain ⟨n, hn⟩ := h.flights.producer i e _ hg htg; cases hn
  cons := by
    refine ⟨hm, .store .endMarker, ?_, fun p hp => ?_⟩
    · show update s.flight none (some (.store .endMarker)) none = _
      rw [Function.update_self]
    · cases hp; rfl

variable [DecidableEq ν]

theorem step_inv {e : Ev ι ν} (h : Inv s rest) (hs : QStep s e s') :
    ∃ rest', Inv s' rest' ∧ Moves e (nodes (s.tail :: rest)) (nodes (s'.tail :: rest')) := by
  have hc := h.cons
  cases hs with
  | store a p h0 =>
    have hp : p ∉ s.tail :: rest := h.flights.unlinked a _ p h0 rfl
    refine ⟨rest, h.quiet h0 (by simp) (by simp) (fun q hq => hq) (fun q hq => hq) (fun q hq => ?_) (fun q hq => ?_)
      (fun q hq => ?_) (by simp) (fun q hq => hq), rfl⟩
    · rcases hq with hq | ⟨_, hq⟩ <;> cases hq
      exact Function.update_self ..
    · exact Function.update_of_ne (by intro e; subst e; exact hp hq) ..
    · by_cases e : q = p
      · rw [e, Function.update_self]
      · rw [Function.update_of_ne e]; exact hq
  | load a p h0 =>
    refine ⟨rest, h.quiet h0 (by simp) (by simp) (fun q hq => hq) (fun q hq => hq) (fun q hq => ?_) (fun _ _ => rfl)
      (fun _ hn => hn) h.head_open (fun q hq => hq), rfl⟩
    rcases hq with hq | ⟨_, hq⟩ <;> cases hq
    exact h.flights.nulled a p (.inl h0)
  | closed a p h0 => exact absurd h0 (h.flights.opened a p)
  | swap a p prev h0 _ hhead =>
    subst hhead
    exact ⟨rest ++ [p], h.swap h0, by rw [← List.cons_append]; exact nodes_push ..⟩
  | retry a p prev h0 _ _ =>
    refine ⟨rest, h.quiet h0 (by simp) (by simp) (fun q hq => hq) (fun q hq => hq) (fun q hq => ?_) (fun _ _ => rfl)
      (fun _ hn => hn) h.head_open (fun q hq => hq), rfl⟩
    rcases hq with hq | ⟨_, hq⟩ <;> cases hq
    exact h.flights.nulled a p (.inr ⟨prev, h0⟩)
  | link a p prev h0 => exact ⟨rest, h.link h0 _, rfl⟩
  | enqueue i n h0 hn =>
    refine ⟨rest, h.enqueue h0 hn ?_, rfl⟩
    rw [Function.update_of_ne (by simp)]; exact hc
  | returned i w h0 =>
    refine ⟨rest, h.finish h0 ?_, rfl⟩
    rw [Function.update_of_ne (by simp)]; exact hc
  | dequeue u hidle =>
    rw [hidle] at hc
    exact ⟨rest, ⟨h.shape, h.flights, hc⟩, rfl⟩
  | deqNone u hl _ _ =>
    rw [hl] at hc
    exact ⟨rest, ⟨h.shape, h.flights, hc⟩, rfl⟩
  | deqSkip u b hl hm hb =>
    rw [hl] at hc
    have hnode : ∀ n, s.tail ≠ .node n := by
      intro n e
      rw [e] at hm
      cases hm
    obtain ⟨ys, rfl, hi⟩ := h.pop (c := .deqNext u) hb (fun _ _ hbusy => hbusy) (fun n hbusy => ⟨hbusy, hnode n⟩) ⟨hc, by
      obtain ⟨ys, hys, -⟩ := h.shape.pop hb
      exact (hys ▸ h.shape).next_node hm⟩
    exact ⟨ys, hi, (nodes_marker hm).symm⟩
  | deqUntil u hat _ => exact ⟨rest, ⟨h.shape, h.flights, (h.atNode hat).2⟩, rfl⟩
  | deqData u b hat _ hb =>
    obtain ⟨hm, hown⟩ := h.atNode hat
    exact h.data hb hm hown
  | deqMore u hat _ _ =>
    obtain ⟨hm, hown⟩ := h.atNode hat
    exact ⟨rest, ⟨h.shape, h.flights, hown, hm⟩, rfl⟩
  | deqHeadNe hh _ =>
    rw [hh] at hc
    exact ⟨rest, ⟨h.shape, h.flights, hc.1⟩, rfl⟩
  | deqHeadEq hh heq =>
    rw [hh] at hc
    exact ⟨rest, h.enqueueEnd hc.1 hc.2 heq, rfl⟩
  | deqEnded w hd h0 =>
    rw [hd] at hc
    exact ⟨rest, h.finish h0 ⟨Function.update_self .., hc.1⟩, rfl⟩
  | deqLastData b hl hb =>
    rw [hl] at hc
    exact h.data hb hc.2 hc.1
  | deqLastNone hl _ =>
    rw [hl] at hc
    exact ⟨rest, ⟨h.shape, h.flights, hc.1⟩, rfl⟩
  | clear hidle =>
    rw [hidle] at hc
    exact ⟨rest, ⟨h.shape, h.flights, hc⟩, rfl⟩
  | clearSkip deq hcl _ =>
    rw [hcl] at hc
    exact ⟨rest, ⟨h.shape, h.flights, hc⟩, by cases deq <;> rfl⟩
  | clearStore deq hcl ht =>
    rw [hcl] at hc
    have hend : .endMarker ∉ s.tail :: rest := by
      intro hm
      obtain ⟨-, he⟩ := h.shape.sleep (ht ▸ List.mem_cons_self ..)
      rcases List.mem_cons.mp hm with e | hm
      · rw [ht] at e; cases e
      · exact he hm
    have hnull : update s.next .endMarker none .endMarker = none := Function.update_self ..
    refine ⟨rest, ⟨h.shape.congr (fun x hx => ?_) (fun _ _ => Iff.rfl), h.flights.null, hc, ht, hnull⟩, rfl⟩
    exact Function.update_of_ne (by intro e; subst e; exact hend hx) ..
  | clearSwap deq hcl hhead =>
    rw [hcl] at hc
    obtain ⟨hown, ht, hn⟩ := hc
    have hshape := h.shape
    have hflights := h.flights
    rw [hhead, ht] at hshape
    rw [ht] at hflights
    obtain rfl := hshape.single
    exact ⟨[], ⟨hshape.replace hflights hn (.inl rfl), hflights.replace hshape hown rfl (.inl rfl), hown⟩, by
      rw [ht]; cases deq <;> rfl⟩
  | clearFail deq hcl _ =>
    rw [hcl] at hc
    exact ⟨rest, ⟨h.shape, h.flights, hc.1⟩, by cases deq <;> rfl⟩
  | prepare hidle =>
    rw [hidle] at hc
    exact ⟨rest, ⟨h.shape, h.flights, hc⟩, rfl⟩
  | prepareHead hp _ =>
    rw [hp] at hc
    exact ⟨rest, ⟨h.shape, h.flights, hc⟩, rfl⟩
  | prepareNo hp _ _ =>
    rw [hp] at hc
    exact ⟨rest, ⟨h.shape, h.flights, hc⟩, rfl⟩
  | prepareStore hp ht =>
    rw [hp] at hc
    have hsleep : .sleepMarker ∉ s.tail :: rest := by
      intro hm
      obtain ⟨e, -⟩ := h.shape.sleep hm
      rw [ht] at e; cases e
    have hnull : update s.next .sleepMarker none .sleepMarker = none := Function.update_self ..
    refine ⟨rest, ⟨h.shape.congr (fun x hx => ?_) (fun _ _ => Iff.rfl), h.flights.null, hc, ht, hnull⟩, rfl⟩
    exact Function.update_of_ne (by intro e; subst e; exact hsleep hx) ..
  | prepareSwap hp hhead =>
    rw [hp] at hc
    obtain ⟨hown, ht, hn⟩ := hc
    have hshape := h.shape
    have hflights := h.flights
    rw [hhead, ht] at hshape
    rw [ht] at hflights
    obtain rfl := hshape.single
    exact ⟨[], ⟨hshape.replace hflights hn (.inr rfl), hflights.replace hshape hown rfl (.inr rfl), hown⟩, by rw [ht]; rfl⟩
  | prepareFail hp _ =>
    rw [hp] at hc
    exact ⟨rest, ⟨h.shape, h.flights, hc.1⟩, rfl⟩
  | requeue n hidle hn =>
    rw [hidle] at hc
    refine ⟨rest, h.enqueue hc hn ⟨.store (.node n), Function.update_self .., fun p hp => ?_⟩, rfl⟩
    cases hp; exact ⟨n, rfl⟩
  | requeued w hr h0 =>
    exact ⟨rest, h.finish h0 (Function.update_self ..), rfl⟩

/-- A node is handed out when it is in the queue and the `enqueue_node` that put it there
    has linked it; from then on it may be enqueued again. -/
theorem data_linked {e : Ev ι ν} {n : ν} (h : Inv s rest) (hs : QStep s e s') (he : e = .answer (.data (.node n))) :
    s.busy n = true ∧ (∀ a x, s.flight a = some x → x.target ≠ some (.node n)) ∧ s'.busy n = false := by
  have tail : s.tail = .node n → s.busy n = true ∧ (∀ a x, s.flight a = some x → x.target ≠ some (.node n)) ∧
      handOut s.busy s.tail n = false := by
    intro ht
    refine ⟨h.flights.busyChain n (ht ▸ List.mem_cons_self ..), fun a x hx => ?_, ?_⟩
    · rw [← ht]
      exact h.flights.settled h.shape hx
    · rw [ht]
      exact Function.update_self ..
  cases hs with
  | deqData u b _ _ _ => exact tail (by simpa using he)
  | deqLastData b _ _ => exact tail (by simpa using he)
  | clearSkip deq _ _ => cases deq <;> cases he
  | clearSwap deq _ _ => cases deq <;> cases he
  | clearFail deq _ _ => cases deq <;> cases he
  | _ => cases he

/-! ## Runs -/

theorem run_inv {τ : List (Ev ι ν)} {s : Queue ι ν} (h : Run (queue ι ν) τ s) :
    ∃ rest, Inv s rest ∧ (swapped τ).map .node = handedOut τ ++ (nodes (s.tail :: rest)).map .node := by
  induction h with
  | init hi => cases hi; exact ⟨[], new_inv, rfl⟩
  | step _ hs ih =>
    obtain ⟨rest, hinv, hhist⟩ := ih
    obtain ⟨rest', hinv', hm⟩ := step_inv hinv hs
    exact ⟨rest', hinv', moves_history hm hhist⟩

/-- At all times the pointers handed out as data are a prefix of the nodes in the order of
    their exchanges of the head, and no marker is among them; the queue is a chain without
    repetition from tail to head, which holds the other nodes in that order and lacks only
    links that one thread has still to write; and an end marker that is about to be linked
    is not in it. -/
theorem queue_order {τ : List (Ev ι ν)} {s : Queue ι ν} (h : Run (queue ι ν) τ s) :
    handedOut τ <+: (swapped τ).map .node ∧ (∀ p ∈ handedOut τ, p.isMarker = false) ∧
      ∃ rest, rest.getLastD s.tail = s.head ∧ (s.tail :: rest).Nodup ∧ Linked s.next (Pend s.flight) (s.tail :: rest) ∧
        (swapped τ).map .node = handedOut τ ++ (nodes (s.tail :: rest)).map .node ∧
        (LinksEnd s → .endMarker ∉ s.tail :: rest) := by
  obtain ⟨rest, hinv, hhist⟩ := run_inv h
  refine ⟨⟨_, hhist.symm⟩, fun p hp => ?_, rest, hinv.shape.last, hinv.shape.nodup, hinv.shape.linked, hhist, hinv.end_unlinked⟩
  have hm : p ∈ (swapped τ).map Ptr.node := by
    rw [hhist]; exact List.mem_append_left _ hp
  obtain ⟨n, -, rfl⟩ := List.mem_map.mp hm
  rfl

end steps

/-- One producer enqueues node 7, and the consumer takes it, pushing the end marker. -/
theorem queue_order_one_node : ∃ (τ : List (Ev Unit Nat)) (s : Queue Unit Nat), Run (queue Unit Nat) τ s ∧
    handedOut τ = [.node 7] ∧ handedOut τ <+: (swapped τ).map .node := by
  have h0 : Run (queue Unit Nat) [] (Queue.new Unit Nat) := .init rfl
  have h1 := h0.step (.enqueue _ () 7 rfl rfl)
  have h2 := h1.step (.store _ (some ()) (.node 7) rfl)
  have h3 := h2.step (.load _ (some ()) (.node 7) rfl)
  have h4 := h3.step (.swap _ (some ()) (.node 7) .endMarker rfl (by decide) rfl)
  have h5 := h4.step (.link _ (some ()) (.node 7) .endMarker rfl)
  have h6 := h5.step (.dequeue _ none rfl)
  have h7 := h6.step (.deqSkip _ none (.node 7) rfl rfl rfl)
  have h8 := h7.step (.deqMore _ none (.inl rfl) (by decide) rfl)
  have h9 := h8.step (.deqHeadEq _ rfl rfl)
  have h10 := h9.step (.store _ none .endMarker rfl)
  have h11 := h10.step (.load _ none .endMarker rfl)
  have h12 := h11.step (.swap _ none .endMarker (.node 7) rfl (by decide) rfl)
  have h13 := h12.step (.link _ none .endMarker (.node 7) rfl)
  have h14 := h13.step (.deqEnded _ false rfl rfl)
  have h15 := h14.step (.deqLastData _ .endMarker rfl rfl)
  exact ⟨_, _, h15, rfl, (queue_order h15).1⟩

end Sickle.Poll
