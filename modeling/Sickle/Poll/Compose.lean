/-
  Sickle.Poll.Compose — the nodes and their queue together.

  `Sickle.Poll.Queue` takes for granted that a node is enqueued only while it is not in the
  queue, and `Sickle.Poll.Node` that it is handed out only when it is. Here one queue and
  any number of nodes run together: a thread that enters `enqueue_node` with a node does
  so in both, and so it is with the store that links the node, the return, and the node's
  being handed out. The thread `i` with the node `n` is the queue's producer `(i, n)`. The
  consumer starts nothing on the queue while it has a node in hand.

  - `project_queue`, `project_node`: the queue and each node run as they do alone, so
    what holds of them holds here.
  - `enters_enabled`, `linked_enabled`, `returned_enabled`, `data_enabled`: neither side
    ever has to wait for the other: what one takes for granted the other provides.
  - `queued_somewhere`: a queued node is in the queue's chain, in the consumer's hands, or
    about to be enqueued by a thread.
-/

import Sickle.Poll.NodeInv
import Sickle.Poll.QueueInv

namespace Sickle.Poll

open Function (update)
open Sickle.Lib

structure World (ι ν J : Type) where
  queue : Queue (ι × ν) ν
  nodes : ν → NodeSt ι Unit J

inductive WorldEv (ι ν J : Type) where
  | node (n : ν) (e : NodeEv ι Unit J)
  | queue (e : Ev (ι × ν) ν)
  | both (n : ν) (e : NodeEv ι Unit J) (f : Ev (ι × ν) ν)

section Steps

variable {ι ν J : Type}

/-- A thread with node `n`, or the consumer, as a thread of the queue. -/
def agent (a : Option ι) (n : ν) : Agent (ι × ν) := a.map fun i => (i, n)

/-- A step of a node that the queue has no part in. -/
def NodeEv.Apart (e : NodeEv ι Unit J) : Prop :=
  match e with
  | .enters _ | .enqueued _ | .woken _ | .dequeued => False
  | _ => True

/-- A step of the queue that no node has a part in. -/
def Ev.Apart {κ : Type} (e : Ev κ ν) : Prop :=
  match e with
  | .enqueue _ _ | .linked _ (.node _) | .returned _ _ | .answer (.data _) => False
  | _ => True

/-- What node `n` and the queue do together. -/
inductive Meets (n : ν) : NodeEv ι Unit J → Ev (ι × ν) ν → Prop
  | enters (a : Option ι) : Meets n (.enters a) (.enqueue (agent a n) n)
  | linked (a : Option ι) : Meets n (.enqueued a) (.linked (agent a n) (.node n))
  | returned (i : ι) (w : Bool) : Meets n (.woken i) (.returned (i, n) w)
  | data : Meets n .dequeued (.answer (.data (.node n)))

variable [DecidableEq ι] [DecidableEq ν]

inductive WorldStep : World ι ν J → WorldEv ι ν J → World ι ν J → Prop
  | node (w : World ι ν J) (n : ν) (e : NodeEv ι Unit J) (t : NodeSt ι Unit J) : NodeStep (w.nodes n) e t → e.Apart →
      WorldStep w (.node n e) { w with nodes := update w.nodes n t }
  | queue (w : World ι ν J) (e : Ev (ι × ν) ν) (q : Queue (ι × ν) ν) : QStep w.queue e q → e.Apart →
      (∀ op, e = .called op → ∀ n, (w.nodes n).consumer = .away) → WorldStep w (.queue e) { w with queue := q }
  | both (w : World ι ν J) (n : ν) (e : NodeEv ι Unit J) (f : Ev (ι × ν) ν) (t : NodeSt ι Unit J)
      (q : Queue (ι × ν) ν) : Meets n e f → NodeStep (w.nodes n) e t → QStep w.queue f q →
      WorldStep w (.both n e f) ⟨q, update w.nodes n t⟩

/-- A new queue and new nodes. -/
def world (ι ν J : Type) [DecidableEq ι] [DecidableEq ν] : Lts (World ι ν J) (WorldEv ι ν J) :=
  ⟨fun w => w.queue = Queue.new (ι × ν) ν ∧ ∀ n, (w.nodes n).Fresh, WorldStep⟩

/-! ## Each part by itself -/

theorem project_queue {τ : List (WorldEv ι ν J)} {w : World ι ν J} (h : Run (world ι ν J) τ w) :
    ∃ τ', Run (queue (ι × ν) ν) τ' w.queue := by
  refine Run.project (S := world ι ν J) (T := Poll.queue (ι × ν) ν) World.queue (fun _ hi => hi.1) ?_ h
  intro w e w' hs
  cases hs with
  | node n e t _ _ => exact .inr rfl
  | queue e q hq _ _ => exact .inl ⟨e, hq⟩
  | both n e f t q _ _ hq => exact .inl ⟨f, hq⟩

theorem project_node {τ : List (WorldEv ι ν J)} {w : World ι ν J} (h : Run (world ι ν J) τ w) (n : ν) :
    ∃ τ', Run (node ι Unit J) τ' (w.nodes n) := by
  refine Run.project (S := world ι ν J) (T := Poll.node ι Unit J) (fun w : World ι ν J => w.nodes n) (fun _ hi => hi.2 n) ?_ h
  have step : ∀ (w : World ι ν J) (m : ν) (e : NodeEv ι Unit J) (t : NodeSt ι Unit J), NodeStep (w.nodes m) e t →
      (∃ e', NodeStep (w.nodes n) e' (update w.nodes m t n)) ∨ update w.nodes m t n = w.nodes n := by
    intro w m e t hs
    by_cases hm : n = m
    · subst hm
      rw [Function.update_self]
      exact .inl ⟨e, hs⟩
    · exact .inr (Function.update_of_ne hm ..)
  intro w e w' hs
  cases hs with
  | node m e t ht _ => exact step w m e t ht
  | queue e q _ _ _ => exact .inr rfl
  | both m e f t q _ ht _ => exact step w m e t ht

end Steps

/-! ## What ties them -/

variable {ι ν J : Type}

/-- How far a thread is with `enqueue_node`, seen from its node. -/
inductive Stage where
  | out
  | entering
  | linked
  deriving DecidableEq, Repr

def Pc.stage {κ : Type} (p : Pc κ J) : Stage :=
  match p with
  | .enqueue => .entering
  | .wakeup => .linked
  | _ => .out

def ConsumerPc.entering (p : ConsumerPc) : Bool :=
  match p with
  | .requeue _ _ => true
  | _ => false

/-- The same, seen from the queue: what the thread is enqueuing, if it has not linked it. -/
def Stage.flight (st : Stage) (n : ν) : Option (Option (Ptr ν)) :=
  match st with
  | .out => none
  | .entering => some (some (.node n))
  | .linked => some none

structure Tied (q : Queue (ι × ν) ν) (s : NodeSt ι Unit J) (n : ν) : Prop where
  threads : ∀ i, (q.flight (some (i, n))).map Enq.target = (s.pc i).stage.flight n
  consumer : (q.flight none).map Enq.target = some (some (.node n)) ↔ s.consumer.entering = true
  early : s.consumer.holds = true → s.consumer.entering = false → q.cons = .idle
  later : s.consumer ≠ .away → q.cons = .idle ∨ q.cons = .requeue
  busy : q.busy n = true ↔ 0 < s.linked ∨ (∃ i, (s.pc i).stage = .entering) ∨ s.consumer.entering = true

structure WorldInv (w : World ι ν J) : Prop where
  queue : ∃ rest, Inv w.queue rest
  nodes : ∀ n, ∃ own, NodeInv (w.nodes n).view own
  tied : ∀ n, Tied w.queue (w.nodes n) n
  alone : ∀ n m, (w.nodes n).consumer ≠ .away → (w.nodes m).consumer ≠ .away → n = m

/-! ### A node moves -/

section NodeMoves

variable {κ : Type}

theorem setTop_stage (ready : Ready4) (state : ReadinessState) : (setTop ready state : Pc κ J).stage = .out := by
  unfold setTop
  split <;> rfl

theorem setDone_stage (state next : ReadinessState) : (setDone state next : Pc κ J).stage = .out := by
  unfold setDone
  split <;> rfl

theorem checkQueue_stage [DecidableEq κ] (a : UpdateArgs κ J) (q : κ) : (checkQueue a q).stage = .out := by
  unfold checkQueue
  split <;> rfl

theorem placeToken_stage (a : UpdateArgs κ J) (state : ReadinessState) (t : Option TokenEntry) :
    (placeToken a state t).stage = .out :=
  placeToken_meets (P := fun p => p.stage = .out) rfl rfl fun _ _ => rfl

theorem updDone_stage (a : UpdateArgs κ J) (turned : Bool) : (updDone a turned).stage = .out := by
  unfold updDone
  split <;> rfl

theorem settle_entering (next : ReadinessState) (readiness : Ready) : (settle next readiness).entering = false := by
  unfold settle emit
  split
  next => rfl
  next => split <;> rfl

theorem pollTop_entering (state : ReadinessState) : (pollTop state).entering = false := by
  unfold pollTop
  split
  next => rfl
  next =>
    split
    next => exact settle_entering ..
    next => rfl

theorem stage_update [DecidableEq ι] {pc : ι → Pc κ J} {i : ι} {p : Pc κ J} (hp : p.stage = (pc i).stage) (j : ι) :
    (update pc i p j).stage = (pc j).stage := by
  by_cases hj : j = i
  · subst hj
    rw [Function.update_self, hp]
  · rw [Function.update_of_ne hj]

end NodeMoves

/-- A step that the queue has no part in changes nothing that it sees. -/
theorem apart_step [DecidableEq ι] {s t : NodeSt ι Unit J} {e : NodeEv ι Unit J} (hs : NodeStep s e t) (he : e.Apart) :
    (∀ j, (t.pc j).stage = (s.pc j).stage) ∧ t.linked = s.linked ∧ t.consumer.entering = s.consumer.entering ∧
      (t.consumer ≠ .away → s.consumer ≠ .away) ∧ (t.consumer.holds = true → s.consumer.holds = true) := by
  have thread : ∀ {i : ι} {p p' : Pc Unit J}, s.pc i = p → p'.stage = p.stage →
      ∀ j, (update s.pc i p' j).stage = (s.pc j).stage := by
    intro i p p' hpc hp
    exact stage_update (by rw [hp, hpc])
  have consumer : ∀ {c c' : ConsumerPc}, s.consumer = c → c'.entering = c.entering → (c' ≠ .away → c ≠ .away) →
      (c'.holds = true → c.holds = true) → c'.entering = s.consumer.entering ∧
        (c' ≠ .away → s.consumer ≠ .away) ∧ (c'.holds = true → s.consumer.holds = true) := by
    rintro c c' rfl h1 h2 h3
    exact ⟨h1, h2, h3⟩
  cases hs with
  | setCall i ready hpc => exact ⟨thread hpc rfl, rfl, rfl, id, id⟩
  | setLoad i ready hpc => exact ⟨thread hpc (setTop_stage ..), rfl, rfl, id, id⟩
  | setSwap i ready state hpc => exact ⟨thread hpc (setDone_stage ..), rfl, rfl, id, id⟩
  | setRetry i ready state hpc => exact ⟨thread hpc (setTop_stage ..), rfl, rfl, id, id⟩
  | loadNull i hpc => exact ⟨thread hpc rfl, rfl, rfl, id, id⟩
  | returned i ok hpc => exact ⟨thread hpc rfl, rfl, rfl, id, id⟩
  | updCall i a hpc => exact ⟨thread hpc rfl, rfl, rfl, id, id⟩
  | updNull i a hpc => exact ⟨thread hpc rfl, rfl, rfl, id, id⟩
  | updQueue i a q hpc => exact ⟨thread hpc (checkQueue_stage ..), rfl, rfl, id, id⟩
  | updAssociate i a hpc => exact ⟨thread hpc rfl, rfl, rfl, id, id⟩
  | updTaken i a q hpc => exact ⟨thread hpc (checkQueue_stage ..), rfl, rfl, id, id⟩
  | updRef i a hpc => exact ⟨thread hpc rfl, rfl, rfl, id, id⟩
  | updLock i a hpc => exact ⟨thread hpc rfl, rfl, rfl, id, id⟩
  | updLocked i a hpc => exact ⟨thread hpc rfl, rfl, rfl, id, id⟩
  | updLoad i a hpc => exact ⟨thread hpc rfl, rfl, rfl, id, id⟩
  | updToken i a state hpc => exact ⟨thread hpc (placeToken_stage ..), rfl, rfl, id, id⟩
  | updSlot i a state pos hpc => exact ⟨thread hpc rfl, rfl, rfl, id, id⟩
  | updSwap i a state pos hpc => exact ⟨thread hpc rfl, rfl, rfl, id, id⟩
  | updRetry i a state pos hpc => exact ⟨thread hpc rfl, rfl, rfl, id, id⟩
  | updUnlock i a turned hpc => exact ⟨thread hpc (updDone_stage ..), rfl, rfl, id, id⟩
  | drop i hpc => exact ⟨thread hpc (by split <;> rfl), rfl, rfl, id, id⟩
  | pollLoad hc => exact ⟨fun _ => rfl, rfl, consumer hc (pollTop_entering _) (fun _ => by simp) (fun _ => rfl)⟩
  | pollSwap state hc => exact ⟨fun _ => rfl, rfl, consumer hc (settle_entering ..) (fun _ => by simp) (fun _ => rfl)⟩
  | pollRetry state hc => exact ⟨fun _ => rfl, rfl, consumer hc (pollTop_entering _) (fun _ => by simp) (fun _ => rfl)⟩
  | release hc => exact ⟨fun _ => rfl, rfl, consumer hc rfl (fun h => absurd rfl h) (fun _ => rfl)⟩
  | token next readiness t hc => exact ⟨fun _ => rfl, rfl, consumer hc rfl (fun _ => by simp) (fun h => by cases h)⟩
  | noToken next readiness hc => exact ⟨fun _ => rfl, rfl, consumer hc rfl (fun _ => by simp) (fun h => by cases h)⟩
  | push readiness t hc => exact ⟨fun _ => rfl, rfl, consumer hc rfl (fun _ => by simp) (fun h => by cases h)⟩
  | resetJob hc => exact ⟨fun _ => rfl, rfl, consumer hc rfl (fun h => absurd rfl h) (fun h => by cases h)⟩
  | _ => exact he.elim

theorem Tied.node_apart [DecidableEq ι] {q : Queue (ι × ν) ν} {s t : NodeSt ι Unit J} {n : ν} {e : NodeEv ι Unit J}
    (h : Tied q s n) (hs : NodeStep s e t) (he : e.Apart) : Tied q t n := by
  obtain ⟨hstage, hlinked, hent, haway, hholds⟩ := apart_step hs he
  refine ⟨fun i => by rw [h.threads i, hstage i], by rw [h.consumer, hent], ?_, fun hc => h.later (haway hc), ?_⟩
  · intro hh hne
    exact h.early (hholds hh) (by rw [← hent]; exact hne)
  · rw [h.busy, hlinked, hent]
    simp only [hstage]

/-! ### The queue moves -/

section QueueMoves

variable {κ : Type} {q q' : Queue κ ν} {rest : List (Ptr ν)}

/-- What a thread is enqueuing, until it has linked it. -/
abbrev flights (q : Queue κ ν) (a : Agent κ) : Option (Option (Ptr ν)) := (q.flight a).map Enq.target

theorem flights_update [DecidableEq κ] {flight : Agent κ → Option (Enq ν)} {a : Agent κ} {o : Option (Enq ν)}
    (ho : o.map Enq.target = (flight a).map Enq.target) (g : Agent κ) :
    (update flight a o g).map Enq.target = (flight g).map Enq.target := by
  by_cases hg : g = a
  · subst hg
    rw [Function.update_self, ho]
  · rw [Function.update_of_ne hg]

/-- What the nodes see of a step of the queue that they have no part in: nothing, but for
    the consumer's being done with one. -/
structure Unseen (q q' : Queue κ ν) (e : Ev κ ν) : Prop where
  threads : ∀ i, flights q' (some i) = flights q (some i)
  consumer : ∀ n, flights q' none = some (some (.node n)) ↔ flights q none = some (some (.node n))
  idle : (∀ op, e ≠ .called op) → q.cons = .idle → q'.cons = .idle
  requeue : q.cons = .requeue → q'.cons = .idle ∨ q'.cons = .requeue
  busy : q'.busy = q.busy

theorem AtNode.moving {u : Option (Ptr ν)} (h : q.AtNode u) : q.cons ≠ .idle ∧ q.cons ≠ .requeue := by
  rcases h with hc | ⟨hc, -⟩
  · rw [hc]
    exact ⟨by simp, by simp⟩
  · rw [hc]
    exact ⟨by simp, by simp⟩

theorem apart_queue [DecidableEq κ] [DecidableEq ν] {e : Ev κ ν} (h : Inv q rest) (hs : QStep q e q') (he : e.Apart) :
    Unseen q q' e := by
  have thread : ∀ {a : Agent κ} {e₀ e₁ : Enq ν} {q' : Queue κ ν}, q.flight a = some e₀ →
      q'.flight = update q.flight a (some e₁) → e₁.target = e₀.target → q'.cons = q.cons → q'.busy = q.busy →
      Unseen q q' e := by
    intro a e₀ e₁ q' h0 hf ht hc hb
    have hsame : ∀ g, flights q' g = flights q g := by
      intro g
      unfold flights
      rw [hf]
      exact flights_update (by rw [h0]; simp [ht]) g
    exact ⟨fun i => hsame _, fun n => by rw [hsame], fun _ hi => hc.trans hi, fun hr => .inr (hc.trans hr), hb⟩
  have consumer : ∀ {c : Cons ν} {q' : Queue κ ν}, q.cons = c → c ≠ .idle → c ≠ .requeue → q'.flight = q.flight →
      q'.busy = q.busy → Unseen q q' e := by
    intro c q' hc hi hr hf hb
    have hsame : ∀ g, flights q' g = flights q g := fun g => by unfold flights; rw [hf]
    exact ⟨fun i => hsame _, fun n => by rw [hsame], fun _ h' => absurd (hc.symm.trans h') hi,
      fun h' => absurd (hc.symm.trans h') hr, hb⟩
  have own : ∀ {o : Option (Enq ν)} {q' : Queue κ ν}, (∀ n, (q.flight none).map Enq.target ≠ some (some (.node n))) →
      (∀ n, o.map Enq.target ≠ some (some (.node n))) → q.cons ≠ .idle → (q.cons = .requeue → q'.cons = .idle ∨ q'.cons = .requeue) →
      q'.flight = update q.flight none o → q'.busy = q.busy → Unseen q q' e := by
    intro o q' ho hn hi hr hf hb
    refine ⟨fun i => ?_, fun n => ?_, fun _ h' => absurd h' hi, hr, hb⟩
    · unfold flights
      rw [hf, Function.update_of_ne (by simp)]
    · unfold flights
      rw [hf, Function.update_self]
      exact ⟨fun h' => absurd h' (hn n), fun h' => absurd h' (ho n)⟩
  have call : ∀ {op : Op ν} {q' : Queue κ ν}, e = .called op → q.cons = .idle → q'.flight = q.flight → q'.busy = q.busy →
      Unseen q q' e := by
    intro op q' he hc hf hb
    have hsame : ∀ g, flights q' g = flights q g := fun g => by unfold flights; rw [hf]
    exact ⟨fun i => hsame _, fun n => by rw [hsame], fun hno => absurd he (hno op),
      fun hr => absurd (hc.symm.trans hr) (by simp), hb⟩
  cases hs with
  | store a p h0 => exact thread h0 rfl rfl rfl rfl
  | load a p h0 => exact thread h0 rfl rfl rfl rfl
  | closed a p h0 => exact absurd h0 (h.flights.opened a p)
  | swap a p prev h0 _ _ => exact thread h0 rfl rfl rfl rfl
  | retry a p prev h0 _ _ => exact thread h0 rfl rfl rfl rfl
  | link a p prev h0 =>
    have hp : ∀ n, p ≠ .node n := by
      rintro n rfl
      exact he.elim
    cases a with
    | some i =>
      obtain ⟨n, hn⟩ := h.flights.producer i _ p h0 rfl
      exact absurd hn (hp n)
    | none =>
      have hidle : q.cons ≠ .idle := by
        intro hc
        have := h.cons.own_none (by rw [hc]; simp) (by rw [hc]; simp)
        rw [h0] at this
        cases this
      exact own (by rw [h0]; intro n hn; exact hp n (by simpa [Enq.target] using hn)) (by intro n hn; cases hn) hidle .inr rfl rfl
  | enqueue i n _ _ => exact he.elim
  | returned i w _ => exact he.elim
  | dequeue u hc => exact call rfl hc rfl rfl
  | deqNone u hc _ _ => exact consumer hc (by simp) (by simp) rfl rfl
  | deqSkip u b hc _ _ => exact consumer hc (by simp) (by simp) rfl rfl
  | deqUntil u hat _ =>
    obtain ⟨hi, hr⟩ := AtNode.moving hat
    exact consumer rfl hi hr rfl rfl
  | deqData u b _ _ _ => exact he.elim
  | deqMore u hat _ _ =>
    obtain ⟨hi, hr⟩ := AtNode.moving hat
    exact consumer rfl hi hr rfl rfl
  | deqHeadNe hc _ => exact consumer hc (by simp) (by simp) rfl rfl
  | deqHeadEq hc _ =>
    have hown : q.flight none = none := h.cons.own_none (by rw [hc]; simp) (by rw [hc]; simp)
    exact own (by simp [hown]) (by simp [Enq.target]) (by rw [hc]; simp) (by rw [hc]; simp) rfl rfl
  | deqEnded w hc h0 => exact own (by simp [h0, Enq.target]) (by simp) (by rw [hc]; simp) (by rw [hc]; simp) rfl rfl
  | deqLastData b _ _ => exact he.elim
  | deqLastNone hc _ => exact consumer hc (by simp) (by simp) rfl rfl
  | clear hc => exact call rfl hc rfl rfl
  | clearSkip deq hc _ => exact consumer hc (by simp) (by simp) rfl rfl
  | clearStore deq hc _ => exact consumer hc (by simp) (by simp) rfl rfl
  | clearSwap deq hc _ => exact consumer hc (by simp) (by simp) rfl rfl
  | clearFail deq hc _ => exact consumer hc (by simp) (by simp) rfl rfl
  | prepare hc => exact call rfl hc rfl rfl
  | prepareHead hc _ => exact consumer hc (by simp) (by simp) rfl rfl
  | prepareNo hc _ _ => exact consumer hc (by simp) (by simp) rfl rfl
  | prepareStore hc _ => exact consumer hc (by simp) (by simp) rfl rfl
  | prepareSwap hc _ => exact consumer hc (by simp) (by simp) rfl rfl
  | prepareFail hc _ => exact consumer hc (by simp) (by simp) rfl rfl
  | requeue n _ _ => exact he.elim
  | requeued w hc h0 =>
    exact own (by simp [h0, Enq.target]) (by simp) (by rw [hc]; simp) (fun _ => .inl rfl) rfl rfl

/-- What `dequeue_node` does when it hands out data. -/
theorem data_step [DecidableEq κ] [DecidableEq ν] {p : Ptr ν} (hs : QStep q (.answer (.data p)) q') :
    (q.cons ≠ .idle ∧ q.cons ≠ .requeue) ∧ q'.cons = .idle ∧ q'.flight = q.flight ∧ q'.busy = handOut q.busy p := by
  generalize he : (Ev.answer (.data p) : Ev κ ν) = e at hs
  cases hs with
  | deqData u b hat _ _ =>
    obtain rfl : p = q.tail := by simpa using he
    exact ⟨AtNode.moving hat, rfl, rfl, rfl⟩
  | deqLastData b hc _ =>
    obtain rfl : p = q.tail := by simpa using he
    exact ⟨by rw [hc]; simp, rfl, rfl, rfl⟩
  | clearSkip deq _ _ => cases deq <;> cases he
  | clearSwap deq _ _ => cases deq <;> cases he
  | clearFail deq _ _ => cases deq <;> cases he
  | _ => cases he

end QueueMoves

theorem Tied.queue_apart {q q' : Queue (ι × ν) ν} {s : NodeSt ι Unit J} {n : ν} {e : Ev (ι × ν) ν} (h : Tied q s n)
    (hu : Unseen q q' e) (hcall : ∀ op, e = .called op → s.consumer = .away) : Tied q' s n := by
  have busy_hand : s.consumer ≠ .away → ∀ op, e ≠ .called op := fun hc op he => hc (hcall op he)
  refine ⟨fun i => (hu.threads (i, n)).trans (h.threads i), (hu.consumer n).trans h.consumer, ?_, ?_,
    by rw [hu.busy]; exact h.busy⟩
  · intro hh hent
    refine hu.idle (busy_hand ?_) (h.early hh hent)
    intro hc
    rw [hc] at hh
    cases hh
  · intro hc
    rcases h.later hc with hi | hr
    · exact .inl (hu.idle (busy_hand hc) hi)
    · exact hu.requeue hr

/-! ### They move together -/

variable {q q' : Queue (ι × ν) ν} {s t : NodeSt ι Unit J} {n m : ν}

/-- In the node's own order: who enters `enqueue_node` had the place in the queue. -/
theorem free_of_owner {own : Option (Party ι)} {o : Party ι} (h : Tied q s n) (hi : NodeInv s.view own)
    (ho : own = some o) (hq : o ≠ .queue) (hout : ∀ i, o = .thread i → (s.pc i).stage = .out)
    (hcons : o = .consumer → s.consumer.entering = false) : q.busy n = false := by
  by_contra hb
  rcases h.busy.mp (by simpa using hb) with hl | ⟨i, hst⟩ | hent
  · have := (hi.owns_iff .queue).mp hl
    rw [ho] at this
    exact hq (Option.some.inj this)
  · have hpc : (s.pc i).holds = true := by
      cases hp : s.pc i with
      | enqueue => rfl
      | _ => rw [hp] at hst; cases hst
    have := (hi.owns_iff (.thread i)).mp hpc
    rw [ho] at this
    have hst' := hout i (Option.some.inj this)
    rw [hst] at hst'
    cases hst'
  · have hh : s.consumer.holds = true := by
      cases hc : s.consumer with
      | requeue next readiness => rfl
      | _ => rw [hc] at hent; cases hent
    have := (hi.owns_iff .consumer).mp hh
    rw [ho] at this
    rw [hcons (Option.some.inj this)] at hent
    cases hent

section Together

variable [DecidableEq ι] [DecidableEq ν]

/-- A thread moves on in `enqueue_node`, in both. -/
theorem Tied.thread (h : Tied q s n) {i : ι} {p : Pc Unit J} {o : Option (Enq ν)}
    (hp : o.map Enq.target = p.stage.flight n) (hf : q'.flight = update q.flight (some (i, n)) o)
    (hc : q'.cons = q.cons) (hpc : t.pc = update s.pc i p) (hcons : t.consumer = s.consumer)
    (hb : q'.busy n = true ↔ 0 < t.linked ∨ (∃ j, (t.pc j).stage = .entering) ∨ t.consumer.entering = true) :
    Tied q' t n := by
  refine ⟨fun j => ?_, ?_, by rw [hcons, hc]; exact h.early, by rw [hcons, hc]; exact h.later, hb⟩
  · rw [hf, hpc]
    by_cases hj : j = i
    · subst hj
      rw [Function.update_self, Function.update_self, hp]
    · have hne : some (j, n) ≠ some (i, n) := by simpa using hj
      rw [Function.update_of_ne hne, Function.update_of_ne hj]
      exact h.threads j
  · rw [hf, Function.update_of_ne (by simp), hcons]
    exact h.consumer

/-- The other nodes see nothing of it. -/
theorem Tied.other_thread (h : Tied q s m) (hne : m ≠ n) {i : ι} {o : Option (Enq ν)}
    (hf : q'.flight = update q.flight (some (i, n)) o) (hc : q'.cons = q.cons) (hb : q'.busy m = q.busy m) :
    Tied q' s m := by
  refine ⟨fun j => ?_, ?_, by rw [hc]; exact h.early, by rw [hc]; exact h.later, by rw [hb]; exact h.busy⟩
  · have hne' : some (j, m) ≠ some (i, n) := by simp [hne]
    rw [hf, Function.update_of_ne hne']
    exact h.threads j
  · rw [hf, Function.update_of_ne (by simp)]
    exact h.consumer

/-- The consumer moves on in `enqueue_node`, in both. -/
theorem Tied.own (h : Tied q s n) {o : Option (Enq ν)} (hf : q'.flight = update q.flight none o) (hpc : t.pc = s.pc)
    (ho : o.map Enq.target = some (some (.node n)) ↔ t.consumer.entering = true)
    (he : t.consumer.holds = true → t.consumer.entering = true) (hc : q'.cons = .requeue)
    (hb : q'.busy n = true ↔ 0 < t.linked ∨ (∃ j, (t.pc j).stage = .entering) ∨ t.consumer.entering = true) :
    Tied q' t n := by
  refine ⟨fun j => ?_, ?_, ?_, fun _ => .inr hc, hb⟩
  · rw [hf, Function.update_of_ne (by simp), hpc]
    exact h.threads j
  · rw [hf, Function.update_self]
    exact ho
  · intro hh hent
    rw [he hh] at hent
    cases hent

/-- The other nodes are not in the consumer's hand. -/
theorem Tied.other_own (h : Tied q s m) {o : Option (Enq ν)} (hf : q'.flight = update q.flight none o)
    (ho : o.map Enq.target ≠ some (some (.node m))) (haway : s.consumer = .away) (hb : q'.busy m = q.busy m) :
    Tied q' s m := by
  refine ⟨fun j => ?_, ?_, ?_, fun hc => absurd haway hc, by rw [hb]; exact h.busy⟩
  · rw [hf, Function.update_of_ne (by simp)]
    exact h.threads j
  · rw [hf, Function.update_self, haway]
    exact ⟨fun h' => absurd h' ho, fun h' => by cases h'⟩
  · intro hh
    rw [haway] at hh
    cases hh

/-- A node moves, and the queue with it or not. -/
theorem WorldInv.moves {w : World ι ν J} {e : NodeEv ι Unit J} (h : WorldInv w) (hq : ∃ rest, Inv q rest)
    (ht : NodeStep (w.nodes n) e t) (hn : Tied q t n)
    (hm : ∀ m, m ≠ n → Tied q (w.nodes m) m)
    (ha : t.consumer ≠ .away → ∀ m, m ≠ n → (w.nodes m).consumer = .away) : WorldInv ⟨q, update w.nodes n t⟩ := by
  refine ⟨hq, ?_, ?_, fun m m' hc hc' => ?_⟩
  · obtain ⟨own, hi⟩ := h.nodes n
    exact (Function.forall_update_iff w.nodes fun _ x => ∃ own, NodeInv x.view own).mpr ⟨node_step hi ht, fun m _ => h.nodes m⟩
  · exact (Function.forall_update_iff w.nodes fun m x => Tied q x m).mpr ⟨hn, hm⟩
  · change (update w.nodes n t m).consumer ≠ .away at hc
    change (update w.nodes n t m').consumer ≠ .away at hc'
    by_cases hmn : m = n
    · subst hmn
      rw [Function.update_self] at hc
      by_cases hmm : m' = m
      · exact hmm.symm
      · rw [Function.update_of_ne hmm] at hc'
        exact absurd (ha hc m' hmm) hc'
    · rw [Function.update_of_ne hmn] at hc
      by_cases hmm : m' = n
      · subst hmm
        rw [Function.update_self] at hc'
        exact absurd (ha hc' m hmn) hc
      · rw [Function.update_of_ne hmm] at hc'
        exact h.alone m m' hc hc'

theorem WorldInv.both {w : World ι ν J} {e : NodeEv ι Unit J} {f : Ev (ι × ν) ν} (h : WorldInv w)
    (ht : NodeStep (w.nodes n) e t) (hq : QStep w.queue f q) (hn : Tied q t n)
    (hm : ∀ m, m ≠ n → Tied q (w.nodes m) m)
    (ha : t.consumer ≠ .away → ∀ m, m ≠ n → (w.nodes m).consumer = .away) : WorldInv ⟨q, update w.nodes n t⟩ := by
  obtain ⟨rest, hinv⟩ := h.queue
  obtain ⟨rest', hinv', -⟩ := step_inv hinv hq
  exact h.moves ⟨rest', hinv'⟩ ht hn hm ha

omit [DecidableEq ι] [DecidableEq ν] in
theorem WorldInv.others_away {w : World ι ν J} (h : WorldInv w) (hc : (w.nodes n).consumer ≠ .away) (m : ν) (hm : m ≠ n) :
    (w.nodes m).consumer = .away := by
  by_contra hne
  exact hm (h.alone m n hne hc)

/-- A thread enters `enqueue_node`. -/
theorem WorldInv.enters_thread {w : World ι ν J} {i : ι} (h : WorldInv w) (ht : NodeStep (w.nodes n) (.enters (some i)) t)
    (hq : QStep w.queue (.enqueue (some (i, n)) n) q) : WorldInv ⟨q, update w.nodes n t⟩ := by
  obtain ⟨hpc, hlinked, hcons⟩ : t.pc = update (w.nodes n).pc i .enqueue ∧ t.linked = (w.nodes n).linked ∧
      t.consumer = (w.nodes n).consumer := by
    cases ht with
    | loadQueue => exact ⟨rfl, rfl, rfl⟩
    | updJob => exact ⟨rfl, rfl, rfl⟩
  have hn := h.tied n
  refine h.both ht hq ?_ ?_ (by rw [hcons]; exact h.others_away)
  · cases hq with
    | enqueue _ _ h0 hb =>
      refine hn.thread (i := i) (p := .enqueue) rfl rfl rfl hpc hcons ?_
      constructor
      · intro _
        exact .inr (.inl ⟨i, by rw [hpc, Function.update_self]; rfl⟩)
      · intro _
        exact Function.update_self ..
  · intro m hm
    cases hq with
    | enqueue _ _ h0 hb => exact (h.tied m).other_thread hm (i := i) rfl rfl (Function.update_of_ne hm ..)

/-- The consumer does. -/
theorem WorldInv.enters_consumer {w : World ι ν J} (h : WorldInv w) (ht : NodeStep (w.nodes n) (.enters none) t)
    (hq : QStep w.queue (.enqueue none n) q) : WorldInv ⟨q, update w.nodes n t⟩ := by
  have hn := h.tied n
  cases ht with
  | putBack next readiness hc =>
    have hother := h.others_away (n := n) (by rw [hc]; simp)
    refine h.both (.putBack _ next readiness hc) hq ?_ ?_ (fun _ => hother)
    · cases hq with
      | requeue _ hidle hb =>
        refine hn.own rfl rfl (by simp [Enq.target, ConsumerPc.entering]) (fun _ => rfl) rfl ?_
        constructor
        · intro _
          exact .inr (.inr rfl)
        · intro _
          exact Function.update_self ..
    · intro m hm
      cases hq with
      | requeue _ hidle hb =>
        refine (h.tied m).other_own rfl ?_ (hother m hm) (Function.update_of_ne hm ..)
        simp [Enq.target, Ne.symm hm]

/-- A thread links the node. -/
theorem WorldInv.links_thread {w : World ι ν J} {i : ι} (h : WorldInv w) (ht : NodeStep (w.nodes n) (.enqueued (some i)) t)
    (hq : QStep w.queue (.linked (some (i, n)) (.node n)) q) : WorldInv ⟨q, update w.nodes n t⟩ := by
  obtain ⟨rest, hinv⟩ := h.queue
  have hn := h.tied n
  refine h.both ht hq ?_ ?_ ?_
  · cases ht with
    | link _ hpc =>
      cases hq with
      | link _ _ prev h0 =>
        refine hn.thread (i := i) (p := .wakeup) rfl rfl rfl rfl rfl ?_
        constructor
        · intro _
          exact .inl (Nat.succ_pos _)
        · intro _
          exact hinv.flights.busyFlight _ _ n h0 rfl
  · intro m hm
    cases hq with
    | link _ _ prev h0 => exact (h.tied m).other_thread hm (i := i) rfl rfl rfl
  · cases ht with
    | link _ hpc => exact h.others_away

theorem emit_entering (next : ReadinessState) (readiness : Ready) : (emit next readiness).entering = false := by
  unfold emit
  split <;> rfl

/-- The consumer does. -/
theorem WorldInv.links_consumer {w : World ι ν J} (h : WorldInv w) (ht : NodeStep (w.nodes n) (.enqueued none) t)
    (hq : QStep w.queue (.linked none (.node n)) q) : WorldInv ⟨q, update w.nodes n t⟩ := by
  obtain ⟨rest, hinv⟩ := h.queue
  have hn := h.tied n
  cases ht with
  | requeueLink next readiness hc =>
    have hother := h.others_away (n := n) (by rw [hc]; simp)
    refine h.both (.requeueLink _ next readiness hc) hq ?_ ?_ (fun _ => hother)
    · cases hq with
      | link _ _ prev h0 =>
        have hreq : w.queue.cons = .requeue := by
          rcases hn.later (by rw [hc]; simp) with hi | hr
          · have := hinv.cons.own_none (by rw [hi]; simp) (by rw [hi]; simp)
            rw [h0] at this
            cases this
          · exact hr
        refine hn.own rfl rfl ?_ ?_ hreq ?_
        · show _ ↔ (emit next readiness).entering = true
          rw [emit_entering]
          simp [Enq.target]
        · intro hh
          change (emit next readiness).holds = true at hh
          rw [NodeInv.emit_holds] at hh
          cases hh
        · constructor
          · intro _
            exact .inl (Nat.succ_pos _)
          · intro _
            exact hinv.flights.busyFlight _ _ n h0 rfl
    · intro m hm
      cases hq with
      | link _ _ prev h0 => exact (h.tied m).other_own rfl (by simp [Enq.target]) (hother m hm) rfl

/-- A thread returns from `enqueue_node`. -/
theorem WorldInv.returns {w : World ι ν J} {i : ι} {b : Bool} (h : WorldInv w) (ht : NodeStep (w.nodes n) (.woken i) t)
    (hq : QStep w.queue (.returned (i, n) b) q) : WorldInv ⟨q, update w.nodes n t⟩ := by
  have hn := h.tied n
  cases ht with
  | wakeup _ ok hpc =>
    refine h.both (.wakeup _ i ok hpc) hq ?_ ?_ h.others_away
    · cases hq with
      | returned _ _ h0 =>
        refine hn.thread (i := i) (p := .ret ok) rfl rfl rfl rfl rfl ?_
        rw [hn.busy]
        have hst : (∃ j, (update (w.nodes n).pc i (.ret ok) j).stage = .entering) ↔
            ∃ j, ((w.nodes n).pc j).stage = .entering := by
          constructor
          · intro hx
            obtain ⟨j, hj⟩ := hx
            by_cases e : j = i
            · rw [e, Function.update_self] at hj
              cases hj
            · rw [Function.update_of_ne e] at hj
              exact ⟨j, hj⟩
          · intro hx
            obtain ⟨j, hj⟩ := hx
            refine ⟨j, ?_⟩
            rw [Function.update_of_ne]
            · exact hj
            · intro e
              subst e
              rw [hpc] at hj
              cases hj
        show _ ↔ 0 < (w.nodes n).linked ∨ (∃ j, (update (w.nodes n).pc i (.ret ok) j).stage = .entering) ∨ _
        rw [hst]
    · intro m hm
      cases hq with
      | returned _ _ h0 => exact (h.tied m).other_thread hm (i := i) rfl rfl rfl

/-- The node is handed out. -/
theorem WorldInv.handed_out {w : World ι ν J} (h : WorldInv w) (ht : NodeStep (w.nodes n) .dequeued t)
    (hq : QStep w.queue (.answer (.data (.node n))) q) : WorldInv ⟨q, update w.nodes n t⟩ := by
  obtain ⟨⟨hidle, hreq⟩, hcons, hflight, hbusy⟩ := data_step hq
  obtain ⟨rest, hinv⟩ := h.queue
  obtain ⟨-, hfree, hout⟩ := data_linked hinv hq rfl
  have hn := h.tied n
  -- while the consumer is in `dequeue_node` it has no node in hand
  have haway : ∀ m, (w.nodes m).consumer = .away := by
    intro m
    by_contra hc
    rcases (h.tied m).later hc with hi | hr
    · exact hidle hi
    · exact hreq hr
  refine h.both ht hq ?_ ?_ (fun _ m _ => haway m)
  · cases ht with
    | dequeue hc hl =>
      obtain ⟨own, hi⟩ := h.nodes n
      have hl1 : (w.nodes n).linked = 1 := hi.held.linked.1 ((hi.owns_iff .queue).mp hl)
      refine ⟨fun i => by rw [hflight]; exact hn.threads i, ?_, fun _ _ => hcons, fun _ => .inl hcons, ?_⟩
      · rw [hflight, hn.consumer, hc]
        exact Iff.rfl
      · constructor
        · intro hb
          rw [hout] at hb
          cases hb
        · intro hx
          rcases hx with hl | ⟨i, hst⟩ | hent
          · change 0 < (w.nodes n).linked - 1 at hl
            omega
          · -- a thread that enters would be enqueuing it
            have hf := hn.threads i
            rw [show ((w.nodes n).pc i).stage = .entering from hst] at hf
            obtain ⟨x, hx, hxn⟩ := Option.map_eq_some_iff.mp hf
            exact absurd hxn (hfree _ x hx)
          · cases hent
  · intro m hm
    have hb : q.busy m = w.queue.busy m := by
      rw [hbusy]
      exact Function.update_of_ne hm ..
    have hm' := h.tied m
    refine ⟨fun i => by rw [hflight]; exact hm'.threads i, by rw [hflight]; exact hm'.consumer, fun _ _ => hcons,
      fun _ => .inl hcons, by rw [hb]; exact hm'.busy⟩

theorem world_step {w w' : World ι ν J} {e : WorldEv ι ν J} (h : WorldInv w) (hs : WorldStep w e w') : WorldInv w' := by
  cases hs with
  | node n e t ht he =>
    obtain ⟨-, -, -, haway, -⟩ := apart_step ht he
    exact h.moves h.queue ht ((h.tied n).node_apart ht he) (fun m _ => h.tied m)
      (fun hc => h.others_away (haway hc))
  | queue e q hq he hcall =>
    obtain ⟨rest, hinv⟩ := h.queue
    obtain ⟨rest', hinv', -⟩ := step_inv hinv hq
    exact ⟨⟨rest', hinv'⟩, h.nodes,
      fun n => (h.tied n).queue_apart (apart_queue hinv hq he) (fun op hop => hcall op hop n), h.alone⟩
  | both n e f t q hm ht hq =>
    cases hm with
    | enters a =>
      cases a with
      | some i => exact h.enters_thread ht hq
      | none => exact h.enters_consumer ht hq
    | linked a =>
      cases a with
      | some i => exact h.links_thread ht hq
      | none => exact h.links_consumer ht hq
    | returned i b => exact h.returns ht hq
    | data => exact h.handed_out ht hq

theorem world_inv {τ : List (WorldEv ι ν J)} {w : World ι ν J} (h : Run (world ι ν J) τ w) : WorldInv w := by
  refine Run.inv (P := WorldInv) ?_ (fun w e w' hw hs => world_step hw hs) h
  intro w hx
  obtain ⟨hq, hn⟩ := hx
  refine ⟨⟨[], by rw [hq]; exact new_inv⟩, fun n => ⟨none, fresh_inv (hn n)⟩, fun n => ?_, fun n m hc => ?_⟩
  · obtain ⟨node, hnode, -⟩ := hn n
    rw [hq, hnode]
    refine ⟨fun i => rfl, ?_, ?_, ?_, ?_⟩
    · constructor
      · intro hf
        cases hf
      · intro hent
        cases hent
    · intro hh
      cases hh
    · intro hc
      exact absurd rfl hc
    · constructor
      · intro hb
        cases hb
      · intro hx
        rcases hx with hl | ⟨i, hst⟩ | hent
        · cases hl
        · cases hst
        · cases hent
  · obtain ⟨node, hnode, -⟩ := hn n
    rw [hnode] at hc
    exact absurd rfl hc

/-! ## Neither waits for the other -/

/-- Whoever is about to enter `enqueue_node` with a node finds that the queue has it not. -/
theorem enters_enabled {τ : List (WorldEv ι ν J)} {w : World ι ν J} (h : Run (world ι ν J) τ w) {a : Option ι}
    (ht : NodeStep (w.nodes n) (.enters a) t) : ∃ q, QStep w.queue (.enqueue (agent a n) n) q := by
  have hw := world_inv h
  have hn := hw.tied n
  obtain ⟨own, hi⟩ := hw.nodes n
  have thread : ∀ {i : ι} {p : Pc Unit J}, (w.nodes n).pc i = p → p.holds = true → p.stage = .out →
      ∃ q, QStep w.queue (.enqueue (some (i, n)) n) q := by
    intro i p hpc hh hst
    have ho := (hi.owns_iff (.thread i)).mp (by show ((w.nodes n).pc i).holds = true; rw [hpc, hh])
    have hf := hn.threads i
    rw [hpc, hst] at hf
    refine ⟨_, .enqueue _ (i, n) n (Option.map_eq_none_iff.mp hf) ?_⟩
    refine free_of_owner hn hi ho (by simp) (fun j hj => ?_) (fun hj => by cases hj)
    cases hj
    rw [hpc, hst]
  cases ht with
  | loadQueue i q hpc _ => exact thread hpc rfl rfl
  | updJob i a hpc => exact thread hpc rfl rfl
  | putBack next readiness hc =>
    have hent : (w.nodes n).consumer.entering = false := by rw [hc]; rfl
    have hh : (w.nodes n).consumer.holds = true := by rw [hc]; rfl
    have ho := (hi.owns_iff .consumer).mp hh
    exact ⟨_, .requeue _ n (hn.early hh hent)
      (free_of_owner hn hi ho (by simp) (fun j hj => by cases hj) (fun _ => hent))⟩

omit [DecidableEq ι] [DecidableEq ν] in
/-- Whoever is enqueuing node `n` in the queue is doing so in the node. -/
theorem WorldInv.enqueuing {w : World ι ν J} (h : WorldInv w) {g : Agent (ι × ν)} {e : Enq ν}
    (hg : w.queue.flight g = some e) (he : e.target = some (.node n)) :
    (∃ i, g = some (i, n) ∧ (w.nodes n).pc i = .enqueue) ∨
      g = none ∧ ∃ next readiness, (w.nodes n).consumer = .requeue next readiness := by
  cases g with
  | some im =>
    obtain ⟨i, m⟩ := im
    have hf := (h.tied m).threads i
    rw [hg, Option.map_some, he] at hf
    cases hpc : (w.nodes m).pc i with
    | enqueue =>
      rw [hpc] at hf
      obtain rfl : n = m := by simpa [Stage.flight, Pc.stage] using hf
      exact .inl ⟨i, rfl, hpc⟩
    | _ => rw [hpc] at hf; simp [Stage.flight, Pc.stage] at hf
  | none =>
    have hent := (h.tied n).consumer.mp (by rw [hg, Option.map_some, he])
    cases hc : (w.nodes n).consumer with
    | requeue next readiness => exact .inr ⟨rfl, next, readiness, rfl⟩
    | _ => rw [hc] at hent; cases hent

/-- A node that the queue links is one that the same thread, or the consumer, is enqueuing. -/
theorem linked_enabled {τ : List (WorldEv ι ν J)} {w : World ι ν J} (h : Run (world ι ν J) τ w) {b : Agent (ι × ν)}
    (hq : QStep w.queue (.linked b (.node n)) q) : ∃ a t, b = agent a n ∧ NodeStep (w.nodes n) (.enqueued a) t := by
  cases hq with
  | link _ _ prev h0 =>
    rcases (world_inv h).enqueuing h0 rfl with ⟨i, rfl, hpc⟩ | ⟨rfl, next, readiness, hc⟩
    · exact ⟨some i, _, rfl, .link _ i hpc⟩
    · exact ⟨none, _, rfl, .requeueLink _ next readiness hc⟩

/-- A thread that returns from `enqueue_node` has linked its node. -/
theorem returned_enabled {τ : List (WorldEv ι ν J)} {w : World ι ν J} (h : Run (world ι ν J) τ w) {i : ι} {b : Bool}
    (hq : QStep w.queue (.returned (i, n) b) q) : ∃ t, NodeStep (w.nodes n) (.woken i) t := by
  have hf := ((world_inv h).tied n).threads i
  cases hq with
  | returned _ _ h0 =>
    rw [h0] at hf
    cases hpc : (w.nodes n).pc i with
    | wakeup => exact ⟨_, .wakeup _ i true hpc⟩
    | _ => rw [hpc] at hf; simp [Enq.target, Stage.flight, Pc.stage] at hf

/-- What the queue hands out is a node that is in it, and the consumer has its hands free. -/
theorem data_enabled {τ : List (WorldEv ι ν J)} {w : World ι ν J} (h : Run (world ι ν J) τ w) {p : Ptr ν}
    (hq : QStep w.queue (.answer (.data p)) q) : ∃ n t, p = .node n ∧ NodeStep (w.nodes n) .dequeued t := by
  have hw := world_inv h
  obtain ⟨rest, hinv⟩ := hw.queue
  obtain ⟨-, -, n, rfl, -⟩ := step_inv hinv hq
  obtain ⟨⟨hidle, hreq⟩, -, -, -⟩ := data_step hq
  obtain ⟨hb, hfree, -⟩ := data_linked hinv hq rfl
  have hn := hw.tied n
  have hc : (w.nodes n).consumer = .away := by
    by_contra hc
    rcases hn.later hc with hi | hr
    · exact hidle hi
    · exact hreq hr
  refine ⟨n, _, rfl, .dequeue _ hc ?_⟩
  rcases hn.busy.mp hb with hl | ⟨i, hst⟩ | hent
  · exact hl
  · have hf := hn.threads i
    rw [hst] at hf
    obtain ⟨x, hx, hxn⟩ := Option.map_eq_some_iff.mp hf
    exact absurd hxn (hfree _ x hx)
  · rw [hc] at hent
    cases hent

omit [DecidableEq ι] [DecidableEq ν] in
/-- A node that is in the queue is in the chain from its tail to its head. -/
theorem WorldInv.in_chain {w : World ι ν J} (hw : WorldInv w) {rest : List (Ptr ν)} (hinv : Inv w.queue rest)
    (hl : 0 < (w.nodes n).linked) : .node n ∈ w.queue.tail :: rest := by
  rcases hinv.flights.placed n ((hw.tied n).busy.mpr (.inl hl)) with hm | ⟨g, e, hg, hwait⟩
  · exact hm
  · -- it would have a second owner
    obtain ⟨own, hi⟩ := hw.nodes n
    have hq := (hi.owns_iff .queue).mp hl
    rcases hw.enqueuing hg (Enq.target_of_waiting hwait) with ⟨i, -, hpc⟩ | ⟨-, next, readiness, hc⟩
    · have ho := (hi.owns_iff (.thread i)).mp (Enqueuing.owns hpc)
      rw [hq] at ho
      cases ho
    · have ho := (hi.owns_iff .consumer).mp (Enqueuing.owns ⟨next, readiness, hc⟩)
      rw [hq] at ho
      cases ho

theorem linked_in_chain {τ : List (WorldEv ι ν J)} {w : World ι ν J} (h : Run (world ι ν J) τ w)
    (hl : 0 < (w.nodes n).linked) : ∃ rest, Inv w.queue rest ∧ .node n ∈ w.queue.tail :: rest := by
  have hw := world_inv h
  obtain ⟨rest, hinv⟩ := hw.queue
  exact ⟨rest, hinv, hw.in_chain hinv hl⟩

/-- Where a queued node of the queue is, until it is released: in the chain, in the
    consumer's hands, or about to be enqueued by a thread. -/
theorem queued_somewhere {τ : List (WorldEv ι ν J)} {w : World ι ν J} (h : Run (world ι ν J) τ w)
    (ha : (w.nodes n).node.readinessQueue ≠ none) (hr : (w.nodes n).released = false)
    (hq : (w.nodes n).node.state.isQueued = true) :
    (∃ rest, Inv w.queue rest ∧ .node n ∈ w.queue.tail :: rest) ∨ (w.nodes n).consumer.holds = true ∨
      ∃ i, ((w.nodes n).pc i).holds = true := by
  obtain ⟨own, hi⟩ := (world_inv h).nodes n
  have hown : (w.nodes n).node.state.isQueued = own.isSome := hi.queued (Option.isSome_iff_ne_none.mpr ha) hr
  rw [hq] at hown
  obtain ⟨o, rfl⟩ := Option.isSome_iff_exists.mp hown.symm
  have ho := (hi.owns_iff o).mpr rfl
  cases o with
  | queue => exact .inl (linked_in_chain h ho)
  | consumer => exact .inr (.inl ho)
  | thread i => exact .inr (.inr ⟨i, ho⟩)

end Together

end Sickle.Poll
