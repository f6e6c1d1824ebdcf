/-
  Sickle.Net.TimersEvent — from a pending timeout to the loop (`timer.rs` on top of
  `poll.rs`).

  The loop registers its timer, edge-triggered and for readable (`EventLoop::configured`).
  The timer of `Sickle.Timers.Wakeup` makes its registration readable and clears it again
  by `set_readiness`, and there each is one step on a flag. Here they are calls on the
  node of `Sickle.Poll.Node`: the wakeup thread and the owner are two of its callers, and
  the flag changes with the exchange of the node's word. The queue's consumer runs as it
  does there; when it pushes the node's event, the loop has a timers event to handle, and
  polls the timer until nothing is left.

  - `ticking_sys`, `ticking_node`: the two components run as they do alone.
  - `Shown`: the word shows what the flag says, and a flag that is up is on its way to
    the loop.
  - `a_timeout_reaches_the_loop`: while the loop has nothing to do for the timer, each
    pending timeout that the wheel has not passed has `wakeup_state` at or below its tick,
    or the thread is about to make the timer readable, or the node is in the queue, about
    to be put there, or in the consumer's hands.
-/

import Sickle.Poll.Oneshot
import Sickle.Poll.Token
import Sickle.Timers.Rearm

namespace Sickle.Net

open Function (update)
open Sickle.Lib Sickle.Poll Sickle.Timers

variable {T κ : Type}

/-- The callers of the timer's node. -/
inductive Caller where
  | thread
  | owner
  deriving DecidableEq

def EMPTY4 : Ready4 := ⟨Ready.empty, noReady_within⟩

def INTEREST4 : Ready4 := ⟨Ready.readable, readable_within⟩

def TIMER_TOKEN : TokenEntry := ⟨.timersEvent, ⟨0⟩⟩

def TIMER_EDGE4 : PollOpt4 := ⟨PollOpt.edge, edge_within⟩

/-- What each of them calls `set_readiness` with. -/
def Caller.ready (who : Caller) : Ready4 :=
  match who with
  | .thread => INTEREST4
  | .owner => EMPTY4

/-- `told`: a timers event was handed to the loop, and no drain has ended since. -/
structure Ticking (T κ : Type) where
  sys : Sys T
  node : NodeSt Caller κ Unit
  told : Bool

/-- `both`: an exchange of the word, which is a step of the timer too. -/
inductive TickEv (T κ : Type) where
  | timer (a : Act T)
  | node (e : NodeEv Caller κ Unit)
  | both (a : Act T) (e : NodeEv Caller κ Unit)

/-- An act that is no call of `set_readiness`, of a timer that stays. -/
def Act.by (a : Act T) : Option Caller :=
  match a with
  | .setTimeout _ _ _ _ | .cancelTimeout _ _ | .poll _ _ | .load | .store _ | .retry => some .owner
  | .threadLoad | .threadReturn | .threadPark _ | .threadDue _ | .threadPanic _ | .threadExchange | .threadRetry => some .thread
  | .clear | .register | .drop | .threadReadable => none

/-- A step of the node in the middle of a call, or of the consumer. -/
def Inside (e : NodeEv Caller κ Unit) : Prop :=
  match e with
  | .called _ _ | .wrote _ _ | .dropped _ => False
  | _ => True

variable [DecidableEq κ]

/-- Neither of the two goes on before its `set_readiness` has returned. -/
inductive TickStep : Ticking T κ → TickEv T κ → Ticking T κ → Prop
  | timer (s : Ticking T κ) (a : Act T) (who : Caller) (sys : Sys T) : SysStep s.sys a sys → Act.by a = some who →
      s.node.pc who = .idle → TickStep s (.timer a) { s with sys := sys }
  | callReadable (s : Ticking T κ) (i : Inner) (n : NodeSt Caller κ Unit) : s.sys.inner = some i → i.thread = .setReadiness →
      NodeStep s.node (.called .thread (.setReadiness INTEREST4)) n →
      TickStep s (.node (.called .thread (.setReadiness INTEREST4))) { s with node := n }
  | callEmpty (s : Ticking T κ) (n : NodeSt Caller κ Unit) : s.sys.owner = .clear →
      NodeStep s.node (.called .owner (.setReadiness EMPTY4)) n →
      TickStep s (.node (.called .owner (.setReadiness EMPTY4))) { s with node := n }
  | readable (s : Ticking T κ) (sys : Sys T) (state : ReadinessState) (n : NodeSt Caller κ Unit) :
      SysStep s.sys .threadReadable sys → NodeStep s.node (.wrote .thread state) n →
      TickStep s (.both .threadReadable (.wrote .thread state)) { s with sys := sys, node := n }
  /-- The drain is over. -/
  | clear (s : Ticking T κ) (sys : Sys T) (state : ReadinessState) (n : NodeSt Caller κ Unit) :
      SysStep s.sys .clear sys → NodeStep s.node (.wrote .owner state) n →
      TickStep s (.both .clear (.wrote .owner state)) ⟨sys, n, false⟩
  | inside (s : Ticking T κ) (e : NodeEv Caller κ Unit) (n : NodeSt Caller κ Unit) : NodeStep s.node e n → Inside e →
      TickStep s (.node e) { s with node := n, told := s.told || e.isEvent }

/-- A new timer, just registered. -/
def ticking (T κ : Type) [DecidableEq κ] : Lts (Ticking T κ) (TickEv T κ) :=
  ⟨fun s => (∃ s₀, (system T).init s₀ ∧ SysStep s₀ .register s.sys) ∧
    (∃ queue, s.node = ⟨.registered queue TIMER_TOKEN INTEREST4 TIMER_EDGE4, fun _ => .idle, .away, 0, false, false⟩) ∧
    s.told = false, TickStep⟩

/-! ## The components -/

/-- The acts of the timer, from its registration on. -/
def acts (τ : List (TickEv T κ)) : List (Act T) :=
  .register :: τ.filterMap fun e => match e with
    | .timer a => some a
    | .node _ => none
    | .both a _ => some a

def nodeEvents (τ : List (TickEv T κ)) : List (NodeEv Caller κ Unit) :=
  τ.filterMap fun e => match e with
    | .timer _ => none
    | .node e => some e
    | .both _ e => some e

theorem ticking_sys {τ : List (TickEv T κ)} {s : Ticking T κ} (h : Run (ticking T κ) τ s) : Run (system T) (acts τ) s.sys := by
  induction h with
  | init hi =>
    obtain ⟨⟨s₀, h0, hs⟩, -⟩ := hi
    exact Run.step (τ := []) (.init h0) hs
  | @step τ s s' e _ hs ih =>
    have happ : acts (τ ++ [e]) = acts τ ++ (acts [e]).tail := congrArg (Act.register :: ·) (List.filterMap_append ..)
    rw [happ]
    cases hs with
    | timer a who sys hs _ _ => exact ih.step hs
    | callReadable => exact (List.append_nil _).symm ▸ ih
    | callEmpty => exact (List.append_nil _).symm ▸ ih
    | readable sys state n hs _ => exact ih.step hs
    | clear sys state n hs _ => exact ih.step hs
    | inside => exact (List.append_nil _).symm ▸ ih

theorem ticking_node {τ : List (TickEv T κ)} {s : Ticking T κ} (h : Run (ticking T κ) τ s) :
    Run (node Caller κ Unit) (nodeEvents τ) s.node := by
  induction h with
  | init hi =>
    obtain ⟨-, ⟨queue, hn⟩, -⟩ := hi
    exact .init ⟨_, hn, .inr ⟨queue, TIMER_TOKEN, INTEREST4, TIMER_EDGE4, rfl⟩⟩
  | @step τ s s' e _ hs ih =>
    have happ : nodeEvents (τ ++ [e]) = nodeEvents τ ++ nodeEvents [e] := List.filterMap_append ..
    rw [happ]
    cases hs with
    | timer => exact (List.append_nil _).symm ▸ ih
    | callReadable i n _ _ hs => exact ih.step hs
    | callEmpty n _ hs => exact ih.step hs
    | readable sys state n _ hs => exact ih.step hs
    | clear sys state n _ hs => exact ih.step hs
    | inside e n hs _ => exact ih.step hs

/-! ## The word shows the flag -/

structure Showing (state : ReadinessState) (readable : Bool) : Prop where
  interest : state.interest = Ready.readable
  edge : state.pollOpt.isEdge = true
  oneshot : state.pollOpt.isOneshot = false
  readiness : state.readiness = if readable then Ready.readable else Ready.empty

namespace Showing

variable {state : ReadinessState} {readable : Bool}

theorem ready (h : Showing state true) : state.effectiveReadiness ≠ Ready.empty := by
  unfold ReadinessState.effectiveReadiness
  rw [h.readiness, h.interest]
  decide

theorem set (h : Showing state readable) (who : Caller) : Showing (state.setReadinessNext who.ready) (who == .thread) := by
  obtain ⟨hr, hi, ho, -⟩ := state.set_readiness_fields who.ready.2
  refine ⟨hi.trans h.interest, ho ▸ h.edge, ho ▸ h.oneshot, hr.trans ?_⟩
  cases who <;> rfl

theorem poll (h : Showing state readable) : Showing state.pollNext readable where
  interest := by
    rw [ReadinessState.poll_interest, h.oneshot, Bool.and_false, Bool.false_and]
    exact h.interest
  edge := by
    rw [ReadinessState.poll_pollOpt]
    exact h.edge
  oneshot := by
    rw [ReadinessState.poll_pollOpt]
    exact h.oneshot
  readiness := by
    rw [ReadinessState.poll_readiness]
    exact h.readiness

end Showing

/-- Not in `update`, and in `set_readiness` with its own readiness. -/
def Calling (who : Caller) (p : Pc κ Unit) : Prop :=
  match p with
  | .setLoad ready | .setSwap ready _ => ready = who.ready
  | .idle | .loadQueue | .enqueue | .wakeup | .ret _ => True
  | _ => False

/-- What was made readable is queued, or its event is about to be pushed, or was. -/
def OnItsWay (s : Ticking T κ) : Prop := s.node.node.state.isQueued = true ∨ s.node.consumer.emitting = 1 ∨ s.told = true

structure Shown (s : Ticking T κ) (i : Inner) : Prop where
  inner : s.sys.inner = some i
  showing : Showing s.node.node.state i.readable
  calls : ∀ who, Calling who (s.node.pc who)
  lives : s.node.flagged = false
  way : i.readable = true → OnItsWay s

namespace Shown

omit [DecidableEq κ]

variable {s : Ticking T κ} {i : Inner}

/-- A step of a caller that leaves the word. -/
theorem turn (h : Shown s i) (who : Caller) {p : Pc κ Unit} (hp : Calling who p) (linked : Nat) (e : NodeEv Caller κ Unit) :
    Shown { s with
      node := { s.node with linked := linked, pc := update s.node.pc who p }
      told := s.told || e.isEvent } i where
  inner := h.inner
  showing := h.showing
  calls j := by
    show Calling j (update s.node.pc who p j)
    by_cases hj : j = who
    · subst hj
      rw [Function.update_self]
      exact hp
    · rw [Function.update_of_ne hj]
      exact h.calls j
  lives := h.lives
  way hr := by
    rcases h.way hr with hq | he | ht
    · exact .inl hq
    · exact .inr (.inl he)
    · exact .inr (.inr (by simp [ht]))

/-- A step of the consumer that leaves the word: what it is about to push it pushes. -/
theorem consume (h : Shown s i) {n : NodeSt Caller κ Unit} {e : NodeEv Caller κ Unit} (hst : n.node.state = s.node.node.state)
    (hpc : n.pc = s.node.pc) (hf : n.flagged = s.node.flagged)
    (hc : s.node.consumer.emitting = 1 → n.consumer.emitting = 1 ∨ e.isEvent = true) :
    Shown { s with node := n, told := s.told || e.isEvent } i where
  inner := h.inner
  showing := hst.symm ▸ h.showing
  calls j := by
    show Calling j (n.pc j)
    rw [hpc]
    exact h.calls j
  lives := hf.trans h.lives
  way hr := by
    unfold OnItsWay
    rcases h.way hr with hq | he | ht
    · exact .inl (hst ▸ hq)
    · rcases hc he with he | he
      · exact .inr (.inl he)
      · exact .inr (.inr (by simp [he]))
    · exact .inr (.inr (by simp [ht]))

/-- The consumer takes what the word shows. -/
theorem take (h : Shown s i) : Shown { s with
    node := { s.node with
      node.state := s.node.node.state.pollNext
      consumer := settle s.node.node.state.pollNext s.node.node.state.effectiveReadiness }
    told := s.told || false } i where
  inner := h.inner
  showing := h.showing.poll
  calls := h.calls
  lives := h.lives
  way hr := by
    refine .inr (.inl ?_)
    have hready : s.node.node.state.effectiveReadiness.isEmpty = false := by
      have := (hr ▸ h.showing).ready
      simpa [Ready.isEmpty] using this
    show (settle _ _).emitting = 1
    rw [settle_emitting, hready]
    rfl

end Shown

omit [DecidableEq κ] in
theorem setTop_calling (who : Caller) (state : ReadinessState) : Calling who (setTop who.ready state : Pc κ Unit) := by
  unfold setTop
  split
  · trivial
  · exact rfl

omit [DecidableEq κ] in
theorem setDone_calling (who : Caller) (state next : ReadinessState) : Calling who (setDone state next : Pc κ Unit) := by
  unfold setDone
  split <;> trivial

/-- A step in the middle of a call, or of the consumer. -/
theorem inside_step {s : Ticking T κ} {i : Inner} {e : NodeEv Caller κ Unit} {n : NodeSt Caller κ Unit} (h : Shown s i)
    (hslots : Slots s.node.node s.node.pc s.node.consumer) (hs : NodeStep s.node e n) (he : Inside e) :
    Shown { s with node := n, told := s.told || e.isEvent } i := by
  have at_pc : ∀ {who : Caller} {p : Pc κ Unit}, s.node.pc who = p → Calling who p := fun hp => hp ▸ h.calls _
  have quiet : ∀ {c : ConsumerPc}, s.node.consumer = c → c.emitting = 0 → ∀ {P : Prop}, s.node.consumer.emitting = 1 → P := by
    intro c hc h0 P h1
    rw [hc, h0] at h1
    cases h1
  cases hs with
  | setLoad who ready hpc =>
    obtain rfl : ready = who.ready := at_pc hpc
    exact h.turn who (setTop_calling ..) _ .quiet
  | setRetry who ready state hpc hst =>
    obtain rfl : ready = who.ready := at_pc hpc
    exact h.turn who (setTop_calling ..) _ .quiet
  | loadNull who hpc hq => exact h.turn who (p := .ret true) trivial _ .quiet
  | loadQueue who q hpc hq => exact h.turn who (p := .enqueue) trivial _ (.enters (some who))
  | link who hpc => exact h.turn who (p := .wakeup) trivial _ (.enqueued (some who))
  | wakeup who ok hpc => exact h.turn who (p := .ret ok) trivial _ (.woken who)
  | returned who ok hpc => exact h.turn who (p := .idle) trivial _ (.returned who ok)
  | dequeue hc hl => exact h.consume rfl rfl rfl (quiet hc rfl)
  | pollLoad hc => exact h.consume rfl rfl rfl (quiet hc rfl)
  | pollSwap state hc hst =>
    subst hst
    exact h.take
  | pollRetry state hc hst => exact h.consume rfl rfl rfl (quiet hc rfl)
  | release hc => exact h.consume rfl rfl rfl (quiet hc rfl)
  | putBack next readiness hc =>
    refine h.consume rfl rfl rfl fun h1 => .inl ?_
    rw [hc] at h1
    exact h1
  | requeueLink next readiness hc =>
    refine h.consume rfl rfl rfl fun h1 => .inl ?_
    rw [hc] at h1
    exact (emit_emitting next readiness).trans h1
  | token next readiness t hc ht => exact h.consume rfl rfl rfl fun _ => .inl rfl
  | noToken next readiness hc ht =>
    have hread : next.tokenReadPos = s.node.node.state.tokenReadPos := by
      have hr := hslots.reader
      rw [hc] at hr
      exact hr
    obtain ⟨t, hsome⟩ := s.node.node.token_some (hread ▸ hslots.read)
    rw [ht] at hsome
    cases hsome
  | push readiness t hc => exact h.consume rfl rfl rfl fun _ => .inr rfl
  | resetJob hc => exact h.consume rfl rfl rfl (quiet hc rfl)
  | setCall => cases he
  | setSwap => cases he
  | updCall => cases he
  | updSwap => cases he
  | drop => cases he
  | updNull who a hpc => cases at_pc hpc
  | updQueue who a q hpc => cases at_pc hpc
  | updAssociate who a hpc => cases at_pc hpc
  | updTaken who a q hpc => cases at_pc hpc
  | updRef who a hpc => cases at_pc hpc
  | updLock who a hpc => cases at_pc hpc
  | updLocked who a hpc => cases at_pc hpc
  | updLoad who a hpc => cases at_pc hpc
  | updToken who a state hpc => cases at_pc hpc
  | updSlot who a state pos hpc => cases at_pc hpc
  | updRetry who a state pos hpc => cases at_pc hpc
  | updUnlock who a turned hpc => cases at_pc hpc
  | updJob who a hpc => cases at_pc hpc

/-- An exchange of the word by a caller. -/
theorem wrote_step {s : Ticking T κ} {i : Inner} {who : Caller} {state : ReadinessState} {n : NodeSt Caller κ Unit} (h : Shown s i)
    (hs : NodeStep s.node (.wrote who state) n) : Showing n.node.state (who == .thread) ∧ (∀ j, Calling j (n.pc j)) ∧
      n.flagged = false ∧ (who = .thread → n.node.state.isQueued = true) := by
  cases hs with
  | setSwap _ ready old hpc hst =>
    subst hst
    obtain rfl : ready = who.ready := by
      have hc := h.calls who
      rw [hpc] at hc
      exact hc
    refine ⟨h.showing.set who, fun j => ?_, h.lives, ?_⟩
    · by_cases hj : j = who
      · subst hj
        simp only [Function.update_self]
        exact setDone_calling ..
      · simp only [Function.update_of_ne hj]
        exact h.calls j
    · rintro rfl
      exact ReadinessState.queued_of_ready (h.showing.set .thread).ready
  | updSwap _ a old pos hpc hst =>
    have hc := h.calls who
    rw [hpc] at hc
    cases hc

omit [DecidableEq κ] in
/-- What is no call of `set_readiness` leaves the flag. -/
theorem flag_same {s s' : Sys T} {a : Act T} {who : Caller} {i : Inner} (hs : SysStep s a s') (ha : Act.by a = some who)
    (hi : s.inner = some i) : ∃ i', s'.inner = some i' ∧ i'.readable = i.readable := by
  cases hs with
  | setTimeout => exact ⟨i, hi, rfl⟩
  | cancelTimeout => exact ⟨i, hi, rfl⟩
  | pollFired => exact ⟨i, hi, rfl⟩
  | pollIdle => exact ⟨i, hi, rfl⟩
  | load => exact ⟨i, hi, rfl⟩
  | retry => exact ⟨i, hi, rfl⟩
  | store j curr tick _ hj =>
    cases hj.symm.trans hi
    exact ⟨_, rfl, rfl⟩
  | threadLoad j hj =>
    cases hj.symm.trans hi
    exact ⟨_, rfl, rfl⟩
  | threadReturn j hj =>
    cases hj.symm.trans hi
    exact ⟨_, rfl, rfl⟩
  | threadPark j v now elapsed hj =>
    cases hj.symm.trans hi
    exact ⟨_, rfl, rfl⟩
  | threadDue j v now elapsed hj =>
    cases hj.symm.trans hi
    exact ⟨_, rfl, rfl⟩
  | threadPanic j v fault elapsed hj =>
    cases hj.symm.trans hi
    exact ⟨_, rfl, rfl⟩
  | threadExchange j v hj =>
    cases hj.symm.trans hi
    exact ⟨_, rfl, rfl⟩
  | threadRetry j v hj =>
    cases hj.symm.trans hi
    exact ⟨_, rfl, rfl⟩
  | clear => cases ha
  | register => cases ha
  | drop => cases ha
  | threadReadable => cases ha

theorem shown_step {s s' : Ticking T κ} {i : Inner} {e : TickEv T κ} (h : Shown s i)
    (hslots : Slots s.node.node s.node.pc s.node.consumer) (hs : TickStep s e s') : ∃ i', Shown s' i' := by
  cases hs with
  | timer a who sys hs ha hidle =>
    obtain ⟨i', hi', hr⟩ := flag_same hs ha h.inner
    exact ⟨i', hi', hr ▸ h.showing, h.calls, h.lives, fun hread => h.way (hr ▸ hread)⟩
  | callReadable j n hj hthread hs =>
    cases hs with
    | setCall _ _ hpc =>
      have hturn : Shown _ i := h.turn .thread (p := .setLoad INTEREST4) rfl s.node.linked .quiet
      exact ⟨i, by simpa [NodeEv.isEvent] using hturn⟩
  | callEmpty n howner hs =>
    cases hs with
    | setCall _ _ hpc =>
      have hturn : Shown _ i := h.turn .owner (p := .setLoad EMPTY4) rfl s.node.linked .quiet
      exact ⟨i, by simpa [NodeEv.isEvent] using hturn⟩
  | readable sys state n hs hn =>
    obtain ⟨hshow, hcalls, hlives, hq⟩ := wrote_step h hn
    cases hs with
    | threadReadable j hj hthread => exact ⟨_, rfl, hshow, hcalls, hlives, fun _ => .inl (hq rfl)⟩
  | clear sys state n hs hn =>
    obtain ⟨hshow, hcalls, hlives, -⟩ := wrote_step h hn
    cases hs with
    | clear j next ho hj hnext => exact ⟨_, rfl, hshow, hcalls, hlives, fun hread => by cases hread⟩
  | inside e n hs he => exact ⟨i, inside_step h hslots hs he⟩

theorem shown_run {τ : List (TickEv T κ)} {s : Ticking T κ} (h : Run (ticking T κ) τ s) : ∃ i, Shown s i := by
  induction h with
  | @init s hi =>
    obtain ⟨sys, node, told⟩ := s
    obtain ⟨⟨s₀, h0, hs⟩, ⟨queue, rfl⟩, rfl⟩ := hi
    cases hs with
    | register next hidle hnone hnext =>
      refine ⟨_, rfl, ⟨?_, ?_, ?_, ?_⟩, fun _ => trivial, rfl, fun hr => by cases hr⟩ <;>
        show _ = _ <;> simp only [ReadinessNode.registered, ReadinessNode.new] <;> decide
  | step hr hs ih =>
    obtain ⟨i, hi⟩ := ih
    exact shown_step hi (slots_run (ticking_node hr)) hs

/-! ## Pending timeouts -/

omit [DecidableEq κ] in
theorem armed_run {τ : List (Act T)} {s : Sys T} (h : Run (system T) τ s) : ∃ b, Armed τ s b := by
  refine Run.inv_trace (P := fun τ s => ∃ b, Armed τ s b) ?_ ?_ h
  · rintro s ⟨tickMs, numSlots, rfl⟩
    exact ⟨_, new_rep tickMs numSlots, (fun _ _ h => by cases h),
      fun _ => ⟨(fun _ _ h => by cases h), fun _ hi => by cases hi⟩, fun _ _ ho => by cases ho⟩
  · rintro τ s a s' - ⟨b, hb⟩ hs
    exact armed_step hb hs

/-- A node that is in use and queued has an owner. -/
theorem Shown.owned {s : Ticking T κ} {i : Inner} (h : Shown s i) {τ : List (NodeEv Caller κ Unit)}
    (hr : Run (node Caller κ Unit) τ s.node) (hq : s.node.node.state.isQueued = true) : ∃ o, Owns s.node o := by
  obtain ⟨own, hinv⟩ := node_inv hr
  have hreleased : s.node.view.released = false := hinv.not_released h.lives
  have hassoc : s.node.view.associated = true := by
    by_contra hn
    obtain ⟨he, -⟩ := hinv.fresh (by simpa using hn) h.lives
    have hread : s.node.node.state.interest = Ready.readable := h.showing.interest
    rw [show s.node.node.state.interest = Ready.empty from he] at hread
    exact absurd hread (by decide)
  have hown : own.isSome = true := (hinv.queued hassoc hreleased).symm.trans hq
  obtain ⟨o, rfl⟩ := Option.isSome_iff_exists.mp hown
  exact ⟨o, (hinv.owns_iff o).mpr rfl⟩

/-- While the loop has nothing to do for the timer, each pending timeout that the wheel has
    not passed has a wakeup ahead, or the timer's node is on its way to the loop. -/
theorem a_timeout_reaches_the_loop {τ : List (TickEv T κ)} {s : Ticking T κ} {i : Inner} {k : Token} {e : Entry T}
    (h : Run (ticking T κ) τ s) (hidle : s.sys.owner = .idle) (hd : draining (acts τ) = false) (ht : s.told = false)
    (hi : s.sys.inner = some i) (he : s.sys.timer.entries k = some e) (hk : s.sys.timer.tick ≤ e.links.tick) :
    i.wakeupState ≤ e.links.tick ∨ i.thread = .setReadiness ∨ s.node.consumer.emitting = 1 ∨ ∃ o, Owns s.node o := by
  obtain ⟨b, hb⟩ := armed_run (ticking_sys h)
  obtain ⟨j, hshown⟩ := shown_run h
  obtain rfl : j = i := Option.some.inj (hshown.inner.symm.trans hi)
  have howed := (hb.drained hd).2 j hi k _ (hb.rep.due_of_entry he) (by rw [hb.rep.tick]; exact hk)
  rw [hidle] at howed
  rcases howed with hw | hthread | hread
  · exact .inl hw
  · exact .inr (.inl hthread)
  · rcases hshown.way hread with hq | hemit | htold
    · exact .inr (.inr (.inr (hshown.owned (ticking_node h) hq)))
    · exact .inr (.inr (.inl hemit))
    · rw [ht] at htold
      cases htold

/-- A timeout after 1 ms: the thread has taken the tick out and stored its readiness, and
    is about to put the node into the queue. -/
theorem a_timeout_reaches_the_loop_one_timeout : ∃ (τ : List (TickEv Unit Unit)) (s : Ticking Unit Unit) (i : Inner),
    Run (ticking Unit Unit) τ s ∧ i.wakeupState = U64_MAX ∧ i.thread = .top U64_MAX ∧
      (i.wakeupState ≤ 1 ∨ i.thread = .setReadiness ∨ s.node.consumer.emitting = 1 ∨ ∃ o, Owns s.node o) := by
  have h0 : Run (ticking Unit Unit) [] ⟨⟨⟨1, fun _ => none, fun _ => ⟨TICK_MAX, EMPTY⟩, 0, EMPTY, 7⟩,
      some ⟨U64_MAX, false, .load⟩, Sys.reschedule (some TICK_MAX)⟩,
      ⟨.registered () TIMER_TOKEN INTEREST4 TIMER_EDGE4, fun _ => .idle, .away, 0, false, false⟩, false⟩ :=
    .init ⟨⟨⟨⟨1, fun _ => none, fun _ => ⟨TICK_MAX, EMPTY⟩, 0, EMPTY, 7⟩, none, .idle⟩,
      ⟨1, 8, by rw [new_eight]⟩, .register _ (some TICK_MAX) rfl rfl rfl⟩, ⟨_, rfl⟩, rfl⟩
  have h1 := h0.step (.timer _ _ .owner _ (.load _ _ TICK_MAX rfl rfl) rfl rfl)
  have h2 := h1.step (.timer _ _ .owner _ (.setTimeout _ _ (.fromMillis 0 (Nat.zero_le _)) (.fromMillis 1 (by decide)) _ ()
    ⟨⟨0⟩, 1⟩ rfl rfl (.setTimeoutAt _ _ _ () ⟨0⟩ _ rfl (by decide)
      ((setTimeoutAt_eq () ⟨0⟩ (show durationToTick _ _ = .ok 1 from rfl) rfl).trans rfl))) rfl rfl)
  have h3 := h2.step (.timer _ _ .owner _ (.load _ _ 1 rfl rfl) rfl rfl)
  have h4 := h3.step (.timer _ _ .owner _ (.store _ _ TICK_MAX 1 rfl rfl rfl) rfl rfl)
  have h5 := h4.step (.timer _ _ .thread _ (.threadLoad _ _ rfl rfl) rfl rfl)
  have h6 := h5.step (.timer _ _ .thread _ (.threadDue _ _ 1 1 (.fromMillis 1 (by decide)) rfl rfl (by decide) rfl (by decide))
    rfl rfl)
  have h7 := h6.step (.timer _ _ .thread _ (.threadExchange _ _ 1 rfl rfl rfl) rfl rfl)
  have h8 := h7.step (.callReadable _ _ _ rfl rfl (.setCall _ Caller.thread INTEREST4 rfl))
  have h9 := h8.step (.inside _ _ _ (.setLoad _ .thread INTEREST4 rfl) trivial)
  have h10 := h9.step (.readable _ _ _ _ (.threadReadable _ _ rfl rfl) (.setSwap _ Caller.thread INTEREST4 _ rfl rfl))
  exact ⟨_, _, _, h10, rfl, rfl,
    a_timeout_reaches_the_loop (k := ⟨0⟩) (e := ⟨(), ⟨1, EMPTY, EMPTY⟩⟩) h10 rfl rfl rfl rfl rfl (by decide)⟩

end Sickle.Net
