/-
  Sickle.Timers.Wakeup — a timer and its wakeup thread.

  The owner calls `set_timeout`, `cancel_timeout`, `poll`, registers the timer and drops
  it; the wakeup thread of a registered timer sleeps until the tick in `wakeup_state`
  and then makes the registration readable. The two meet in that word and in the
  readiness: each load, each compare-exchange and each `set_readiness` is one step, in
  any order. Clock readings are free, and so is the moment a park ends.

  `TERMINATE_THREAD` is the tick 0. A timeout that rounds to tick 0 of a wheel still at
  tick 0 makes `schedule_readiness` store it: `a_zero_delay_terminates_the_thread`. With
  a tick of 0 ms the thread divides by it, and panics.
  - `wakeup_thread_lives`: in a run with no such timeout and a tick of at least 1 ms it is
    never stored, and the thread neither returns nor panics before the drop.
-/

import Sickle.Timers.Calls

namespace Sickle.Timers

open Function (update)
open Sickle.Lib

variable {T : Type}

def TERMINATE_THREAD : Nat := 0

theorem nanos_per_sec_pos : 0 < NANOS_PER_SEC := by decide

/-- `Duration + Duration`, which panics on overflow. -/
def Duration.add (a b : Duration) : Except Fault Duration :=
  if h : a.secs + b.secs + (a.nanos + b.nanos) / NANOS_PER_SEC ≤ U64_MAX then
    .ok ⟨_, (a.nanos + b.nanos) % NANOS_PER_SEC, h, Nat.mod_lt _ nanos_per_sec_pos⟩
  else .error .overflow

/-- Where the wakeup thread is in its loop, with its `sleep_until_tick`. -/
inductive ThreadPc where
  | load
  | top (sleepUntilTick : Nat)
  | exchange (sleepUntilTick : Nat)
  | setReadiness
  | returned
  | panicked
  deriving DecidableEq, Repr

/-- What the owner shares with the thread, and the thread. -/
structure Inner where
  wakeupState : Nat
  readable : Bool
  thread : ThreadPc
  deriving DecidableEq, Repr

/-- Where the owner is: outside the timer, in the loop of `schedule_readiness`, or at the
    end of a poll that returns nothing. -/
inductive OwnerPc where
  | idle
  | load (tick : Nat)
  | exchange (curr tick : Nat)
  | clear
  | dropped
  deriving DecidableEq, Repr

structure Sys (T : Type) where
  timer : Timer T
  inner : Option Inner
  owner : OwnerPc

namespace Sys

/-- `schedule_readiness`, which does nothing for a timer that is not registered. -/
def schedule (s : Sys T) (tick : Nat) : OwnerPc := if s.inner.isSome then .load tick else .idle

/-- `if let Some(tick) = next_tick() { schedule_readiness(tick) }` of a registered timer. -/
def reschedule (next : Option Nat) : OwnerPc :=
  match next with
  | some tick => .load tick
  | none => .idle

/-- The loop of `schedule_readiness` with `curr` in hand. -/
def spin (curr tick : Nat) : OwnerPc := if curr ≤ tick then .idle else .exchange curr tick

end Sys

inductive Act (T : Type) where
  | setTimeout (elapsed delayFromNow : Duration) (state : T) (timeout : Timeout)
  | cancelTimeout (timeout : Timeout) (state : Option T)
  | poll (elapsed : Duration) (fired : Option (Token × Entry T))
  | clear
  | register
  | drop
  | load
  | store (tick : Nat)
  | retry
  | threadLoad
  | threadReturn
  | threadPark (elapsed : Duration)
  | threadDue (elapsed : Duration)
  | threadPanic (elapsed : Duration)
  | threadExchange
  | threadRetry
  | threadReadable

inductive SysStep : Sys T → Act T → Sys T → Prop
  | setTimeout (s : Sys T) (t' : Timer T) (elapsed delay start : Duration) (state : T) (h : Timeout) :
      s.owner = .idle → elapsed.add delay = .ok start → CallStep s.timer (.setTimeoutAt start state h) t' →
      SysStep s (.setTimeout elapsed delay state h) { s with timer := t', owner := s.schedule h.tick }
  | cancelTimeout (s : Sys T) (t' : Timer T) (h : Timeout) (out : Option T) :
      s.owner = .idle → CallStep s.timer (.cancelTimeout h out) t' →
      SysStep s (.cancelTimeout h out) { s with timer := t' }
  | pollFired (s : Sys T) (t' : Timer T) (elapsed : Duration) (target : Nat) (f : Token × Entry T) :
      s.owner = .idle → durationToTick elapsed s.timer.tickMs = .ok target → CallStep s.timer (.pollTo target (some f)) t' →
      SysStep s (.poll elapsed (some f)) { s with timer := t' }
  /-- A poll that returns nothing goes on to clear the readiness. -/
  | pollIdle (s : Sys T) (t' : Timer T) (elapsed : Duration) (target : Nat) :
      s.owner = .idle → durationToTick elapsed s.timer.tickMs = .ok target → CallStep s.timer (.pollTo target none) t' →
      SysStep s (.poll elapsed none) { s with timer := t', owner := if s.inner.isSome then .clear else .idle }
  | clear (s : Sys T) (i : Inner) (next : Option Nat) :
      s.owner = .clear → s.inner = some i → s.timer.nextTick = .ok next →
      SysStep s .clear { s with inner := some { i with readable := false }, owner := Sys.reschedule next }
  | register (s : Sys T) (next : Option Nat) :
      s.owner = .idle → s.inner = none → s.timer.nextTick = .ok next →
      SysStep s .register { s with inner := some ⟨U64_MAX, false, .load⟩, owner := Sys.reschedule next }
  | drop (s : Sys T) (i : Inner) : s.owner = .idle → s.inner = some i →
      SysStep s .drop { s with inner := some { i with wakeupState := TERMINATE_THREAD }, owner := .dropped }
  | load (s : Sys T) (i : Inner) (tick : Nat) : s.owner = .load tick → s.inner = some i →
      SysStep s .load { s with owner := Sys.spin i.wakeupState tick }
  | store (s : Sys T) (i : Inner) (curr tick : Nat) : s.owner = .exchange curr tick → s.inner = some i →
      i.wakeupState = curr → SysStep s (.store tick) { s with inner := some { i with wakeupState := tick }, owner := .idle }
  | retry (s : Sys T) (i : Inner) (curr tick : Nat) : s.owner = .exchange curr tick → s.inner = some i →
      i.wakeupState ≠ curr → SysStep s .retry { s with owner := Sys.spin i.wakeupState tick }
  /-- The first load, and the load after a park. -/
  | threadLoad (s : Sys T) (i : Inner) : s.inner = some i → i.thread = .load →
      SysStep s .threadLoad { s with inner := some { i with thread := .top i.wakeupState } }
  | threadReturn (s : Sys T) (i : Inner) : s.inner = some i → i.thread = .top TERMINATE_THREAD →
      SysStep s .threadReturn { s with inner := some { i with thread := .returned } }
  | threadPark (s : Sys T) (i : Inner) (v now : Nat) (elapsed : Duration) : s.inner = some i → i.thread = .top v →
      v ≠ TERMINATE_THREAD → durationToTick elapsed s.timer.tickMs = .ok now → now < v →
      SysStep s (.threadPark elapsed) { s with inner := some { i with thread := .load } }
  | threadDue (s : Sys T) (i : Inner) (v now : Nat) (elapsed : Duration) : s.inner = some i → i.thread = .top v →
      v ≠ TERMINATE_THREAD → durationToTick elapsed s.timer.tickMs = .ok now → ¬ now < v →
      SysStep s (.threadDue elapsed) { s with inner := some { i with thread := .exchange v } }
  /-- `current_tick` divides by a tick of 0 ms. -/
  | threadPanic (s : Sys T) (i : Inner) (v : Nat) (fault : Fault) (elapsed : Duration) : s.inner = some i → i.thread = .top v →
      v ≠ TERMINATE_THREAD → durationToTick elapsed s.timer.tickMs = .error fault →
      SysStep s (.threadPanic elapsed) { s with inner := some { i with thread := .panicked } }
  | threadExchange (s : Sys T) (i : Inner) (v : Nat) : s.inner = some i → i.thread = .exchange v → i.wakeupState = v →
      SysStep s .threadExchange { s with inner := some { i with wakeupState := U64_MAX, thread := .setReadiness } }
  | threadRetry (s : Sys T) (i : Inner) (v : Nat) : s.inner = some i → i.thread = .exchange v → i.wakeupState ≠ v →
      SysStep s .threadRetry { s with inner := some { i with thread := .top i.wakeupState } }
  | threadReadable (s : Sys T) (i : Inner) : s.inner = some i → i.thread = .setReadiness →
      SysStep s .threadReadable { s with inner := some { i with readable := true, thread := .top U64_MAX } }

/-- A new timer, not yet registered. -/
def system (T : Type) : Lts (Sys T) (Act T) :=
  ⟨fun s => ∃ tickMs numSlots, s = ⟨Timer.new tickMs numSlots, none, .idle⟩, SysStep⟩

/-- The timer is registered with a tick of at least 1 ms and no slot's bound at 0, and no
    timeout set on it from then on rounds to tick 0 of a wheel at tick 0. -/
def NotTerminate (s : Sys T) (a : Act T) : Prop :=
  match a with
  | .setTimeout elapsed delay _ _ => s.inner.isSome → s.timer.tick = 0 → ∀ start, elapsed.add delay = .ok start →
      durationToTick start s.timer.tickMs ≠ .ok 0
  | .register => s.timer.tickMs ≠ 0 ∧ ∀ slot, (s.timer.wheel slot).nextTick ≠ 0
  | _ => True

/-! ## The bounds are not 0 -/

def NonZero (b : Board T) : Prop := ∀ s, b.bound s ≠ 0

theorem nonZero_update {f : Nat → Nat} (h : ∀ s, f s ≠ 0) (k : Nat) {v : Nat} (hv : v ≠ 0) : ∀ s, update f k v s ≠ 0 := by
  intro s
  by_cases e : s = k
  · subst e; rw [Function.update_self]; exact hv
  · rw [Function.update_of_ne e]; exact h s

theorem tickMax_ne : TICK_MAX ≠ 0 := by decide

namespace NonZero

variable {b : Board T}

theorem look (h : NonZero b) : NonZero b.look := by
  intro s
  show (if b.pre = [] then update b.bound (b.slot b.tick) TICK_MAX else b.bound) s ≠ 0
  split
  · exact nonZero_update h _ tickMax_ne s
  · exact h s

theorem advance (h : NonZero b) : NonZero b.advance := by
  intro s
  show (if b.list (b.slot (b.tick + 1)) = [] then update b.bound (b.slot (b.tick + 1)) TICK_MAX else b.bound) s ≠ 0
  split
  · exact nonZero_update h _ tickMax_ne s
  · exact h s

theorem pass (h : NonZero b) {d : Nat} (hd : d ≠ 0) : NonZero (b.pass d) := by
  intro s
  have := h.look (b.slot b.tick)
  exact nonZero_update h.look _ (by omega) s

theorem polls {target : Nat} {c : Board T} {out : Option (Token × Nat × T)} (h : NonZero b) (hp : Board.Polls target b c out) :
    NonZero c := by
  rcases hp.induct (fun x hx _ _ _ => NonZero.advance hx) (fun x y ys d hx _ _ _ hlt => NonZero.pass hx (by omega)) h with
    ⟨-, hc, -⟩ | ⟨a, k, d, xs, ha, -, -, -, -, rfl, -⟩
  · exact hc
  · exact NonZero.look ha

/-- A call keeps the bounds, if it sets no timeout for tick 0. -/
theorem move (h : NonZero b) {tickMs : Nat} {b' : Board T} {c : Call T} (hm : Move tickMs b c b')
    (hC : ∀ d state timeout, c = .setTimeoutAt d state timeout → timeout.tick ≠ 0) : NonZero b' := by
  cases hm with
  | set d state key tick hk hd _ =>
    have := h (b.slot (raise b.tick tick))
    have hne := hC _ _ _ rfl
    simp only at hne
    exact nonZero_update h _ (by omega)
  | cancel => exact h
  | stale => exact h
  | poll _ target out hps => exact h.polls hps

end NonZero

theorem set_tick_ne {t : Timer T} {b b' : Board T} {d : Duration} {state : T} {h : Timeout} (hr : Rep t b)
    (hm : Move t.tickMs b (.setTimeoutAt d state h) b') (hC : t.tick = 0 → durationToTick d t.tickMs ≠ .ok 0) : h.tick ≠ 0 := by
  cases hm with
  | set _ _ key tick hk hd _ =>
    show raise b.tick tick ≠ 0
    intro h0
    have := raise_ge b.tick tick
    have ht : t.tick = 0 := by rw [← hr.tick]; omega
    exact hC ht (by rw [hd]; congr 1; omega)

/-! ## The thread lives -/

/-- The owner is not about to store tick 0. -/
def OwnerLives (o : OwnerPc) : Prop :=
  match o with
  | .load tick => tick ≠ TERMINATE_THREAD
  | .exchange _ tick => tick ≠ TERMINATE_THREAD
  | _ => True

/-- The thread neither sees tick 0 nor has ended. -/
structure InnerLives (i : Inner) : Prop where
  wakeup : i.wakeupState ≠ TERMINATE_THREAD
  top : ∀ v, i.thread = .top v → v ≠ TERMINATE_THREAD
  running : i.thread ≠ .returned ∧ i.thread ≠ .panicked

structure Lives (s : Sys T) : Prop where
  board : ∃ b, Rep s.timer b ∧ (s.inner.isSome → s.timer.tickMs ≠ 0 ∧ NonZero b)
  owner : OwnerLives s.owner
  inner : ∀ i, s.inner = some i → s.owner ≠ .dropped → InnerLives i

theorem spin_lives {curr tick : Nat} (h : tick ≠ TERMINATE_THREAD) :
    OwnerLives (Sys.spin curr tick) ∧ Sys.spin curr tick ≠ .dropped := by
  unfold Sys.spin
  split
  · exact ⟨trivial, by simp⟩
  · exact ⟨h, by simp⟩

theorem reschedule_lives {t : Timer T} {b : Board T} {next : Option Nat} (hr : Rep t b) (hb : NonZero b)
    (hn : t.nextTick = .ok next) : OwnerLives (Sys.reschedule next) ∧ Sys.reschedule next ≠ .dropped := by
  obtain ⟨s, hs⟩ := nextTick_rep hr
  rw [hs] at hn
  cases hn
  exact ⟨hb s, by simp [Sys.reschedule]⟩

/-- A step of the thread leaves the owner, the timer and a wakeup state that is not 0. -/
theorem Lives.thread {s : Sys T} {i j : Inner} (h : Lives s) (hi : s.inner = some i) (hj : InnerLives i → InnerLives j) :
    Lives { s with inner := some j } := by
  obtain ⟨b, hr, hb⟩ := h.board
  refine ⟨⟨b, hr, fun _ => hb (by rw [hi]; rfl)⟩, h.owner, fun j' hj' hd => ?_⟩
  cases hj'
  exact hj (h.inner i hi hd)

/-- A call of the owner on the timer, which goes on at `o`. -/
theorem Lives.call {s : Sys T} {t' : Timer T} {c : Call T} {o : OwnerPc} (h : Lives s) (hidle : s.owner = .idle)
    (hs : CallStep s.timer c t') (hC : s.inner.isSome → ∀ d state timeout, c = .setTimeoutAt d state timeout → timeout.tick ≠ 0)
    (ho : OwnerLives o) : Lives { s with timer := t', owner := o } := by
  obtain ⟨b, hr, hb⟩ := h.board
  obtain ⟨b', hr', hm, hms⟩ := move_of_call hr hs
  refine ⟨⟨b', hr', fun hi => ?_⟩, ho, fun i hi _ => h.inner i hi (by rw [hidle]; simp)⟩
  obtain ⟨htick, hnz⟩ := hb hi
  exact ⟨hms.symm ▸ htick, hnz.move hm (hC hi)⟩

theorem durationToTick_error {d : Duration} {tickMs : Nat} {f : Fault} (h : durationToTick d tickMs = .error f) : tickMs = 0 := by
  unfold durationToTick at h
  split at h
  · assumption
  · cases h

theorem lives_step {s s' : Sys T} {a : Act T} (h : Lives s) (hs : SysStep s a s') (hC : NotTerminate s a) : Lives s' := by
  obtain ⟨b, hr, hb⟩ := h.board
  cases hs with
  | setTimeout t' elapsed delay start state handle hidle hadd hcall =>
    obtain ⟨b', -, hm, -⟩ := move_of_call hr hcall
    have hne : s.inner.isSome → handle.tick ≠ 0 := fun hi => set_tick_ne hr hm fun h0 => hC hi h0 start hadd
    refine h.call hidle hcall (fun hi d st timeout e => ?_) ?_
    · cases e; exact hne hi
    · unfold Sys.schedule
      split
      · rename_i hi; exact hne hi
      · trivial
  | cancelTimeout t' handle out hidle hcall =>
    exact h.call hidle hcall (fun _ _ _ _ e => by cases e) h.owner
  | pollFired t' elapsed target f hidle _ hcall =>
    exact h.call hidle hcall (fun _ _ _ _ e => by cases e) h.owner
  | pollIdle t' elapsed target hidle _ hcall =>
    refine h.call hidle hcall (fun _ _ _ _ e => by cases e) ?_
    split <;> trivial
  | clear i next ho hi hnext =>
    have hnz := hb (by rw [hi]; rfl)
    refine ⟨⟨b, hr, fun _ => hnz⟩, (reschedule_lives hr hnz.2 hnext).1, fun j hj _ => ?_⟩
    cases hj
    obtain ⟨h1, h2, h3⟩ := h.inner i hi (by rw [ho]; simp)
    exact ⟨h1, h2, h3⟩
  | register next hidle hi hnext =>
    have hnz : NonZero b := fun x => by rw [← hr.bound]; exact hC.2 x
    refine ⟨⟨b, hr, fun _ => ⟨hC.1, hnz⟩⟩, (reschedule_lives hr hnz hnext).1, fun j hj _ => ?_⟩
    cases hj
    exact ⟨by decide, by simp, by simp⟩
  | drop i hidle hi =>
    exact ⟨⟨b, hr, fun _ => hb (by rw [hi]; rfl)⟩, trivial, fun j _ hd => absurd rfl hd⟩
  | load i tick ho hi =>
    have ht : tick ≠ TERMINATE_THREAD := by have := h.owner; rw [ho] at this; exact this
    exact ⟨⟨b, hr, hb⟩, (spin_lives ht).1, fun j hj _ => h.inner j hj (by rw [ho]; simp)⟩
  | store i curr tick ho hi hcurr =>
    have ht : tick ≠ TERMINATE_THREAD := by have := h.owner; rw [ho] at this; exact this
    refine ⟨⟨b, hr, fun _ => hb (by rw [hi]; rfl)⟩, trivial, fun j hj _ => ?_⟩
    cases hj
    obtain ⟨-, h2, h3⟩ := h.inner i hi (by rw [ho]; simp)
    exact ⟨ht, h2, h3⟩
  | retry i curr tick ho hi hne =>
    have ht : tick ≠ TERMINATE_THREAD := by have := h.owner; rw [ho] at this; exact this
    exact ⟨⟨b, hr, hb⟩, (spin_lives ht).1, fun j hj _ => h.inner j hj (by rw [ho]; simp)⟩
  | threadLoad i hi hpc =>
    exact h.thread hi fun hl => ⟨hl.wakeup, fun v hv => by cases hv; exact hl.wakeup, by simp⟩
  | threadReturn i hi hpc =>
    exact h.thread hi fun hl => absurd rfl (hl.top _ hpc)
  | threadPark i v now elapsed hi hpc hv _ _ =>
    exact h.thread hi fun hl => ⟨hl.wakeup, by simp, by simp⟩
  | threadDue i v now elapsed hi hpc hv _ _ =>
    exact h.thread hi fun hl => ⟨hl.wakeup, by simp, by simp⟩
  | threadPanic i v fault elapsed hi hpc hv hd =>
    exact absurd (durationToTick_error hd) (hb (by rw [hi]; rfl)).1
  | threadExchange i v hi hpc hw =>
    exact h.thread hi fun hl => ⟨tickMax_ne, by simp, by simp⟩
  | threadRetry i v hi hpc hw =>
    exact h.thread hi fun hl => ⟨hl.wakeup, fun v hv => by cases hv; exact hl.wakeup, by simp⟩
  | threadReadable i hi hpc =>
    exact h.thread hi fun hl => ⟨hl.wakeup, fun v hv => by cases hv; exact tickMax_ne, by simp⟩

theorem lives {τ : List (Act T)} {s : Sys T} (h : Run ((system T).restrict NotTerminate) τ s) : Lives s := by
  refine Run.inv (P := Lives) ?_ ?_ h
  · intro s hx
    obtain ⟨tickMs, numSlots, rfl⟩ := hx
    exact ⟨⟨_, new_rep tickMs numSlots, fun h => by cases h⟩, trivial, fun i hi => by cases hi⟩
  · rintro s a s' hl ⟨hs, hC⟩
    exact lives_step hl hs hC

/-- `schedule_readiness` never stores `TERMINATE_THREAD`, and while the registered timer
    is not dropped its wakeup thread has neither returned nor panicked. -/
theorem wakeup_thread_lives {τ : List (Act T)} {s : Sys T} (h : Run ((system T).restrict NotTerminate) τ s) :
    (∀ tick, .store tick ∈ τ → tick ≠ TERMINATE_THREAD) ∧
      ∀ i, s.inner = some i → s.owner ≠ .dropped →
        i.wakeupState ≠ TERMINATE_THREAD ∧ i.thread ≠ .returned ∧ i.thread ≠ .panicked := by
  constructor
  · refine Run.inv_trace (P := fun τ _ => ∀ tick, .store tick ∈ τ → tick ≠ TERMINATE_THREAD) (fun _ _ _ h => nomatch h) ?_ h
    intro τ s a s' hrun ih hs tick hmem
    rcases List.mem_append.mp hmem with hm | hm
    · exact ih tick hm
    · obtain rfl := List.mem_singleton.mp hm
      cases hs.1 with
      | store i curr _ ho _ _ =>
        have := (lives hrun).owner
        rw [ho] at this; exact this
  · intro i hi hd
    have hl := (lives h).inner i hi hd
    exact ⟨hl.wakeup, hl.running⟩

/-- A timer of 1 ms ticks, registered, then a timeout after 1 ms: the owner stores tick 1,
    the thread reads it and is due. -/
theorem wakeup_thread_lives_one_timeout : ∃ (τ : List (Act Unit)) (s : Sys Unit), Run ((system Unit).restrict NotTerminate) τ s ∧
    s.inner = some ⟨1, false, .exchange 1⟩ ∧ ∀ tick, .store tick ∈ τ → tick ≠ TERMINATE_THREAD := by
  have h0 : Run ((system Unit).restrict NotTerminate) []
      ⟨⟨1, fun _ => none, fun _ => ⟨TICK_MAX, EMPTY⟩, 0, EMPTY, 7⟩, none, .idle⟩ :=
    .init ⟨1, 8, by rw [new_eight]⟩
  have h1 := h0.step ⟨.register _ (some TICK_MAX) rfl rfl rfl, by decide, fun _ => tickMax_ne⟩
  have h2 := h1.step ⟨.load _ _ TICK_MAX rfl rfl, trivial⟩
  have h3 := h2.step ⟨.setTimeout _ _ (.fromMillis 0 (Nat.zero_le _)) (.fromMillis 1 (by decide)) _ () ⟨⟨0⟩, 1⟩ rfl rfl
    (.setTimeoutAt _ _ _ () ⟨0⟩ _ rfl (by decide)
      ((setTimeoutAt_eq () ⟨0⟩ (show durationToTick _ _ = .ok 1 from rfl) rfl).trans rfl)), by
        intro _ _ start hs
        cases hs
        decide⟩
  have h4 := h3.step ⟨.load _ _ 1 rfl rfl, trivial⟩
  have h5 := h4.step ⟨.store _ _ TICK_MAX 1 rfl rfl rfl, trivial⟩
  have h6 := h5.step ⟨.threadLoad _ _ rfl rfl, trivial⟩
  have h7 := h6.step ⟨.threadDue _ _ 1 1 (.fromMillis 1 (by decide)) rfl rfl (by decide) rfl (by decide), trivial⟩
  exact ⟨_, _, h7, rfl, (wakeup_thread_lives h7).1⟩

/-- A registered timer of 1 ms ticks and a timeout after 0 ms: the owner stores tick 0,
    and the thread loads it and returns. -/
theorem a_zero_delay_terminates_the_thread : ¬ ∀ (τ : List (Act Unit)) (s : Sys Unit), Run (system Unit) τ s →
    (∀ tick, .store tick ∈ τ → tick ≠ TERMINATE_THREAD) ∧
      ∀ i, s.inner = some i → s.owner ≠ .dropped → i.thread ≠ .returned := by
  intro h
  have h0 : Run (system Unit) [] ⟨⟨1, fun _ => none, fun _ => ⟨TICK_MAX, EMPTY⟩, 0, EMPTY, 7⟩, none, .idle⟩ :=
    .init ⟨1, 8, by rw [new_eight]⟩
  have h1 := h0.step (.register _ (some TICK_MAX) rfl rfl rfl)
  have h2 := h1.step (.load _ _ TICK_MAX rfl rfl)
  have h3 := h2.step (.setTimeout _ _ (.fromMillis 0 (Nat.zero_le _)) (.fromMillis 0 (Nat.zero_le _)) _ () ⟨⟨0⟩, 0⟩ rfl rfl
    (.setTimeoutAt _ _ _ () ⟨0⟩ _ rfl (by decide)
      ((setTimeoutAt_eq () ⟨0⟩ (show durationToTick _ _ = .ok 0 from rfl) rfl).trans rfl)))
  have h4 := h3.step (.load _ _ 0 rfl rfl)
  have h5 := h4.step (.store _ _ TICK_MAX 0 rfl rfl rfl)
  have h6 := h5.step (.threadLoad _ _ rfl rfl)
  have h7 := h6.step (.threadReturn _ _ rfl rfl)
  exact (h _ _ h7).2 _ rfl (by simp) rfl

end Sickle.Timers
