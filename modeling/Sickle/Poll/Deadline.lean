/-
  Sickle.Poll.Deadline — the timeout of a call of `Poll::poll`, by the clock.

  One thread in `poll1` and `poll2`, with the clock moving on at any moment. The wait on
  the condition variable may end at any time, whatever its timeout, and so may
  `epoll_wait`, by events, by a signal or by an error; it times out no sooner than it was
  told to. After either wait the time that it took is taken off the timeout. Who has the
  lock is `Sickle.Poll.Lock`, and what is in the queue is `Sickle.Poll.Sleep`: here both
  are free.

  `epoll_wait` is told whole milliseconds, rounded up, in an i32; the rest of a longer
  timeout is not waited for. What passes outside of the two waits is taken off nothing.
  - `selectMs_eq`: how many milliseconds.
  - `Kept`: what is left of the timeout, at each place of the two functions.
  - `poll_keeps_its_deadline`: a call that finds nothing has waited for its timeout, does
    not spin while some of it is left, and is not told to wait much longer.
-/

import Sickle.Lib.Run
import Sickle.Timers.Wheel

namespace Sickle.Poll

open Sickle.Lib
open Sickle.Timers (NANOS_PER_SEC NANOS_PER_MILLI MILLIS_PER_SEC U64_MAX saturatingAdd saturatingMul)

def I32_MAX : Nat := 2 ^ 31 - 1

/-- `sys::unix::epoll::millis`, of nanoseconds. -/
def millis (ns : Nat) : Nat :=
  let millis := (ns % NANOS_PER_SEC + NANOS_PER_MILLI - 1) / NANOS_PER_MILLI
  saturatingAdd (saturatingMul (ns / NANOS_PER_SEC) MILLIS_PER_SEC) millis

/-- `timeout_ms` of `select`. -/
def selectMs (ns : Nat) : Nat := min (millis ns) I32_MAX

/-- What `epoll_wait` can be told, in nanoseconds. -/
def SELECT_MAX : Nat := I32_MAX * NANOS_PER_MILLI

/-! ## The call -/

inductive PollEnd where
  /-- `Ok(0)`, without the lock. -/
  | locked
  /-- `select` returned, with what it found or with nothing; the queue is next. -/
  | selected (quiet : Bool)
  | failed
  deriving DecidableEq, Repr

/-- Where the thread is, with its `timeout`, in nanoseconds, and its `now`. -/
inductive DeadlinePc where
  /-- In the loop of `poll1`, without the lock. -/
  | entry (timeout : Option Nat)
  | waiting (timeout : Option Nat) (now : Nat)
  /-- At the start of `poll2`. -/
  | prepare (timeout : Option Nat)
  | select (timeout : Option Nat)
  | selecting (timeout : Option Nat) (now : Nat)
  | ended (out : PollEnd)
  deriving DecidableEq, Repr

def DeadlinePc.measured (p : DeadlinePc) : Bool :=
  match p with
  | .waiting _ _ | .selecting _ _ => true
  | _ => false

/-- The records of a call: when `poll` was called, with what, the time that passed outside
    of the two waits, and whether `prepare_for_sleep` found the queue not empty. -/
structure PollCall where
  called : Nat
  timeout : Option Nat
  lost : Nat
  found : Bool

structure Polling where
  pc : DeadlinePc
  clock : Nat
  call : PollCall

/-- Time passes. -/
def Polling.tick (s : Polling) (d : Nat) : Polling :=
  { s with clock := s.clock + d, call := { s.call with lost := if s.pc.measured then s.call.lost else s.call.lost + d } }

inductive DeadlineEv where
  | tick (d : Nat)
  | lock
  | locked
  | wait
  | woke
  | prepared (slept : Bool)
  | select
  | events
  | timedOut
  | interrupted
  | failed
  deriving DecidableEq, Repr

/-- What is left of a timeout after a wait on the condition variable. -/
def remaining (dur elapsed : Nat) : Nat := if elapsed ≥ dur then 0 else dur - elapsed

/-- After an interrupt. -/
def resume (timeout : Option Nat) (elapsed : Nat) : DeadlinePc :=
  match timeout with
  | some dur => if elapsed ≥ dur then .ended (.selected true) else .select (some (dur - elapsed))
  | none => .select none

inductive DeadlineStep (interruptible : Bool) : Polling → DeadlineEv → Polling → Prop
  | tick (s : Polling) (d : Nat) : DeadlineStep interruptible s (.tick d) (s.tick d)
  | lock (s : Polling) (timeout : Option Nat) : s.pc = .entry timeout →
      DeadlineStep interruptible s .lock { s with pc := .prepare timeout }
  | locked (s : Polling) : s.pc = .entry (some 0) → DeadlineStep interruptible s .locked { s with pc := .ended .locked }
  | wait (s : Polling) (timeout : Option Nat) : s.pc = .entry timeout → timeout ≠ some 0 →
      DeadlineStep interruptible s .wait { s with pc := .waiting timeout s.clock }
  | woke (s : Polling) (timeout : Option Nat) (now : Nat) : s.pc = .waiting timeout now →
      DeadlineStep interruptible s .woke { s with pc := .entry (timeout.map fun dur => remaining dur (s.clock - now)) }
  | zero (s : Polling) : s.pc = .prepare (some 0) →
      DeadlineStep interruptible s (.prepared false) { s with pc := .select (some 0) }
  | prepared (s : Polling) (timeout : Option Nat) (slept : Bool) : s.pc = .prepare timeout → timeout ≠ some 0 →
      DeadlineStep interruptible s (.prepared slept)
        { s with pc := .select (if slept then timeout else some 0), call := { s.call with found := !slept } }
  | select (s : Polling) (timeout : Option Nat) : s.pc = .select timeout →
      DeadlineStep interruptible s .select { s with pc := .selecting timeout s.clock }
  | events (s : Polling) (timeout : Option Nat) (now : Nat) : s.pc = .selecting timeout now →
      DeadlineStep interruptible s .events { s with pc := .ended (.selected false) }
  | timedOut (s : Polling) (dur now : Nat) : s.pc = .selecting (some dur) now → now + selectMs dur * NANOS_PER_MILLI ≤ s.clock →
      DeadlineStep interruptible s .timedOut { s with pc := .ended (.selected true) }
  | interrupted (s : Polling) (timeout : Option Nat) (now : Nat) : s.pc = .selecting timeout now → interruptible = false →
      DeadlineStep interruptible s .interrupted { s with pc := resume timeout (s.clock - now) }
  | failed (s : Polling) (timeout : Option Nat) (now : Nat) : s.pc = .selecting timeout now →
      DeadlineStep interruptible s .failed { s with pc := .ended .failed }

/-- A call of `poll`, or of `poll_interruptible`, at any time and with any timeout. -/
def deadline (interruptible : Bool) : Lts Polling DeadlineEv :=
  ⟨fun s => ∃ clock timeout, s = ⟨.entry timeout, clock, ⟨clock, timeout, 0, false⟩⟩, DeadlineStep interruptible⟩

/-! ## Milliseconds -/

theorem selectMs_eq (ns : Nat) : selectMs ns = min ((ns + 999999) / 1000000) I32_MAX := by
  unfold selectMs millis saturatingAdd saturatingMul
  simp only [NANOS_PER_SEC, NANOS_PER_MILLI, MILLIS_PER_SEC, U64_MAX, I32_MAX]
  omega

theorem selectMs_pos {ns : Nat} (h : 0 < ns) : 0 < selectMs ns := by
  rw [selectMs_eq]
  unfold I32_MAX
  omega

theorem selectMs_lt (ns : Nat) : selectMs ns * NANOS_PER_MILLI < ns + NANOS_PER_MILLI := by
  rw [selectMs_eq]
  unfold NANOS_PER_MILLI
  omega

theorem selectMs_ge (ns : Nat) : min ns SELECT_MAX ≤ selectMs ns * NANOS_PER_MILLI := by
  rw [selectMs_eq]
  unfold SELECT_MAX I32_MAX NANOS_PER_MILLI
  omega

/-! ## What is left -/

/-- At time `t`, `timeout` is what is left: none of it only once the time of the call is
    over, or where the queue was not empty. -/
def Left (c : PollCall) (t : Nat) (timeout : Option Nat) : Prop :=
  c.called ≤ t ∧
    match timeout with
    | none => c.timeout = none
    | some n => (n = 0 ∧ c.found = true) ∨
        ∃ dur, c.timeout = some dur ∧ c.called + dur + c.lost ≤ t + n ∧ (0 < n → t + n ≤ c.called + dur + c.lost)

/-- The call has waited this much of its timeout, or found the queue not empty. -/
def Waited (c : PollCall) (t : Nat) : Prop :=
  c.found = true ∨ ∃ dur, c.timeout = some dur ∧ c.called + min dur SELECT_MAX ≤ t

/-- What is left, wherever the thread is. -/
def Kept (c : PollCall) (clock : Nat) (p : DeadlinePc) : Prop :=
  match p with
  | .entry timeout => c.found = false ∧ Left c clock timeout
  | .waiting timeout now => c.found = false ∧ now ≤ clock ∧ timeout ≠ some 0 ∧ Left c now timeout
  | .prepare timeout => c.found = false ∧ Left c clock timeout
  | .select timeout => Left c clock timeout
  | .selecting timeout now => now ≤ clock ∧ Left c now timeout
  | .ended .locked => ∃ dur, c.timeout = some dur ∧ c.called + dur ≤ clock
  | .ended (.selected true) => Waited c clock
  | .ended _ => True

theorem Left.pass {c : PollCall} {t : Nat} {timeout : Option Nat} (h : Left c t timeout) (d : Nat) :
    Left { c with lost := c.lost + d } (t + d) timeout := by
  cases timeout with
  | none => exact ⟨Nat.le_add_right_of_le h.1, h.2⟩
  | some n =>
    obtain ⟨hc, h | ⟨dur, ht, hle, hge⟩⟩ := h
    · exact ⟨Nat.le_add_right_of_le hc, .inl h⟩
    · refine ⟨Nat.le_add_right_of_le hc, .inr ⟨dur, ht, ?_, fun hn => ?_⟩⟩
      · show c.called + dur + (c.lost + d) ≤ t + d + n
        omega
      · have := hge hn
        show t + d + n ≤ c.called + dur + (c.lost + d)
        omega

/-- A wait from `now` on is taken off. -/
theorem Left.remaining {c : PollCall} {now clock n : Nat} (h : Left c now (some n)) (hn : n ≠ 0) (hle : now ≤ clock) :
    Left c clock (some (remaining n (clock - now))) := by
  obtain ⟨hc, ⟨h0, -⟩ | ⟨dur, ht, hlo, hhi⟩⟩ := h
  · exact absurd h0 hn
  · have := hhi (Nat.pos_of_ne_zero hn)
    refine ⟨Nat.le_trans hc hle, .inr ⟨dur, ht, ?_, ?_⟩⟩
    · unfold Poll.remaining
      split <;> omega
    · unfold Poll.remaining
      split <;> omega

/-- What `epoll_wait` was told has passed. -/
theorem Left.waited {c : PollCall} {now clock n : Nat} (h : Left c now (some n))
    (hle : now + selectMs n * NANOS_PER_MILLI ≤ clock) : Waited c clock := by
  have hge := selectMs_ge n
  obtain ⟨hc, ⟨-, hf⟩ | ⟨dur, ht, hlo, -⟩⟩ := h
  · exact .inl hf
  · exact .inr ⟨dur, ht, by omega⟩

/-- After an interrupt the rest is waited for, if there is one. -/
theorem Left.resume {c : PollCall} {now clock : Nat} {timeout : Option Nat} (h : Left c now timeout) (hle : now ≤ clock) :
    Kept c clock (resume timeout (clock - now)) := by
  cases timeout with
  | none => exact ⟨Nat.le_trans h.1 hle, h.2⟩
  | some n =>
    unfold Poll.resume
    simp only
    split
    next hge =>
      obtain ⟨hc, ⟨-, hf⟩ | ⟨dur, ht, hlo, -⟩⟩ := h
      · exact .inl hf
      · exact .inr ⟨dur, ht, by omega⟩
    next hlt =>
      have hr := h.remaining (by omega) hle
      unfold Poll.remaining at hr
      rw [if_neg hlt] at hr
      exact hr

theorem Kept.tick {s : Polling} (h : Kept s.call s.clock s.pc) (d : Nat) : Kept (s.tick d).call (s.tick d).clock (s.tick d).pc := by
  unfold Polling.tick
  cases hpc : s.pc with
  | entry timeout =>
    rw [hpc] at h
    exact ⟨h.1, h.2.pass d⟩
  | waiting timeout now =>
    rw [hpc] at h
    exact ⟨h.1, Nat.le_add_right_of_le h.2.1, h.2.2⟩
  | prepare timeout =>
    rw [hpc] at h
    exact ⟨h.1, h.2.pass d⟩
  | select timeout =>
    rw [hpc] at h
    exact h.pass d
  | selecting timeout now =>
    rw [hpc] at h
    exact ⟨Nat.le_add_right_of_le h.1, h.2⟩
  | ended out =>
    rw [hpc] at h
    match out, h with
    | .locked, ⟨dur, ht, hle⟩ => exact ⟨dur, ht, Nat.le_add_right_of_le hle⟩
    | .selected true, .inl hf => exact .inl hf
    | .selected true, .inr ⟨dur, ht, hle⟩ => exact .inr ⟨dur, ht, Nat.le_add_right_of_le hle⟩
    | .selected false, _ => trivial
    | .failed, _ => trivial

theorem deadline_step {interruptible : Bool} {s s' : Polling} {e : DeadlineEv} (h : Kept s.call s.clock s.pc)
    (hs : DeadlineStep interruptible s e s') : Kept s'.call s'.clock s'.pc := by
  cases hs with
  | tick d => exact h.tick d
  | lock timeout hpc =>
    rw [hpc] at h
    exact h
  | locked hpc =>
    rw [hpc] at h
    obtain ⟨hf, -, ⟨-, hl⟩ | ⟨dur, ht, hle, -⟩⟩ := h
    · rw [hf] at hl
      cases hl
    · refine ⟨dur, ht, ?_⟩
      show s.call.called + dur ≤ s.clock
      omega
  | wait timeout hpc hne =>
    rw [hpc] at h
    exact ⟨h.1, Nat.le_refl _, hne, h.2⟩
  | woke timeout now hpc =>
    rw [hpc] at h
    obtain ⟨hf, hle, hne, hl⟩ := h
    refine ⟨hf, ?_⟩
    cases timeout with
    | none => exact ⟨Nat.le_trans hl.1 hle, hl.2⟩
    | some n => exact hl.remaining (fun h0 => hne (by rw [h0])) hle
  | zero hpc =>
    rw [hpc] at h
    exact h.2
  | prepared timeout slept hpc hne =>
    rw [hpc] at h
    cases slept with
    | true =>
      obtain ⟨hf, hl⟩ := h
      have hc : ({ s.call with found := false } : PollCall) = s.call := by rw [← hf]
      show Left { s.call with found := false } s.clock timeout
      rw [hc]
      exact hl
    | false => exact ⟨h.2.1, .inl ⟨rfl, rfl⟩⟩
  | select timeout hpc =>
    rw [hpc] at h
    exact ⟨Nat.le_refl _, h⟩
  | events timeout now hpc => trivial
  | timedOut dur now hpc hle =>
    rw [hpc] at h
    exact h.2.waited hle
  | interrupted timeout now hpc hi =>
    rw [hpc] at h
    exact h.2.resume h.1
  | failed timeout now hpc => trivial

theorem deadline_run {interruptible : Bool} {τ : List DeadlineEv} {s : Polling} (h : Run (deadline interruptible) τ s) :
    Kept s.call s.clock s.pc := by
  refine Run.inv (P := fun s : Polling => Kept s.call s.clock s.pc) ?_ (fun _ _ _ hk hs => deadline_step hk hs) h
  rintro s ⟨clock, timeout, rfl⟩
  refine ⟨rfl, Nat.le_refl _, ?_⟩
  cases timeout with
  | none => rfl
  | some n => exact .inr ⟨n, rfl, Nat.le_refl _, fun _ => Nat.le_refl _⟩

/-- A call that gives up without the lock has waited for its timeout. One whose `select`
    came back with nothing has too, as far as `epoll_wait` can be told, unless the queue
    was not empty. While it is in `epoll_wait` with none of its timeout left, the time is
    over or the queue was not empty; with some of it left it was told to wait, and for
    less than a millisecond past its deadline and the time that was not measured. -/
theorem poll_keeps_its_deadline {interruptible : Bool} {τ : List DeadlineEv} {s : Polling} (h : Run (deadline interruptible) τ s) :
    (s.pc = .ended .locked → ∃ dur, s.call.timeout = some dur ∧ s.call.called + dur ≤ s.clock) ∧
      (s.pc = .ended (.selected true) → Waited s.call s.clock) ∧
      ∀ n now, s.pc = .selecting (some n) now →
        (selectMs n = 0 → s.call.found = true ∨ ∃ dur, s.call.timeout = some dur ∧ s.call.called + dur ≤ now) ∧
        (0 < n → 0 < selectMs n ∧ ∃ dur, s.call.timeout = some dur ∧
          now + selectMs n * NANOS_PER_MILLI < s.call.called + dur + s.call.lost + NANOS_PER_MILLI) := by
  have hk := deadline_run h
  refine ⟨fun hpc => ?_, fun hpc => ?_, fun n now hpc => ?_⟩
  · rw [hpc] at hk
    exact hk
  · rw [hpc] at hk
    exact hk
  · rw [hpc] at hk
    obtain ⟨-, -, hl⟩ := hk
    constructor
    · intro hms
      have hn : n = 0 := by
        by_contra hn
        exact absurd hms (Nat.ne_of_gt (selectMs_pos (Nat.pos_of_ne_zero hn)))
      rcases hl with ⟨-, hf⟩ | ⟨dur, ht, hle, -⟩
      · exact .inl hf
      · exact .inr ⟨dur, ht, by omega⟩
    · intro hn
      refine ⟨selectMs_pos hn, ?_⟩
      rcases hl with ⟨h0, -⟩ | ⟨dur, ht, -, hge⟩
      · omega
      · have hlt := selectMs_lt n
        have hge := hge hn
        exact ⟨dur, ht, by omega⟩

/-- A poll of 2.5 ms: it waits 1 ms for the lock, a signal interrupts it after another, and
    `epoll_wait` is told to wait for one more. -/
theorem poll_keeps_its_deadline_interrupted : ∃ (τ : List DeadlineEv) (s : Polling),
    Run (deadline false) τ s ∧ s.pc = .selecting (some 500000) 2000000 ∧
      (0 < 500000 → 0 < selectMs 500000 ∧ ∃ dur, s.call.timeout = some dur ∧
        2000000 + selectMs 500000 * NANOS_PER_MILLI < s.call.called + dur + s.call.lost + NANOS_PER_MILLI) := by
  have h0 : Run (deadline false) [] ⟨.entry (some 2500000), 0, ⟨0, some 2500000, 0, false⟩⟩ := .init ⟨0, some 2500000, rfl⟩
  have h1 := h0.step (.wait _ _ rfl (by decide))
  have h2 := h1.step (.tick _ 1000000)
  have h3 := h2.step (.woke _ _ _ rfl)
  have h4 := h3.step (.lock _ _ rfl)
  have h5 := h4.step (.prepared _ _ true rfl (by decide))
  have h6 := h5.step (.select _ _ rfl)
  have h7 := h6.step (.tick _ 1000000)
  have h8 := h7.step (.interrupted _ _ _ rfl rfl)
  have h9 := h8.step (.select _ _ rfl)
  exact ⟨_, _, h9, rfl, ((poll_keeps_its_deadline h9).2.2 500000 2000000 rfl).2⟩

end Sickle.Poll
