/-
  Sickle.Timers.Arith — the arithmetic of a timer, from its builder to its polls.

  `build` rounds the slots and the capacity up to powers of two and allocates for them, the
  wheel first; `set_timeout` adds the delay to the time since the start, rounds the sum to
  a tick, and moves a tick that is past to the next one; `poll` rounds the time since the
  start, and its loop counts ticks. `set_timeout` has an error type, `TimerError`, that it
  never answers with. Running out of memory is no fault here.

  - `arithmetic_total_iff`: of every reachable timer, exactly which builders, timeouts and
    polls come out without a fault.
  - `a_delay_without_end_panics`: a timeout of `Duration::MAX`, a moment after the start.
-/

import Sickle.Timers.Wakeup

namespace Sickle.Timers

open Function (update)
open Sickle.Lib

variable {T : Type}

/-! ## The builder -/

structure Builder where
  tick : Duration
  numSlots : Nat
  capacity : Nat
  numSlots_le : numSlots ≤ U64_MAX
  capacity_le : capacity ≤ U64_MAX

/-- `usize::next_power_of_two`, which overflows past the last power. -/
def nextPowerOfTwo (n : Nat) : Except Fault Nat := if 2 ^ 63 < n then .error .overflow else .ok n.nextPowerOfTwo

def ISIZE_MAX : Nat := 2 ^ 63 - 1

/-- `Vec::with_capacity` of elements of `size` bytes: "capacity overflow" where they are more
    than `isize::MAX`. -/
def withCapacity (size n : Nat) : Except Fault Unit := if ISIZE_MAX < size * n then .error .overflow else .ok ()

/-- Of a `WheelEntry`. -/
def WHEEL_ENTRY_SIZE : Nat := 16

/-- `Builder::build`. An entry of the slab has `entrySize` bytes, for the state `T` is of any
    size; the capacity is only the slab's first allocation. -/
def Builder.build (bd : Builder) (entrySize : Nat) : Except Fault (Timer T) := do
  let numSlots ← nextPowerOfTwo bd.numSlots
  let capacity ← nextPowerOfTwo bd.capacity
  withCapacity WHEEL_ENTRY_SIZE numSlots
  withCapacity entrySize capacity
  .ok (Timer.new (millis bd.tick) bd.numSlots)

theorem nextPowerOfTwo_ok {n p : Nat} : nextPowerOfTwo n = .ok p ↔ n ≤ 2 ^ 63 ∧ p = n.nextPowerOfTwo := by
  unfold nextPowerOfTwo
  split
  · exact ⟨(fun h => nomatch h), fun h => by omega⟩
  · exact ⟨fun h => ⟨by omega, (Except.ok.inj h).symm⟩, fun h => by rw [h.2]⟩

theorem withCapacity_ok {size n : Nat} {u : Unit} : withCapacity size n = .ok u ↔ size * n ≤ ISIZE_MAX := by
  unfold withCapacity
  split
  · exact ⟨(fun h => nomatch h), fun h => by omega⟩
  · exact ⟨fun _ => by omega, fun _ => rfl⟩

/-- The builder's two allocations are within `isize::MAX` bytes. -/
def Builder.Fits (bd : Builder) (entrySize : Nat) : Prop :=
  WHEEL_ENTRY_SIZE * bd.numSlots.nextPowerOfTwo ≤ ISIZE_MAX ∧ entrySize * bd.capacity.nextPowerOfTwo ≤ ISIZE_MAX

theorem Builder.build_ok {bd : Builder} {entrySize : Nat} {t : Timer T} :
    bd.build entrySize = .ok t ↔ bd.numSlots ≤ 2 ^ 63 ∧ bd.capacity ≤ 2 ^ 63 ∧ bd.Fits entrySize ∧
      t = Timer.new (millis bd.tick) bd.numSlots := by
  unfold build Fits
  simp only [bind_ok, nextPowerOfTwo_ok, withCapacity_ok]
  constructor
  · rintro ⟨_, ⟨hn, rfl⟩, _, ⟨hc, rfl⟩, -, hwheel, -, hslab, ht⟩
    exact ⟨hn, hc, ⟨hwheel, hslab⟩, (Except.ok.inj ht).symm⟩
  · rintro ⟨hn, hc, ⟨hwheel, hslab⟩, rfl⟩
    exact ⟨_, ⟨hn, rfl⟩, _, ⟨hc, rfl⟩, (), hwheel, (), hslab, rfl⟩

/-! ## The calls -/

structure TimerError where
  deriving DecidableEq, Repr

namespace Timer

def setTimeout (t : Timer T) (elapsed delayFromNow : Duration) (state : T) (key : Token) :
    Except Fault (Timer T × Except TimerError Timeout) := do
  let delayFromStart ← elapsed.add delayFromNow
  let (t, timeout) ← t.setTimeoutAt delayFromStart state key
  .ok (t, .ok timeout)

def poll (fuel : Nat) (t : Timer T) (elapsed : Duration) : Except Fault (Timer T × Option (Token × Entry T)) := do
  let target ← durationToTick elapsed t.tickMs
  t.pollTo fuel target

end Timer

inductive TimerCall (T : Type) where
  | setTimeout (elapsed delayFromNow : Duration) (state : T) (timeout : Timeout)
  | cancelTimeout (timeout : Timeout) (state : Option T)
  | poll (elapsed : Duration) (fired : Option (Token × Entry T))

inductive TimerStep : Timer T → TimerCall T → Timer T → Prop
  | setTimeout (t t' : Timer T) (elapsed delay : Duration) (state : T) (key : Token) (h : Timeout) :
      t.entries key = none → key ≠ EMPTY → t.setTimeout elapsed delay state key = .ok (t', .ok h) →
      TimerStep t (.setTimeout elapsed delay state h) t'
  | cancelTimeout (t t' : Timer T) (h : Timeout) (out : Option T) : t.cancelTimeout h = .ok (t', out) →
      TimerStep t (.cancelTimeout h out) t'
  | poll (t t' : Timer T) (fuel : Nat) (elapsed : Duration) (out : Option (Token × Entry T)) :
      t.poll fuel elapsed = .ok (t', out) → TimerStep t (.poll elapsed out) t'

/-- A timer of any builder, and its calls at any clock readings. -/
def timers (T : Type) : Lts (Timer T) (TimerCall T) :=
  ⟨fun t => ∃ (bd : Builder) (entrySize : Nat), bd.build entrySize = .ok t, TimerStep⟩

theorem setTimeout_ok {t t' : Timer T} {elapsed delay : Duration} {state : T} {key : Token} {r : Except TimerError Timeout} :
    t.setTimeout elapsed delay state key = .ok (t', r) ↔ ∃ start h, elapsed.add delay = .ok start ∧
      t.setTimeoutAt start state key = .ok (t', h) ∧ r = .ok h := by
  unfold Timer.setTimeout
  rw [bind_ok]
  constructor
  · rintro ⟨start, hs, h⟩
    obtain ⟨⟨u, timeout⟩, hu, hr⟩ := bind_ok.mp h
    cases hr
    exact ⟨start, timeout, hs, hu, rfl⟩
  · rintro ⟨start, h, hs, hu, rfl⟩
    exact ⟨start, hs, bind_ok.mpr ⟨_, hu, rfl⟩⟩

theorem poll_ok {fuel : Nat} {t : Timer T} {elapsed : Duration} {r : Timer T × Option (Token × Entry T)} :
    t.poll fuel elapsed = .ok r ↔ ∃ target, durationToTick elapsed t.tickMs = .ok target ∧ t.pollTo fuel target = .ok r := by
  unfold Timer.poll
  exact bind_ok

/-- A call of the timer is one of the wheel's. -/
theorem TimerStep.call {t t' : Timer T} {c : TimerCall T} (h : TimerStep t c t') : ∃ c', CallStep t c' t' := by
  cases h with
  | setTimeout _ elapsed delay state key h hk hne hs =>
    obtain ⟨start, h, -, hs, -⟩ := setTimeout_ok.mp hs
    exact ⟨_, .setTimeoutAt t t' start state key h hk hne hs⟩
  | cancelTimeout _ h out hc => exact ⟨_, .cancelTimeout t t' h out hc⟩
  | poll _ fuel elapsed out hp =>
    obtain ⟨target, -, hp⟩ := poll_ok.mp hp
    exact ⟨_, .pollTo t t' fuel target out hp⟩

/-! ## Every reachable timer has its board -/

theorem Board.Polls.tick_max {target : Nat} {b c : Board T} {out : Option (Token × Nat × T)} (h : Board.Polls target b c out)
    (hb : b.tick ≤ U64_MAX) : c.tick ≤ U64_MAX := by
  rcases h.induct (P := fun x => x.tick ≤ U64_MAX) (fun x hx _ _ hmax => Nat.lt_of_le_of_ne hx hmax)
    (fun _ _ _ _ hx _ _ _ _ => hx) hb with ⟨-, hc, -⟩ | ⟨a, k, d, xs, ha, -, -, -, -, rfl, -⟩
  · exact hc
  · exact ha

theorem Move.tick_max {tickMs : Nat} {b b' : Board T} {c : Call T} (h : Move tickMs b c b') (hb : b.tick ≤ U64_MAX) :
    b'.tick ≤ U64_MAX := by
  cases h with
  | set => exact hb
  | cancel => exact hb
  | stale => exact hb
  | poll _ _ _ hp => exact hp.tick_max hb

/-- A timer with its board. -/
structure Boarded (t : Timer T) (b : Board T) : Prop where
  rep : Rep t b
  tick_le : b.tick ≤ U64_MAX

theorem Boarded.step {t t' : Timer T} {b : Board T} {c : Call T} (h : Boarded t b) (hs : CallStep t c t') :
    ∃ b', Boarded t' b' ∧ Move t.tickMs b c b' ∧ t'.tickMs = t.tickMs := by
  obtain ⟨b', hr, hm, hms⟩ := move_of_call h.rep hs
  exact ⟨b', ⟨hr, hm.tick_max h.tick_le⟩, hm, hms⟩

theorem boarded {τ : List (TimerCall T)} {t : Timer T} (h : Run (timers T) τ t) : ∃ b, Boarded t b := by
  induction h with
  | init hi =>
    obtain ⟨bd, entrySize, hbd⟩ := hi
    obtain ⟨-, -, -, rfl⟩ := Builder.build_ok.mp hbd
    exact ⟨_, new_rep _ _, Nat.zero_le _⟩
  | step _ hs ih =>
    obtain ⟨b, hb⟩ := ih
    obtain ⟨c', hc⟩ := hs.call
    obtain ⟨b', hb', -⟩ := hb.step hc
    exact ⟨b', hb'⟩

/-! ## The last tick -/

theorem U64_MAX_pos : 0 < U64_MAX := by decide

/-- The tick of a duration is below the last one, unless ticks are of 1 ms and the
    milliseconds are saturated. -/
theorem durationToTick_cases {d : Duration} {tickMs tick : Nat} (h : durationToTick d tickMs = .ok tick) :
    tickMs ≠ 0 ∧ tick ≤ U64_MAX ∧ (tick < U64_MAX ↔ 1 < tickMs ∨ millis d < U64_MAX) := by
  unfold durationToTick at h
  split at h
  · cases h
  next hms =>
    cases h
    have hle : saturatingAdd (millis d) (tickMs / 2) ≤ U64_MAX := Nat.min_le_right ..
    refine ⟨hms, Nat.le_trans (Nat.div_le_self ..) hle, ?_⟩
    rcases Nat.lt_or_ge 1 tickMs with h1 | h1
    · have hlt : saturatingAdd (millis d) (tickMs / 2) / tickMs < U64_MAX := by
        rw [Nat.div_lt_iff_lt_mul (by omega)]
        have hpos := U64_MAX_pos
        calc saturatingAdd (millis d) (tickMs / 2) ≤ U64_MAX := hle
          _ < U64_MAX * 2 := by omega
          _ ≤ U64_MAX * tickMs := Nat.mul_le_mul_left _ h1
      exact ⟨fun _ => .inl h1, fun _ => hlt⟩
    · obtain rfl : tickMs = 1 := by omega
      have hms : millis d ≤ U64_MAX := Nat.min_le_right ..
      have hsat : saturatingAdd (millis d) (1 / 2) = millis d := by
        unfold saturatingAdd
        rw [show 1 / 2 = 0 from rfl, Nat.add_zero, Nat.min_eq_left hms]
      rw [hsat, Nat.div_one]
      exact ⟨.inr, fun h => h.resolve_left (Nat.lt_irrefl 1)⟩

theorem durationToTick_some (d : Duration) {tickMs : Nat} (h : tickMs ≠ 0) : ∃ tick, durationToTick d tickMs = .ok tick :=
  ⟨_, if_neg h⟩

/-- A poll up to the tick `last` comes across a timeout that is due there. -/
def Board.Reached (b : Board T) (last : Nat) : Prop :=
  ∃ k d, b.due k = some d ∧ ((k ∈ b.post ∧ d.1 ≤ b.tick) ∨
    ∃ n, b.tick < n ∧ n ≤ last ∧ b.slot n = b.slot d.1 ∧ d.1 ≤ n)

namespace Board.Reached

variable {b : Board T} {last : Nat}

theorem mono {last' : Nat} (hle : last ≤ last') (h : b.Reached last) : b.Reached last' := by
  obtain ⟨k, d, hd, h | ⟨n, hlt, hn, hs, hdle⟩⟩ := h
  · exact ⟨k, d, hd, .inl h⟩
  · exact ⟨k, d, hd, .inr ⟨n, hlt, Nat.le_trans hn hle, hs, hdle⟩⟩

theorem tick_lt (hp : b.post = []) (h : b.Reached last) : b.tick < last := by
  obtain ⟨k, d, -, ⟨hk, -⟩ | ⟨n, hlt, hn, -⟩⟩ := h
  · rw [hp] at hk
    cases hk
  · exact Nat.lt_of_lt_of_le hlt hn

theorem advance_iff (hp : b.post = []) (hb : b.tick < last) : b.advance.Reached last ↔ b.Reached last := by
  constructor
  · rintro ⟨k, d, hd, ⟨hk, hle⟩ | ⟨n, hlt, hn, hs, hle⟩⟩
    · obtain ⟨d', hd', hs⟩ := b.due_of_mem hk
      obtain rfl : d' = d := Option.some.inj (hd'.symm.trans hd)
      exact ⟨k, d', hd', .inr ⟨b.tick + 1, Nat.lt_succ_self _, hb, hs.symm, hle⟩⟩
    · exact ⟨k, d, hd, .inr ⟨n, Nat.lt_of_succ_lt hlt, hn, hs, hle⟩⟩
  · rintro ⟨k, d, hd, ⟨hk, -⟩ | ⟨n, hlt, hn, hs, hle⟩⟩
    · rw [hp] at hk
      cases hk
    · rcases Nat.lt_or_ge (b.tick + 1) n with hgt | hge
      · exact ⟨k, d, hd, .inr ⟨n, hgt, hn, hs, hle⟩⟩
      · -- the next tick is the one
        obtain rfl : n = b.tick + 1 := by omega
        have hk : k ∈ b.list (b.slot (b.tick + 1)) := by
          rw [hs]
          exact b.mem_home hd
        exact ⟨k, d, hd, .inl ⟨hk, hle⟩⟩

theorem pass_iff {x : Token} {xs : List Token} {d : Nat × T} (hp : b.post = x :: xs) (hx : b.due x = some d) (hlt : b.tick < d.1) :
    (b.pass d.1).Reached last ↔ b.Reached last := by
  have hpost : (b.pass d.1).post = xs := by
    show b.post.drop 1 = xs
    rw [hp]
    rfl
  constructor
  · rintro ⟨k, e, he, ⟨hk, hle⟩ | h⟩
    · rw [hpost] at hk
      exact ⟨k, e, he, .inl ⟨by rw [hp]; exact List.mem_cons_of_mem _ hk, hle⟩⟩
    · exact ⟨k, e, he, .inr h⟩
  · rintro ⟨k, e, he, ⟨hk, hle⟩ | h⟩
    · rw [hp] at hk
      rcases List.mem_cons.mp hk with rfl | hk
      · rw [hx] at he
        cases he
        omega
      · exact ⟨k, e, he, .inl ⟨by rw [hpost]; exact hk, hle⟩⟩
    · exact ⟨k, e, he, .inr h⟩

end Board.Reached

theorem Board.Polls.past {target : Nat} {b c : Board T} {out : Option (Token × Nat × T)} (h : Board.Polls target b c out)
    (hb : target < b.tick) : out = none := by
  cases h with
  | done => rfl
  | more hle => exact absurd hle (Nat.not_le.mpr hb)
  | fire hle => exact absurd hle (Nat.not_le.mpr hb)

/-- A poll hands something out exactly when it comes across something. -/
theorem Board.Polls.reached_iff {target : Nat} {b c : Board T} {out : Option (Token × Nat × T)} (h : Board.Polls target b c out)
    (hb : b.tick ≤ target) : out ≠ none ↔ b.Reached target := by
  induction h with
  | done b hlt => exact absurd hb (Nat.not_le.mpr hlt)
  | @more b c d out hle hmax hr hps ih =>
    rcases Board.round_none hr with ⟨hp, rfl⟩ | ⟨x, xs, e, hp, hx, hlt, rfl⟩
    · rcases Nat.lt_or_ge b.tick target with hlt | hge
      · exact (ih hlt).trans (Reached.advance_iff hp hlt)
      · have hout := hps.past (Nat.lt_succ_of_le hge)
        exact ⟨fun hne => absurd hout hne, fun hreach => absurd (hreach.tick_lt hp) (Nat.not_lt.mpr hge)⟩
    · exact (ih hb).trans (Reached.pass_iff hp hx hlt)
  | @fire b c f hle hr =>
    obtain ⟨k, d⟩ := f
    obtain ⟨xs, hp, hd, hdle, -⟩ := Board.round_some hr
    exact ⟨fun _ => ⟨k, d, hd, .inl ⟨by rw [hp]; exact List.mem_cons_self, hdle⟩⟩, fun _ h => nomatch h⟩

theorem polls_of_reached : ∀ (n m : Nat) (b : Board T), U64_MAX + 1 - b.tick ≤ n → b.post.length ≤ m → b.tick ≤ U64_MAX →
    b.Reached U64_MAX → ∃ c f, Board.Polls U64_MAX b c (some f) := by
  intro n
  induction n with
  | zero =>
    intro _ b hn _ hb _
    omega
  | succ n ihn =>
    intro m
    induction m with
    | zero =>
      intro b hn hm hb hr
      have hp : b.post = [] := List.eq_nil_of_length_eq_zero (by omega)
      have hlt := hr.tick_lt hp
      have hadv := (Board.Reached.advance_iff hp hlt).mpr hr
      obtain ⟨c, f, h⟩ := ihn b.advance.post.length b.advance (by show U64_MAX + 1 - (b.tick + 1) ≤ n; omega) (Nat.le_refl _)
        hlt hadv
      exact ⟨c, f, .more hb (.inl (Nat.ne_of_lt hlt)) (Board.round_nil hp) h⟩
    | succ m ihm =>
      intro b hn hm hb hr
      cases hp : b.post with
      | nil => exact ihm b hn (by rw [hp]; exact Nat.zero_le _) hb hr
      | cons x xs =>
        obtain ⟨d, hd, -⟩ := b.due_of_mem_post (hp ▸ List.mem_cons_self ..)
        have hround := Board.round_cons hp hd
        by_cases hdle : d.1 ≤ b.tick
        · rw [if_pos hdle] at hround
          exact ⟨_, _, .fire hb hround⟩
        · rw [if_neg hdle] at hround
          have hlen : (b.pass d.1).post.length ≤ m := by
            show (b.post.drop 1).length ≤ m
            rw [List.length_drop]
            omega
          obtain ⟨c, f, h⟩ := ihm (b.pass d.1) hn hlen hb ((Board.Reached.pass_iff hp hd (by omega)).mpr hr)
          exact ⟨c, f, .more hb (.inr (by rw [hp]; exact List.cons_ne_nil x xs)) hround h⟩

/-- A poll returns when its target is below the last tick, or it comes across something. -/
theorem pollTo_returns_iff {t : Timer T} {b : Board T} (h : Boarded t b) {target : Nat} (ht : target ≤ U64_MAX) :
    (∃ fuel t' out, t.pollTo fuel target = .ok (t', out)) ↔ (target < U64_MAX ∧ t.tick < U64_MAX) ∨ b.Reached U64_MAX := by
  constructor
  · rintro ⟨fuel, t', out, hp⟩
    obtain ⟨c, hc, hps, -⟩ := pollLoop_rep h.rep hp
    cases out with
    | some f =>
      have hle : b.tick ≤ (if target < t.tick then t.tick else target) := by
        rw [h.rep.tick]
        split <;> omega
      have hmax : (if target < t.tick then t.tick else target) ≤ U64_MAX := by
        have htick := h.tick_le
        rw [h.rep.tick] at htick
        split <;> omega
      exact .inr (((hps.reached_iff hle).mp (by simp)).mono hmax)
    | none =>
      have hraise : b.tick ≤ (if target < t.tick then t.tick else target) + 1 := by
        rw [h.rep.tick]
        split <;> omega
      have htick := hps.none_tick hraise
      have hmax := hps.tick_max h.tick_le
      refine .inl ?_
      split at htick <;> omega
  · rintro (⟨hlt, htick⟩ | hr)
    · exact pollTo_returns h.rep hlt htick
    · by_cases hlt : target < U64_MAX ∧ t.tick < U64_MAX
      · exact pollTo_returns h.rep hlt.1 hlt.2
      · have hraise : (if target < t.tick then t.tick else target) = U64_MAX := by
          have htick := h.tick_le
          rw [h.rep.tick] at htick
          split <;> omega
        obtain ⟨c, f, hps⟩ := polls_of_reached _ _ b (Nat.le_refl _) (Nat.le_refl _) h.tick_le hr
        obtain ⟨fuel, t', out, hl⟩ := pollLoop_of_polls hps t h.rep
        refine ⟨fuel, t', out, ?_⟩
        unfold Timer.pollTo
        rwa [hraise]

/-! ## What comes out without a fault -/

/-- The call of `set_timeout` that the slab answers with `key` comes out, with an error and the
    timer as it was where the time from the start is no `Duration`. -/
def Answers (t : Timer T) (elapsed delay : Duration) (state : T) (key : Token) : Prop :=
  match elapsed.add delay with
  | .ok _ => ∃ t' timeout, t.setTimeout elapsed delay state key = .ok (t', .ok timeout)
  | .error _ => t.setTimeout elapsed delay state key = .ok (t, .error ⟨⟩)

theorem answers_iff {t : Timer T} {b : Board T} (h : Boarded t b) {elapsed delay : Duration} {state : T} {key : Token}
    (hk : t.entries key = none) (hne : key ≠ EMPTY) :
    Answers t elapsed delay state key ↔ t.tickMs ≠ 0 ∧ ∃ start, elapsed.add delay = .ok start ∧
      (t.tick = U64_MAX → t.tickMs = 1 ∧ millis start = U64_MAX) := by
  have htick := h.tick_le
  rw [h.rep.tick] at htick
  unfold Answers
  cases hadd : elapsed.add delay with
  | error f =>
    constructor
    · intro hs
      obtain ⟨start, timeout, hstart, -⟩ := setTimeout_ok.mp hs
      rw [hadd] at hstart
      cases hstart
    · rintro ⟨-, start, hstart, -⟩
      cases hstart
  | ok start =>
    simp only [Except.ok.injEq, exists_eq_left']
    constructor
    · rintro ⟨t', timeout, hs⟩
      obtain ⟨start', timeout', hstart, hs, -⟩ := setTimeout_ok.mp hs
      obtain rfl : start = start' := Except.ok.inj (hadd.symm.trans hstart)
      obtain ⟨tick, tick', hd, hc, -⟩ := setTimeoutAt_ok.mp hs
      obtain ⟨hms, -, hlt⟩ := durationToTick_cases hd
      refine ⟨hms, fun hmax => ?_⟩
      have hpast : ¬ tick < U64_MAX := fun hpast => (clampTick_ok.mp hc).1 (by omega) hmax
      rw [hlt] at hpast
      have hsat : millis start ≤ U64_MAX := Nat.min_le_right ..
      omega
    · rintro ⟨hms, hmax⟩
      obtain ⟨tick, hd⟩ := durationToTick_some start hms
      obtain ⟨-, hle, hlt⟩ := durationToTick_cases hd
      have hc : t.clampTick tick = .ok (raise t.tick tick) := by
        refine clampTick_ok.mpr ⟨fun hpast heq => ?_, rfl⟩
        obtain ⟨hone, hsat⟩ := hmax heq
        rcases hlt.mp (by omega) with h1 | h1 <;> omega
      obtain ⟨t', hins, -⟩ := insert_rep h.rep (raise t.tick tick) state (h.rep.due_none.mpr hk) hne
      have hs := (setTimeoutAt_eq state key hd hc).trans hins
      exact ⟨t', _, setTimeout_ok.mpr ⟨start, _, hadd, hs, rfl⟩⟩

theorem poll_returns_iff {t : Timer T} {b : Board T} (h : Boarded t b) (elapsed : Duration) :
    (∃ fuel t' out, t.poll fuel elapsed = .ok (t', out)) ↔
      t.tickMs ≠ 0 ∧ ((t.tick < U64_MAX ∧ (1 < t.tickMs ∨ millis elapsed < U64_MAX)) ∨ b.Reached U64_MAX) := by
  constructor
  · rintro ⟨fuel, t', out, hp⟩
    obtain ⟨target, hd, hp⟩ := poll_ok.mp hp
    obtain ⟨hms, hle, hlt⟩ := durationToTick_cases hd
    refine ⟨hms, ?_⟩
    rw [← hlt, and_comm (a := t.tick < U64_MAX)]
    exact (pollTo_returns_iff h hle).mp ⟨fuel, t', out, hp⟩
  · rintro ⟨hms, hret⟩
    obtain ⟨target, hd⟩ := durationToTick_some elapsed hms
    obtain ⟨-, hle, hlt⟩ := durationToTick_cases hd
    rw [← hlt, and_comm (a := t.tick < U64_MAX)] at hret
    obtain ⟨fuel, t', out, hp⟩ := (pollTo_returns_iff h hle).mpr hret
    exact ⟨fuel, t', out, poll_ok.mpr ⟨target, hd, hp⟩⟩

/-- A builder of up to 2^63 slots builds exactly when its capacity is no more either, and the
    two allocations are within `isize::MAX` bytes, whatever the size of an entry. In every run
    of the calls, at any clock readings: a `set_timeout` comes out, with an error where
    the time from the start is no `Duration`, exactly when the tick is not zero, the time
    from the start is a `Duration`, and the wheel is not at its last tick with the timeout
    before it; and a `poll` comes out exactly when the tick is not zero, and the wheel does
    not have to go to the last tick and past it. -/
theorem arithmetic_total_iff {τ : List (TimerCall T)} {t : Timer T} (h : Run (timers T) τ t) :
    (∀ (bd : Builder) (entrySize : Nat), bd.numSlots ≤ 2 ^ 63 →
      ((∃ u : Timer T, bd.build entrySize = .ok u) ↔ bd.capacity ≤ 2 ^ 63 ∧ bd.Fits entrySize)) ∧
      ∃ b, Rep t b ∧
        (∀ elapsed delay state key, t.entries key = none → key ≠ EMPTY → (Answers t elapsed delay state key ↔
          t.tickMs ≠ 0 ∧ ∃ start, elapsed.add delay = .ok start ∧ (t.tick = U64_MAX → t.tickMs = 1 ∧ millis start = U64_MAX))) ∧
        ∀ elapsed, (∃ fuel t' out, t.poll fuel elapsed = .ok (t', out)) ↔
          t.tickMs ≠ 0 ∧ ((t.tick < U64_MAX ∧ (1 < t.tickMs ∨ millis elapsed < U64_MAX)) ∨ b.Reached U64_MAX) := by
  obtain ⟨b, hb⟩ := boarded h
  refine ⟨fun bd entrySize hn => ⟨?_, fun hc => ⟨_, Builder.build_ok.mpr ⟨hn, hc.1, hc.2, rfl⟩⟩⟩, b, hb.rep, ?_,
    poll_returns_iff hb⟩
  · rintro ⟨u, hu⟩
    obtain ⟨-, hc, hfits, -⟩ := Builder.build_ok.mp hu
    exact ⟨hc, hfits⟩
  · intro elapsed delay state key hk hne
    exact answers_iff hb hk hne

theorem hundred_le : 100 ≤ U64_MAX := by decide

/-- `Builder::default`. -/
def Builder.default : Builder := ⟨.fromMillis 100 hundred_le, 256, 65536, by decide, by decide⟩

def Duration.max : Duration := ⟨U64_MAX, 999999999, Nat.le_refl _, by decide⟩

def defaultTimer : Timer Unit := Timer.new (millis Builder.default.tick) Builder.default.numSlots

/-- An entry of a timer of `()` has 32 bytes. -/
theorem default_fits : Builder.default.Fits 32 := by
  have hslots : Nat.nextPowerOfTwo 256 = 256 := by decide +kernel
  have hcapacity : Nat.nextPowerOfTwo 65536 = 65536 := by decide +kernel
  exact ⟨by show 16 * Nat.nextPowerOfTwo 256 ≤ _; rw [hslots]; decide,
    by show 32 * Nat.nextPowerOfTwo 65536 ≤ _; rw [hcapacity]; decide⟩

theorem run_default : Run (timers Unit) [] defaultTimer :=
  .init ⟨.default, 32, Builder.build_ok.mpr ⟨by decide, by decide, default_fits, rfl⟩⟩

def NANO : Duration := ⟨0, 1, by decide, by decide⟩

/-- A timeout of the longest duration on a timer of the default builder, at the start. -/
theorem arithmetic_total_iff_default : ∃ b, Rep defaultTimer b ∧
    (Answers defaultTimer (.fromMillis 0 (by decide)) Duration.max () ⟨0⟩ ↔
      defaultTimer.tickMs ≠ 0 ∧ ∃ start, (Duration.fromMillis 0 (by decide)).add Duration.max = .ok start ∧
        (defaultTimer.tick = U64_MAX → defaultTimer.tickMs = 1 ∧ millis start = U64_MAX)) := by
  obtain ⟨-, b, hr, hset, -⟩ := arithmetic_total_iff run_default
  exact ⟨b, hr, hset _ _ () ⟨0⟩ rfl (by decide)⟩

/-- The same timeout, a nanosecond after the start: their sum is no `Duration`, and the addition
    panics. -/
theorem a_delay_without_end_panics : ¬ ∀ (τ : List (TimerCall Unit)) (t : Timer Unit), Run (timers Unit) τ t →
    ∀ elapsed delay state key, t.entries key = none → key ≠ EMPTY → Answers t elapsed delay state key := by
  intro h
  have hadd : NANO.add Duration.max = .error .overflow := by decide
  have h := h _ _ run_default NANO Duration.max () ⟨0⟩ rfl (by decide)
  unfold Answers at h
  rw [hadd] at h
  obtain ⟨start, timeout, hstart, -⟩ := setTimeout_ok.mp h
  rw [hadd] at hstart
  cases hstart

end Sickle.Timers
