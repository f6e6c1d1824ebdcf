/-
  Sickle.Timers.OnTime — how far from its deadline a timeout fires, in milliseconds.

  `set_timeout` and `poll` read the clock and round it to the nearest tick, so a tick may
  be up to half a tick early. Each poll that returns nothing takes the wheel one tick past
  its target, also when the clock has not moved (`Sickle.Timers.Early`); what is set then
  for a tick that the wheel has left is moved to the one after it.

  `Paced n`: from any poll to any later reading of the clock, at most `n` more polls
  returned nothing than ticks passed. A loop that drains its timer once a tick is
  `Paced 1`.
  - `Lead.bound`: the wheel is then at most `n` ticks ahead of the clock.
  - `fires_less_than_a_tick_early`: a timeout that fires has less than `n + 1` ticks to go.
  - `nothing_left_a_tick_late`: a poll that returns nothing leaves nothing that has been
    due for `n + 1` ticks.
-/

import Sickle.Timers.Arith
import Sickle.Timers.Early
import Sickle.Timers.Order

namespace Sickle.Timers

open Function (update)
open Sickle.Lib

variable {T : Type}

/-! ## Ticks and milliseconds -/

/-- `duration_to_tick`, for ticks of some length. -/
def tickOf (tickMs : Nat) (d : Duration) : Nat := saturatingAdd (millis d) (tickMs / 2) / tickMs

theorem durationToTick_eq {d : Duration} {tickMs tick : Nat} (h : durationToTick d tickMs = .ok tick) :
    tickMs ≠ 0 ∧ tick = tickOf tickMs d := by
  unfold durationToTick at h
  split at h
  · cases h
  next hms =>
    cases h
    exact ⟨hms, rfl⟩

theorem millis_lt_of_tick_lt {tickMs : Nat} {a b : Duration} (h : tickOf tickMs a < tickOf tickMs b) : millis a < millis b := by
  by_contra hle
  have hle : saturatingAdd (millis b) (tickMs / 2) ≤ saturatingAdd (millis a) (tickMs / 2) := by
    unfold saturatingAdd
    omega
  have hdiv : tickOf tickMs b ≤ tickOf tickMs a := Nat.div_le_div_right hle
  omega

/-- Each of the two is rounded by half a tick at most. -/
theorem millis_lt_of_tick_le {tickMs n : Nat} {a b : Duration} (h : tickOf tickMs a ≤ tickOf tickMs b + n) (hms : tickMs ≠ 0)
    (ha : millis a + tickMs / 2 ≤ U64_MAX) : millis a < millis b + (n + 1) * tickMs := by
  have hsat : saturatingAdd (millis a) (tickMs / 2) = millis a + tickMs / 2 := Nat.min_eq_left ha
  have hup : millis a + tickMs / 2 < (tickOf tickMs a + 1) * tickMs := by
    unfold tickOf
    rw [hsat, Nat.mul_comm]
    exact Nat.lt_mul_div_succ _ (Nat.pos_of_ne_zero hms)
  have hdown : tickOf tickMs b * tickMs ≤ millis b + tickMs / 2 :=
    Nat.le_trans (Nat.div_mul_le_self ..) (Nat.min_le_left ..)
  have hmul : (tickOf tickMs a + 1) * tickMs ≤ tickOf tickMs b * tickMs + (n + 1) * tickMs := by
    rw [← Nat.add_mul]
    exact Nat.mul_le_mul_right _ (by omega)
  omega

theorem millis_le_add {a b c : Duration} (h : a.add b = .ok c) : millis a ≤ millis c := by
  unfold Duration.add at h
  split at h
  · cases h
    have := a.nanos_lt
    unfold millis saturatingAdd saturatingMul
    simp only [NANOS_PER_SEC, NANOS_PER_MILLI, MILLIS_PER_SEC] at *
    omega
  · cases h

/-! ## How far the wheel is ahead -/

def TimerCall.clock : TimerCall T → Option Duration
  | .setTimeout elapsed _ _ _ => some elapsed
  | .poll elapsed _ => some elapsed
  | .cancelTimeout _ _ => none

def TimerCall.isIdle : TimerCall T → Bool
  | .poll _ none => true
  | _ => false

/-- The polls that returned nothing. -/
def idles (τ : List (TimerCall T)) : Nat := τ.countP TimerCall.isIdle

theorem idles_snoc (τ : List (TimerCall T)) (c : TimerCall T) : idles (τ ++ [c]) = idles τ + if c.isIdle then 1 else 0 := by
  unfold idles
  rw [List.countP_append, List.countP_singleton]

/-- From any poll to any later reading of the clock, at most `n` more polls returned nothing
    than ticks passed. -/
def Paced (tickMs n : Nat) (τ : List (TimerCall T)) : Prop :=
  ∀ σ x out ρ c later now, τ = σ ++ .poll x out :: (ρ ++ c :: later) → c.clock = some now →
    tickOf tickMs x + idles (.poll x out :: ρ) ≤ tickOf tickMs now + n

theorem Paced.earlier {tickMs n : Nat} {τ : List (TimerCall T)} {c : TimerCall T} (h : Paced tickMs n (τ ++ [c])) :
    Paced tickMs n τ := by
  intro σ x out ρ c' later now hτ hc
  refine h σ x out ρ c' (later ++ [c]) now ?_ hc
  rw [hτ]
  simp

theorem Paced.nil (tickMs n : Nat) : Paced (T := T) tickMs n [] := by
  intro σ x out ρ c later now hτ _
  simp at hτ

theorem Paced.concat {tickMs n : Nat} {τ : List (TimerCall T)} {c : TimerCall T} (h : Paced tickMs n τ)
    (hc : ∀ σ x out ρ now, τ = σ ++ .poll x out :: ρ → c.clock = some now →
      tickOf tickMs x + idles (.poll x out :: ρ) ≤ tickOf tickMs now + n) : Paced tickMs n (τ ++ [c]) := by
  intro σ x out ρ c' later now hτ hclock
  rcases List.eq_nil_or_concat' later with rfl | ⟨later, l, rfl⟩
  · have hsplit : τ ++ [c] = (σ ++ .poll x out :: ρ) ++ [c'] := by rw [hτ]; simp
    obtain ⟨hprev, hlast⟩ := List.append_inj' hsplit rfl
    cases hlast
    exact hc σ x out ρ now hprev hclock
  · have hsplit : τ ++ [c] = (σ ++ .poll x out :: (ρ ++ c' :: later)) ++ [l] := by rw [hτ]; simp
    obtain ⟨hprev, -⟩ := List.append_inj' hsplit rfl
    exact h σ x out ρ c' later now hprev hclock

/-- The wheel is at its start, or no further than a poll took it, and the polls after that
    which returned nothing. -/
def Lead (tickMs : Nat) (τ : List (TimerCall T)) (tick : Nat) : Prop :=
  tick = 0 ∨ ∃ σ x out ρ, τ = σ ++ .poll x out :: ρ ∧ tick ≤ tickOf tickMs x + idles (.poll x out :: ρ)

namespace Lead

variable {tickMs tick : Nat} {τ : List (TimerCall T)}

theorem more (h : Lead tickMs τ tick) {c : TimerCall T} {tick' : Nat} (hle : tick' ≤ tick + if c.isIdle then 1 else 0)
    (h0 : tick = 0 → tick' = 0) : Lead tickMs (τ ++ [c]) tick' := by
  rcases h with h | ⟨σ, x, out, ρ, rfl, h⟩
  · exact .inl (h0 h)
  · refine .inr ⟨σ, x, out, ρ ++ [c], by simp, ?_⟩
    rw [← List.cons_append, idles_snoc]
    omega

/-- A poll raises its target to the wheel's tick. -/
theorem poll (h : Lead tickMs τ tick) (elapsed : Duration) {out : Option (Token × Entry T)} {tick' : Nat}
    (hle : tick' ≤ (if tickOf tickMs elapsed < tick then tick else tickOf tickMs elapsed) + if out = none then 1 else 0) :
    Lead tickMs (τ ++ [.poll elapsed out]) tick' := by
  have hidle : (TimerCall.poll elapsed out).isIdle = decide (out = none) := by
    cases out with
    | none => rfl
    | some _ => rfl
  by_cases hlt : tickOf tickMs elapsed < tick
  · rw [if_pos hlt] at hle
    refine h.more ?_ (fun h0 => by omega)
    rw [hidle]
    simpa using hle
  · rw [if_neg hlt] at hle
    refine .inr ⟨τ, elapsed, out, [], rfl, ?_⟩
    rw [show idles [TimerCall.poll elapsed out] = _ from idles_snoc [] _, hidle]
    simpa [idles] using hle

theorem bound (h : Lead tickMs τ tick) {n : Nat} {c : TimerCall T} {now : Duration} (hp : Paced tickMs n (τ ++ [c]))
    (hc : c.clock = some now) : tick ≤ tickOf tickMs now + n := by
  rcases h with h | ⟨σ, x, out, ρ, rfl, h⟩
  · omega
  · exact Nat.le_trans h (hp σ x out ρ c [] now (by simp) hc)

end Lead

/-! ## What is pending -/

/-- What is pending was set, for a tick that is not before its deadline's, and after it only
    if the wheel was past that when it was set. -/
def Pending (tickMs n : Nat) (τ : List (TimerCall T)) (b : Board T) : Prop :=
  ∀ k d, b.due k = some d → ∃ set delay start, .setTimeout set delay d.2 ⟨k, d.1⟩ ∈ τ ∧ set.add delay = .ok start ∧
    tickOf tickMs start ≤ d.1 ∧ (d.1 = tickOf tickMs start ∨ d.1 ≤ tickOf tickMs set + n + 1)

theorem Pending.mono {tickMs n : Nat} {τ : List (TimerCall T)} {b b' : Board T} (h : Pending tickMs n τ b) (c : TimerCall T)
    (hdue : ∀ k d, b'.due k = some d → b.due k = some d) : Pending tickMs n (τ ++ [c]) b' := by
  intro k d hk
  obtain ⟨set, delay, start, hmem, h⟩ := h k d (hdue k d hk)
  exact ⟨set, delay, start, List.mem_append_left _ hmem, h⟩

theorem Pending.set {tickMs n : Nat} {τ : List (TimerCall T)} {b : Board T} (h : Pending tickMs n τ b) {set delay start : Duration}
    {state : T} {key : Token} (hk : b.due key = none) (hadd : set.add delay = .ok start) (hb : b.tick ≤ tickOf tickMs set + n) :
    Pending tickMs n (τ ++ [.setTimeout set delay state ⟨key, raise b.tick (tickOf tickMs start)⟩])
      (b.insert key (raise b.tick (tickOf tickMs start)) state hk) := by
  intro k d hd
  rcases Board.due_of_insert hd with ⟨rfl, rfl⟩ | hd
  · refine ⟨set, delay, start, by simp, hadd, (raise_ge ..).2, ?_⟩
    show raise b.tick (tickOf tickMs start) = _ ∨ raise b.tick (tickOf tickMs start) ≤ _
    unfold raise
    split
    · right; omega
    · left; rfl
  · exact h.mono _ (fun _ _ hx => hx) k d hd

/-- The timer's board, after a run. -/
structure Timely (τ : List (TimerCall T)) (t : Timer T) (b : Board T) : Prop where
  rep : Rep t b
  lead : Lead t.tickMs τ b.tick
  pending : ∀ n, Paced t.tickMs n τ → Pending t.tickMs n τ b

/-- No timeout is set for the wheel's own tick, where it would be missed. -/
def NotAtTick (t : Timer T) (c : TimerCall T) : Prop :=
  match c with
  | .setTimeout elapsed delay _ _ => ∀ start, elapsed.add delay = .ok start → durationToTick start t.tickMs ≠ .ok t.tick
  | _ => True

/-- A call is a move of the board. -/
theorem Timely.step {τ : List (TimerCall T)} {t t' : Timer T} {b : Board T} {c : TimerCall T} (h : Timely τ t b)
    (hs : TimerStep t c t') : ∃ c' b', Timely (τ ++ [c]) t' b' ∧ Move t.tickMs b c' b' ∧ t'.tickMs = t.tickMs ∧
      (NotAtTick t c → NotNow t c') := by
  cases hs with
  | setTimeout _ elapsed delay state key timeout hk hne hs =>
    obtain ⟨start, timeout', hadd, hset, hr⟩ := setTimeout_ok.mp hs
    cases hr
    obtain ⟨b', hr', hm, hms⟩ := move_of_call h.rep (.setTimeoutAt _ _ start state key timeout hk hne hset)
    refine ⟨_, b', ⟨hr', ?_, ?_⟩, hm, hms, fun hnot => hnot start hadd⟩
    · rw [hms]
      cases hm with
      | set _ _ _ tick _ hd _ => exact h.lead.more (Nat.le_add_right ..) id
    · rw [hms]
      intro n hp
      cases hm with
      | set _ _ _ tick hk' hd _ =>
        obtain ⟨-, rfl⟩ := durationToTick_eq hd
        exact (h.pending n hp.earlier).set hk' hadd (h.lead.bound hp rfl)
  | cancelTimeout _ timeout out hc =>
    obtain ⟨b', hr', hm, hms⟩ := move_of_call h.rep (.cancelTimeout _ _ timeout out hc)
    refine ⟨_, b', ⟨hr', ?_, ?_⟩, hm, hms, fun _ => trivial⟩
    · rw [hms]
      cases hm with
      | cancel => exact h.lead.more (Nat.le_add_right ..) id
      | stale => exact h.lead.more (Nat.le_add_right ..) id
    · rw [hms]
      intro n hp
      cases hm with
      | cancel => exact (h.pending n hp.earlier).mono _ fun k d hk => (Board.due_of_remove hk).2
      | stale => exact (h.pending n hp.earlier).mono _ fun k d hk => hk
  | poll _ fuel elapsed out hp =>
    obtain ⟨target, hd, hp⟩ := poll_ok.mp hp
    obtain ⟨-, rfl⟩ := durationToTick_eq hd
    obtain ⟨b', hr', hm, hms⟩ := move_of_call h.rep (.pollTo _ _ fuel _ out hp)
    refine ⟨_, b', ⟨hr', ?_, ?_⟩, hm, hms, fun _ => trivial⟩
    · rw [hms]
      cases hm with
      | poll _ _ _ hps =>
        refine h.lead.poll elapsed ?_
        obtain ⟨-, hle, hsome⟩ := hps.tick_le (by split <;> omega)
        cases out with
        | none => simpa using hle
        | some f => simpa using hsome (by simp)
    · rw [hms]
      intro n hp
      cases hm with
      | poll _ _ _ hps => exact (h.pending n hp.earlier).mono _ (polls_due hps).1

theorem timely_init {t : Timer T} (h : (timers T).init t) : ∃ b, Timely [] t b ∧ Ahead b := by
  obtain ⟨bd, entrySize, hbd⟩ := h
  obtain ⟨-, -, -, rfl⟩ := Builder.build_ok.mp hbd
  exact ⟨_, ⟨new_rep _ _, .inl rfl, fun n _ k d hk => nomatch hk⟩, Ahead.init _⟩

theorem timely_run {τ : List (TimerCall T)} {t : Timer T} (h : Run (timers T) τ t) : ∃ b, Timely τ t b := by
  induction h with
  | init hi =>
    obtain ⟨b, hb, -⟩ := timely_init hi
    exact ⟨b, hb⟩
  | step _ hs ih =>
    obtain ⟨b, hb⟩ := ih
    obtain ⟨-, b', hb', -⟩ := hb.step hs
    exact ⟨b', hb'⟩

theorem timely_ahead_run {τ : List (TimerCall T)} {t : Timer T} (h : Run ((timers T).restrict NotAtTick) τ t) :
    ∃ b, Timely τ t b ∧ Ahead b := by
  induction h with
  | init hi => exact timely_init hi
  | step _ hs ih =>
    obtain ⟨b, hb, ha⟩ := ih
    obtain ⟨c', b', hb', hm, -, hnot⟩ := hb.step hs.1
    exact ⟨b', hb', ha.move hb.rep (hnot hs.2) hm⟩

/-! ## When timeouts fire -/

/-- A timeout that fires was set, and has less than `n + 1` ticks to go, where the run is
    `Paced n`. (A deadline within half a tick of the last millisecond is rounded down.) -/
theorem fires_less_than_a_tick_early {τ : List (TimerCall T)} {t t' : Timer T} {elapsed : Duration} {fired : Token × Entry T}
    (h : Run (timers T) τ t) (hs : TimerStep t (.poll elapsed (some fired)) t') {n : Nat}
    (hp : Paced t.tickMs n (τ ++ [.poll elapsed (some fired)])) :
    ∃ set delay start, .setTimeout set delay fired.2.state ⟨fired.1, fired.2.links.tick⟩ ∈ τ ∧ set.add delay = .ok start ∧
      (millis start + t.tickMs / 2 ≤ U64_MAX → millis start < millis elapsed + (n + 1) * t.tickMs) := by
  obtain ⟨b, hb⟩ := timely_run h
  cases hs with
  | poll _ fuel _ _ hpoll =>
    obtain ⟨target, hd, hpoll⟩ := poll_ok.mp hpoll
    obtain ⟨hms, rfl⟩ := durationToTick_eq hd
    obtain ⟨b', -, hm, -⟩ := move_of_call hb.rep (.pollTo _ _ fuel _ _ hpoll)
    cases hm with
    | poll _ _ _ hps =>
      obtain ⟨set, delay, start, hmem, hadd, hge, -⟩ := hb.pending n hp.earlier _ _ ((polls_due hps).2 _ _ rfl)
      refine ⟨set, delay, start, hmem, hadd, fun hmax => millis_lt_of_tick_le ?_ hms hmax⟩
      have hlead := hb.lead.bound hp rfl
      have hle := hps.some_due
      calc tickOf t.tickMs start ≤ (if tickOf t.tickMs elapsed < b.tick then b.tick else tickOf t.tickMs elapsed) :=
            Nat.le_trans hge hle
        _ ≤ tickOf t.tickMs elapsed + n := by split <;> omega

theorem new_hundred : (Timer.new 100 8 : Timer T) = ⟨100, fun _ => none, fun _ => ⟨TICK_MAX, EMPTY⟩, 0, EMPTY, 7⟩ := by
  have h : Nat.nextPowerOfTwo 8 = 8 := by decide +kernel
  simp only [Timer.new, h]

theorem eight_le : 8 ≤ U64_MAX := by decide

theorem thousand_le : 1000 ≤ U64_MAX := by decide

/-- A number of milliseconds, less than a second. -/
def ms (n : Fin 1000) : Duration := .fromMillis n (Nat.le_trans (Nat.le_of_lt n.isLt) thousand_le)

/-- Ticks of 100 ms. -/
def hundredMs : Builder := ⟨ms 100, 8, 0, eight_le, Nat.zero_le _⟩

theorem init_hundred : (timers T).init ⟨100, fun _ => none, fun _ => ⟨TICK_MAX, EMPTY⟩, 0, EMPTY, 7⟩ := by
  have hms : millis hundredMs.tick = 100 := by decide
  have hslots : Nat.nextPowerOfTwo 8 = 8 := by decide +kernel
  have hcapacity : Nat.nextPowerOfTwo 0 = 1 := by decide +kernel
  have hfits : hundredMs.Fits 32 := ⟨by show 16 * Nat.nextPowerOfTwo 8 ≤ _; rw [hslots]; decide,
    by show 32 * Nat.nextPowerOfTwo 0 ≤ _; rw [hcapacity]; decide⟩
  refine ⟨hundredMs, 32, Builder.build_ok.mpr ⟨by decide, by decide, hfits, ?_⟩⟩
  rw [hms]
  exact new_hundred.symm

theorem run_new_hundred : Run ((timers Unit).restrict NotAtTick) []
    ⟨100, fun _ => none, fun _ => ⟨TICK_MAX, EMPTY⟩, 0, EMPTY, 7⟩ :=
  .init init_hundred

/-- An idle poll at the start, a timeout set then, and a poll after more than a tick. -/
theorem paced_one {delay : Duration} {h : Timeout} {now : Duration} {out : Option (Token × Entry Unit)}
    (hnow : 0 < tickOf 100 now) :
    Paced 100 1 ([.poll (ms 0) none, .setTimeout (ms 0) delay () h] ++ [.poll now out] : List (TimerCall Unit)) := by
  have hzero : tickOf 100 (ms 0) = 0 := by decide
  have hpoll : Paced 100 1 ([] ++ [.poll (ms 0) none] : List (TimerCall Unit)) :=
    (Paced.nil 100 1).concat fun σ x out ρ _ hτ _ => by simp at hτ
  have hset : Paced 100 1 ([.poll (ms 0) none] ++ [.setTimeout (ms 0) delay () h] : List (TimerCall Unit)) := by
    refine hpoll.concat fun σ x out ρ now' hτ hclock => ?_
    obtain rfl : ms 0 = now' := Option.some.inj hclock
    rcases σ with _ | ⟨c, σ⟩
    · cases hτ
      exact Nat.le_refl _
    · simp at hτ
  refine hset.concat fun σ x out ρ now' hτ hclock => ?_
  obtain rfl : now = now' := Option.some.inj hclock
  rcases σ with _ | ⟨c, _ | ⟨c', σ⟩⟩
  · cases hτ
    show tickOf 100 (ms 0) + 1 ≤ _
    omega
  · cases hτ
  · simp at hτ

/-- The timer after an idle poll at the start. -/
theorem run_idle_hundred : Run ((timers Unit).restrict NotAtTick) [.poll (ms 0) none]
    ⟨100, fun _ => none, update (fun _ => ⟨TICK_MAX, EMPTY⟩) 1 ⟨TICK_MAX, EMPTY⟩, 1, EMPTY, 7⟩ := by
  have hpoll : durationToTick (ms 0) 100 = .ok 0 := by decide
  exact run_new_hundred.step ⟨.poll _ _ 3 (ms 0) none (poll_ok.mpr ⟨0, hpoll, rfl⟩), trivial⟩

/-- The wheel is a tick ahead, and a timeout of 200 ms fires after 150 ms. -/
theorem fires_less_than_a_tick_early_at_150_ms : ∃ (τ : List (TimerCall Unit)) (t t' : Timer Unit) (f : Token × Entry Unit),
    Run (timers Unit) τ t ∧ t.tick = 1 ∧ TimerStep t (.poll (ms 150) (some f)) t' ∧
      ∃ set delay start, .setTimeout set delay f.2.state ⟨f.1, f.2.links.tick⟩ ∈ τ ∧ set.add delay = .ok start ∧
        (millis start + t.tickMs / 2 ≤ U64_MAX → millis start < millis (ms 150) + (1 + 1) * t.tickMs) := by
  have hset : durationToTick (ms 200) 100 = .ok 2 := by decide
  have hpoll : durationToTick (ms 150) 100 = .ok 2 := by decide
  have h1 := run_idle_hundred.of_restrict.step (.setTimeout _ _ (ms 0) (ms 200) () ⟨0⟩ _ rfl (by decide)
    (setTimeout_ok.mpr ⟨ms 200, _, by decide, (setTimeoutAt_eq () ⟨0⟩ hset rfl).trans rfl, rfl⟩))
  exact ⟨_, _, _, _, h1, rfl, .poll _ _ 3 (ms 150) (some _) (poll_ok.mpr ⟨2, hpoll, rfl⟩),
    fires_less_than_a_tick_early h1 (.poll _ _ 3 (ms 150) (some _) (poll_ok.mpr ⟨2, hpoll, rfl⟩)) (paced_one (by decide))⟩

/-- A poll that returns nothing, in a run with no timeout set for the wheel's own tick,
    leaves no timeout that has been due for `n + 1` ticks, where the run is `Paced n`. -/
theorem nothing_left_a_tick_late {τ : List (TimerCall T)} {t t' : Timer T} {elapsed : Duration}
    (h : Run ((timers T).restrict NotAtTick) τ t) (hs : TimerStep t (.poll elapsed none) t') {n : Nat}
    (hp : Paced t.tickMs n (τ ++ [.poll elapsed none])) (hmax : millis elapsed + t.tickMs / 2 ≤ U64_MAX) {key : Token}
    {e : Entry T} (he : t'.entries key = some e) :
    ∃ set delay start, .setTimeout set delay e.state ⟨key, e.links.tick⟩ ∈ τ ∧ set.add delay = .ok start ∧
      millis elapsed < millis start + (n + 1) * t.tickMs := by
  obtain ⟨b, hb, ha⟩ := timely_ahead_run h
  cases hs with
  | poll _ fuel _ _ hpoll =>
    obtain ⟨target, hd, hpoll⟩ := poll_ok.mp hpoll
    obtain ⟨hms, rfl⟩ := durationToTick_eq hd
    obtain ⟨b', hr', hm, -⟩ := move_of_call hb.rep (.pollTo _ _ fuel _ _ hpoll)
    cases hm with
    | poll _ _ _ hps =>
      have hdue := hr'.due_of_entry he
      obtain ⟨set, delay, start, hmem, hadd, -, hle⟩ := hb.pending n hp.earlier _ _ ((polls_due hps).1 _ _ hdue)
      refine ⟨set, delay, start, hmem, hadd, ?_⟩
      have hlater : tickOf t.tickMs elapsed < e.links.tick := by
        have hraised := (ha.polls hps).1 rfl _ _ hdue
        simp only at hraised
        split at hraised <;> omega
      have hset := millis_le_add hadd
      rcases hle with heq | hle
      · -- not due yet
        have heq : e.links.tick = tickOf t.tickMs start := heq
        have := millis_lt_of_tick_lt (heq ▸ hlater)
        omega
      · -- set for a tick that the wheel had left
        have hle : e.links.tick ≤ tickOf t.tickMs set + n + 1 := hle
        have := millis_lt_of_tick_le (b := set) (n := n) (by omega) hms hmax
        omega

/-- The wheel is a tick ahead, and a timeout of 260 ms is left by a poll after 100 ms. -/
theorem nothing_left_a_tick_late_at_100_ms : ∃ (τ : List (TimerCall Unit)) (t t' : Timer Unit) (e : Entry Unit),
    Run ((timers Unit).restrict NotAtTick) τ t ∧ t.tick = 1 ∧ TimerStep t (.poll (ms 100) none) t' ∧ t'.entries ⟨0⟩ = some e ∧
      ∃ set delay start, .setTimeout set delay e.state ⟨⟨0⟩, e.links.tick⟩ ∈ τ ∧ set.add delay = .ok start ∧
        millis (ms 100) < millis start + (1 + 1) * t.tickMs := by
  have hset : durationToTick (ms 260) 100 = .ok 3 := by decide
  have hpoll : durationToTick (ms 100) 100 = .ok 1 := by decide
  have hadd : (ms 0).add (ms 260) = .ok (ms 260) := by decide
  have h1 := run_idle_hundred.step ⟨.setTimeout _ _ (ms 0) (ms 260) () ⟨0⟩ _ rfl (by decide)
    (setTimeout_ok.mpr ⟨ms 260, _, hadd, (setTimeoutAt_eq () ⟨0⟩ hset rfl).trans rfl, rfl⟩), fun start hs hd => by
      cases hadd.symm.trans hs
      cases hset.symm.trans hd⟩
  exact ⟨_, _, _, _, h1, rfl, .poll _ _ 3 (ms 100) none (poll_ok.mpr ⟨1, hpoll, rfl⟩), rfl,
    nothing_left_a_tick_late h1 (.poll _ _ 3 (ms 100) none (poll_ok.mpr ⟨1, hpoll, rfl⟩)) (paced_one (by decide)) (by decide) rfl⟩

end Sickle.Timers
