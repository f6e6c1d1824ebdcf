/-
  Sickle.Timers.Loop — the loop over a timer's callbacks in the event loop.

  `while let Some(t) = timer.poll() { t() }` at one clock reading: each callback may set
  timeouts, which may be due at once, and cancel others. A timeout that a callback sets is
  due at the loop's last tick or later, and one that is due at the very tick the wheel is
  at goes in behind the cursor: so at each tick before the last one there are only timeouts
  from before the loop, and at the last one only what its list holds when the wheel comes
  there.

  - `drain_ends_iff`: from every reachable timer, the loop ends whatever the callbacks do
    exactly when the tick is not zero, the wheel does not have to pass the last tick, and
    no callback adds a delay to the time since the start that makes no `Duration` with it.
  - `a_long_timeout_in_a_callback_panics`: such a delay.
-/

import Sickle.Timers.Arith

namespace Sickle.Timers

open Function (update)
open Sickle.Lib

variable {T : Type}

/-- A callback, all at one clock reading: calls of `set_timeout`, with any of the given delays,
    and of `cancel_timeout`, with any handle; it ends with the timer, or with a fault. -/
inductive Callback (delays : Duration → Prop) (elapsed : Duration) : Timer T → Except Fault (Timer T) → Prop
  | done (t : Timer T) : Callback delays elapsed t (.ok t)
  | set {t t' : Timer T} {delay : Duration} {state : T} {key : Token} {answer : Except TimerError Timeout}
      {r : Except Fault (Timer T)} : delays delay → t.entries key = none → key ≠ EMPTY →
      t.setTimeout elapsed delay state key = .ok (t', answer) → Callback delays elapsed t' r → Callback delays elapsed t r
  | setFault {t : Timer T} {delay : Duration} {state : T} {key : Token} {f : Fault} : delays delay → t.entries key = none →
      key ≠ EMPTY → t.setTimeout elapsed delay state key = .error f → Callback delays elapsed t (.error f)
  | cancel {t t' : Timer T} {h : Timeout} {out : Option T} {r : Except Fault (Timer T)} :
      t.cancelTimeout h = .ok (t', out) → Callback delays elapsed t' r → Callback delays elapsed t r
  | cancelFault {t : Timer T} {h : Timeout} {f : Fault} : t.cancelTimeout h = .error f → Callback delays elapsed t (.error f)

/-- The loop comes to `None`, whatever its callbacks do: each poll returns, no callback ends in
    a fault, and the rounds come to an end. -/
inductive Ends (delays : Duration → Prop) (elapsed : Duration) : Timer T → Prop
  | none {t t' : Timer T} {fuel : Nat} : t.poll fuel elapsed = .ok (t', none) → Ends delays elapsed t
  | some {t t' : Timer T} {fuel : Nat} {f : Token × Entry T} : t.poll fuel elapsed = .ok (t', some f) →
      (∀ e, ¬ Callback delays elapsed t' (.error e)) →
      (∀ t'', Callback delays elapsed t' (.ok t'') → Ends delays elapsed t'') → Ends delays elapsed t

/-! ## Ticks of later times -/

theorem saturatingAdd_le {a a' b b' : Nat} (ha : a ≤ a') (hb : b ≤ b') : saturatingAdd a b ≤ saturatingAdd a' b' := by
  unfold saturatingAdd
  omega

theorem millis_add {d delay start : Duration} (h : d.add delay = .ok start) : millis d ≤ millis start := by
  unfold Duration.add at h
  split at h
  · cases h
    have hn := d.nanos_lt
    unfold millis saturatingAdd saturatingMul
    simp only [NANOS_PER_SEC, NANOS_PER_MILLI, MILLIS_PER_SEC] at hn ⊢
    omega
  · cases h

/-- What a callback sets is due no earlier than now. -/
theorem durationToTick_add {d delay start : Duration} {tickMs now tick : Nat} (h : d.add delay = .ok start)
    (hn : durationToTick d tickMs = .ok now) (ht : durationToTick start tickMs = .ok tick) : now ≤ tick := by
  unfold durationToTick at hn ht
  split at hn
  · cases hn
  next hms =>
    rw [if_neg hms] at ht
    cases hn
    cases ht
    exact Nat.div_le_div_right (saturatingAdd_le (millis_add h) (Nat.le_refl _))

/-! ## A poll in the loop -/

/-- The rest of the list is shorter after a poll that hands something out, if the wheel was at
    the poll's last tick already. -/
theorem Board.Polls.post_lt {last : Nat} {b c : Board T} {f : Token × Nat × T} (h : Board.Polls last b c (some f))
    (hb : b.tick = last) : c.post.length < b.post.length := by
  have hadv : ∀ x : Board T, b.tick ≤ x.tick ∧ (last < x.tick ∨ x.post.length ≤ b.post.length) → x.tick ≤ last →
      x.post = [] → x.tick ≠ U64_MAX → b.tick ≤ x.tick + 1 ∧ (last < x.tick + 1 ∨ x.advance.post.length ≤ b.post.length) := by
    intro x hx _ _ _
    exact ⟨Nat.le_succ_of_le hx.1, .inl (Nat.lt_succ_of_le (hb ▸ hx.1))⟩
  have hpass : ∀ (x : Board T) y ys d, b.tick ≤ x.tick ∧ (last < x.tick ∨ x.post.length ≤ b.post.length) → x.tick ≤ last →
      x.post = y :: ys → x.due y = some d → x.tick < d.1 →
      b.tick ≤ (x.pass d.1).tick ∧ (last < (x.pass d.1).tick ∨ (x.pass d.1).post.length ≤ b.post.length) := by
    intro x y ys d hx _ _ _ _
    refine ⟨hx.1, hx.2.imp_right fun hlen => Nat.le_trans ?_ hlen⟩
    exact (List.drop_sublist 1 x.post).length_le
  rcases h.induct hadv hpass ⟨Nat.le_refl _, .inr (Nat.le_refl _)⟩ with ⟨hout, -⟩ | ⟨a, k, d, xs, ha, hle, hp, -, -, rfl, -⟩
  · cases hout
  · have hlen := ha.2.resolve_left (Nat.not_lt.mpr hle)
    have hk : k ∈ a.post := hp ▸ List.mem_cons_self
    exact Nat.lt_of_lt_of_le (List.length_filter_lt_length_iff_exists.mpr ⟨k, hk, by simp⟩) hlen

/-- What a poll up to the tick `last` does that hands out `k`, due at `d`. -/
structure Fired (last : Nat) (b c : Board T) (k : Token) (d : Nat × T) : Prop where
  due : b.due k = some d
  taken : c.due = update b.due k none
  due_le : d.1 ≤ c.tick
  tick_le : b.tick ≤ c.tick
  le_last : c.tick ≤ last
  post_lt : b.tick = last → c.post.length < b.post.length

theorem Board.Polls.fired {last : Nat} {b c : Board T} {k : Token} {d : Nat × T} (h : Board.Polls last b c (some (k, d)))
    (hb : b.tick ≤ last) : Fired last b c k d := by
  obtain ⟨hge, -, hle⟩ := h.tick_le (Nat.le_succ_of_le hb)
  obtain ⟨hout, -⟩ | ⟨k', d', hout, hdue, htaken⟩ := h.due
  · cases hout
  · cases hout
    refine ⟨hdue, htaken, ?_, hge, hle (by simp), h.post_lt⟩
    rcases h.induct (P := fun _ => True) (fun _ _ _ _ _ => trivial) (fun _ _ _ _ _ _ _ _ _ => trivial) trivial with
      ⟨hout, -⟩ | ⟨a, x, e, xs, -, -, -, -, hdle, rfl, hout⟩
    · cases hout
    · cases hout
      exact hdle

/-! ## The invariant of the loop -/

/-- The timer in a loop whose polls all go up to the tick `last`. -/
structure Looping (now tickMs last : Nat) (t : Timer T) (b : Board T) : Prop where
  boarded : Boarded t b
  tickMs_eq : t.tickMs = tickMs
  last_eq : max now b.tick = last

/-- A callback leaves the wheel's tick, puts nothing under the cursor, and sets nothing that is
    due before the last tick. -/
structure Kept (last : Nat) (b b' : Board T) : Prop where
  tick : b'.tick = b.tick
  post : b'.post.length ≤ b.post.length
  due : ∀ k d, b'.due k = some d → d.1 < last → b.due k = some d

theorem Kept.refl (last : Nat) (b : Board T) : Kept last b b := ⟨rfl, Nat.le_refl _, fun _ _ h _ => h⟩

theorem Kept.trans {last : Nat} {b c d : Board T} (h : Kept last b c) (h' : Kept last c d) : Kept last b d :=
  ⟨h'.tick.trans h.tick, Nat.le_trans h'.post h.post, fun k e hk he => h.due k e (h'.due k e hk he) he⟩

variable {now tickMs last : Nat} {delays : Duration → Prop} {elapsed : Duration} {t t' : Timer T} {b b' : Board T}

theorem Kept.set {state : T} {h : Timeout} {start : Duration} (hm : Move tickMs b (.setTimeoutAt start state h) b')
    (hle : ∀ tick, durationToTick start tickMs = .ok tick → now ≤ tick) (hlast : max now b.tick = last) : Kept last b b' := by
  cases hm with
  | set _ _ key tick hk hd _ =>
    refine ⟨rfl, Nat.le_refl _, fun k d hdue hlt => ?_⟩
    rcases Board.due_of_insert hdue with ⟨-, rfl⟩ | hdue
    · have hnow := hle tick hd
      have hge := raise_ge b.tick tick
      simp only at hlt
      omega
    · exact hdue

theorem Kept.cancel {h : Timeout} {out : Option T} (hm : Move tickMs b (.cancelTimeout h out) b') : Kept last b b' := by
  cases hm with
  | cancel _ state hdue =>
    exact ⟨rfl, List.length_filter_le .., fun k d hk _ => (Board.due_of_remove hk).2⟩
  | stale => exact Kept.refl last b

theorem Looping.kept (h : Looping now tickMs last t b) (hr : Rep t' b') (hms : t'.tickMs = t.tickMs) (hk : Kept last b b') :
    Looping now tickMs last t' b' where
  boarded := ⟨hr, by rw [hk.tick]; exact h.boarded.tick_le⟩
  tickMs_eq := hms.trans h.tickMs_eq
  last_eq := by rw [hk.tick]; exact h.last_eq

theorem Looping.tick_lt (h : Looping now tickMs last t b) (hlast : last < U64_MAX) : t.tick < U64_MAX := by
  have hmax := h.last_eq
  rw [h.boarded.rep.tick] at hmax
  omega

/-- A callback whose delays all make a `Duration` ends with no fault. -/
theorem Callback.kept {r : Except Fault (Timer T)} (hc : Callback delays elapsed t r)
    (hdel : ∀ delay, delays delay → ∃ start, elapsed.add delay = .ok start) (hnow : durationToTick elapsed tickMs = .ok now)
    (hlast : last < U64_MAX) (h : Looping now tickMs last t b) :
    ∃ t' b', r = .ok t' ∧ Looping now tickMs last t' b' ∧ Kept last b b' := by
  induction hc generalizing b with
  | done t => exact ⟨t, b, rfl, h, Kept.refl last b⟩
  | @set t t1 delay state key answer r hd hk hne hs _ ih =>
    obtain ⟨start, timeout, hadd, hs, -⟩ := setTimeout_ok.mp hs
    obtain ⟨c, hr, hm, hms⟩ := setTimeoutAt_move h.boarded.rep hk hne hs
    have hset : Kept last b c := Kept.set hm (fun tick ht => durationToTick_add hadd hnow (h.tickMs_eq ▸ ht)) h.last_eq
    obtain ⟨t', b', rfl, hloop, hkept⟩ := ih (h.kept hr hms hset)
    exact ⟨t', b', rfl, hloop, hset.trans hkept⟩
  | @setFault t delay state key f hd hk hne hs =>
    obtain ⟨start, hadd⟩ := hdel delay hd
    have hms := (durationToTick_cases hnow).1
    have hans : Answers t elapsed delay state key :=
      (answers_iff h.boarded hk hne).mpr ⟨h.tickMs_eq ▸ hms, start, hadd, fun hmax => absurd hmax (Nat.ne_of_lt (h.tick_lt hlast))⟩
    unfold Answers at hans
    rw [hadd] at hans
    obtain ⟨t', timeout, hok⟩ := hans
    rw [hs] at hok
    cases hok
  | @cancel t t1 handle out r hc _ ih =>
    obtain ⟨c, hr, hm, hms⟩ := cancelTimeout_move h.boarded.rep hc
    have hcancel : Kept last b c := Kept.cancel hm
    obtain ⟨t', b', rfl, hloop, hkept⟩ := ih (h.kept hr hms hcancel)
    exact ⟨t', b', rfl, hloop, hcancel.trans hkept⟩
  | @cancelFault t handle f hc =>
    obtain ⟨t', b', out, hok, -⟩ := cancelTimeout_total h.boarded.rep handle
    rw [hc] at hok
    cases hok

theorem raised_eq (now tick : Nat) : (if now < tick then tick else now) = max now tick := by
  split <;> omega

theorem Looping.poll_returns (h : Looping now tickMs last t b) (hnow : durationToTick elapsed tickMs = .ok now)
    (hlast : last < U64_MAX) : ∃ fuel t' out, t.poll fuel elapsed = .ok (t', out) := by
  have hlt : now < U64_MAX := by
    have := h.last_eq
    omega
  obtain ⟨fuel, t', out, hp⟩ := pollTo_returns h.boarded.rep hlt (h.tick_lt hlast)
  exact ⟨fuel, t', out, poll_ok.mpr ⟨now, h.tickMs_eq ▸ hnow, hp⟩⟩

theorem Looping.polled {fuel : Nat} {out : Option (Token × Entry T)} (h : Looping now tickMs last t b)
    (hnow : durationToTick elapsed tickMs = .ok now) (hp : t.poll fuel elapsed = .ok (t', out)) :
    ∃ c, Rep t' c ∧ Board.Polls last b c (out.map fire) ∧ t'.tickMs = t.tickMs := by
  obtain ⟨target, hd, hp⟩ := poll_ok.mp hp
  rw [h.tickMs_eq, hnow] at hd
  cases hd
  obtain ⟨c, hr, hps, hms⟩ := pollLoop_rep h.boarded.rep hp
  rw [raised_eq, ← h.boarded.rep.tick, h.last_eq] at hps
  exact ⟨c, hr, hps, hms⟩

theorem Looping.tick_le (h : Looping now tickMs last t b) : b.tick ≤ last := by
  have := h.last_eq
  omega

theorem Looping.fired {fuel : Nat} {f : Token × Entry T} (h : Looping now tickMs last t b) (hlast : last < U64_MAX)
    (hnow : durationToTick elapsed tickMs = .ok now) (hp : t.poll fuel elapsed = .ok (t', some f)) :
    ∃ c k d, Looping now tickMs last t' c ∧ Fired last b c k d := by
  obtain ⟨c, hr, hps, hms⟩ := h.polled hnow hp
  have hf := hps.fired h.tick_le
  refine ⟨c, _, _, ⟨⟨hr, Nat.le_trans hf.le_last (Nat.le_of_lt hlast)⟩, hms.trans h.tickMs_eq, ?_⟩, hf⟩
  have hmax := h.last_eq
  have htick := hf.tick_le
  have hle := hf.le_last
  omega

/-- What is pending before `last` after a round was so before it, and is not what it handed
    out. -/
theorem Fired.old {c : Board T} {k : Token} {d : Nat × T} (hf : Fired last b c k d) (hk : Kept last c b') {k' : Token}
    {d' : Nat × T} (hdue : b'.due k' = some d') (hlt : d'.1 < last) : k' ≠ k ∧ b.due k' = some d' := by
  have hc := hk.due k' d' hdue hlt
  rw [hf.taken] at hc
  exact Board.due_of_update hc

/-- A round that hands out a timeout of the last tick brings the wheel there, or shortens what
    is left of its list. -/
theorem Fired.nearer {c : Board T} {k : Token} {d : Nat × T} (hf : Fired last b c k d) (hk : Kept last c b') (hd : last ≤ d.1) :
    Prod.Lex (· < ·) (· < ·) (last - b'.tick, b'.post.length) (last - b.tick, b.post.length) := by
  have hc : b'.tick = last := hk.tick.trans (Nat.le_antisymm hf.le_last (Nat.le_trans hd hf.due_le))
  have hle := hf.tick_le
  have hlast := hf.le_last
  rw [hc, Nat.sub_self]
  rcases Nat.eq_or_lt_of_le (Nat.le_trans hle hlast) with heq | hlt
  · rw [heq, Nat.sub_self]
    exact .right _ (Nat.lt_of_le_of_lt hk.post (hf.post_lt heq))
  · exact .left _ _ (Nat.sub_pos_of_lt hlt)

/-- What is due before `last` is in the list. -/
def Listed (last : Nat) (L : List Token) (b : Board T) : Prop := ∀ k d, b.due k = some d → d.1 < last → k ∈ L

/-- The loop ends: a round takes one of the timeouts from before the last tick, or brings the
    wheel there, or shortens what is left of the last tick's list. -/
theorem Looping.ends (hdel : ∀ delay, delays delay → ∃ start, elapsed.add delay = .ok start)
    (hnow : durationToTick elapsed tickMs = .ok now) (hlast : last < U64_MAX) (L : List Token) (t : Timer T) (b : Board T)
    (h : Looping now tickMs last t b) (hL : Listed last L b) : Ends delays elapsed t := by
  obtain ⟨fuel, t', out, hp⟩ := h.poll_returns hnow hlast
  cases out with
  | none => exact .none hp
  | some f =>
    obtain ⟨c, k, d, hc, hf⟩ := h.fired hlast hnow hp
    refine .some hp (fun e he => ?_) fun t'' hcb => ?_
    · obtain ⟨t'', b'', hres, -⟩ := he.kept hdel hnow hlast hc
      cases hres
    · obtain ⟨t3, b', hres, hb', hkept⟩ := hcb.kept hdel hnow hlast hc
      cases hres
      rcases Nat.lt_or_ge d.1 last with hlt | hge
      · have hmem := hL k d hf.due hlt
        have hlen : (L.erase k).length < L.length := by
          have hpos := List.length_pos_of_mem hmem
          rw [List.length_erase_of_mem hmem]
          omega
        have hL' : Listed last (L.erase k) b' := by
          intro k' d' hdue hlt'
          obtain ⟨hne, hold⟩ := hf.old hkept hdue hlt'
          exact (List.mem_erase_of_ne hne).mpr (hL k' d' hold hlt')
        exact Looping.ends hdel hnow hlast (L.erase k) t'' b' hb' hL'
      · have hlex := hf.nearer hkept hge
        have hL' : Listed last L b' := fun k' d' hdue hlt' => hL k' d' (hf.old hkept hdue hlt').2 hlt'
        exact Looping.ends hdel hnow hlast L t'' b' hb' hL'
termination_by (L.length, last - b.tick, b.post.length)
decreasing_by
  · exact Prod.Lex.left _ _ hlen
  · exact Prod.Lex.right _ hlex

/-- The keys of a wheel's lists, each slot's. -/
theorem listed_all (hr : Rep t b) (last : Nat) : Listed last ((List.range (t.mask + 1)).flatMap b.list) b := by
  intro k d hk _
  have hslot : b.slot d.1 ≤ t.mask := by
    rw [hr.slot]
    exact Nat.and_le_right
  exact List.mem_flatMap.mpr ⟨b.slot d.1, List.mem_range.mpr (Nat.lt_succ_of_le hslot), b.mem_home hk⟩

/-! ## When the loop ends -/

/-- A loop that ends goes past its last tick, so that is not the last there is. -/
theorem Ends.bounds (h : Ends delays elapsed t) (hb : Boarded t b) :
    t.tickMs ≠ 0 ∧ t.tick < U64_MAX ∧ (1 < t.tickMs ∨ millis elapsed < U64_MAX) := by
  induction h generalizing b with
  | @none t t' fuel hp =>
    obtain ⟨now, hnow, -⟩ := poll_ok.mp hp
    have hloop : Looping now t.tickMs (max now b.tick) t b := ⟨hb, rfl, rfl⟩
    obtain ⟨c, -, hps, -⟩ := hloop.polled hnow hp
    have hpast := hps.none_tick (Nat.le_succ_of_le hloop.tick_le)
    have hmax := hps.tick_max hb.tick_le
    have hlast : max now b.tick < U64_MAX := by omega
    obtain ⟨hms, -, hlt⟩ := durationToTick_cases hnow
    exact ⟨hms, hloop.tick_lt hlast, hlt.mp (by omega)⟩
  | @some t t' fuel f hp _ _ ih =>
    obtain ⟨now, hnow, -⟩ := poll_ok.mp hp
    have hloop : Looping now t.tickMs (max now b.tick) t b := ⟨hb, rfl, rfl⟩
    obtain ⟨c, hr, hps, hms⟩ := hloop.polled hnow hp
    obtain ⟨hne, htick, hlt⟩ := ih t' (.done t') ⟨hr, hps.tick_max hb.tick_le⟩
    have hge := (hps.fired hloop.tick_le).tick_le
    rw [hb.rep.tick, hr.tick] at hge
    rw [hms] at hne hlt
    exact ⟨hne, Nat.lt_of_le_of_lt hge htick, hlt⟩

/-- A callback that comes to run can set a timeout of each of its delays. -/
theorem delays_of_ends (h : Ends delays elapsed t) (hb : Boarded t b) :
    (∀ delay, delays delay → ∃ start, elapsed.add delay = .ok start) ∨
      ∀ now, durationToTick elapsed t.tickMs = .ok now → ¬ b.Reached (max now t.tick) := by
  cases h with
  | @none _ t' fuel hp =>
    refine .inr fun now hnow hreach => ?_
    have hloop : Looping now t.tickMs (max now b.tick) t b := ⟨hb, rfl, rfl⟩
    obtain ⟨c, -, hps, -⟩ := hloop.polled hnow hp
    rw [← hb.rep.tick] at hreach
    exact (hps.reached_iff hloop.tick_le).mpr hreach rfl
  | @some _ t' fuel f hp hsafe _ =>
    obtain ⟨now, hnow, -⟩ := poll_ok.mp hp
    have hloop : Looping now t.tickMs (max now b.tick) t b := ⟨hb, rfl, rfl⟩
    obtain ⟨c, hr, hps, -⟩ := hloop.polled hnow hp
    have hf := hps.fired hloop.tick_le
    refine .inl fun delay hd => ?_
    cases hadd : elapsed.add delay with
    | ok start => exact ⟨start, rfl⟩
    | error e =>
      have hfree : t'.entries f.1 = none := hr.due_none.mp (by rw [hf.taken]; exact Function.update_self ..)
      have hpanic : t'.setTimeout elapsed delay f.2.state f.1 = .error e := by
        rw [Timer.setTimeout, hadd]
        rfl
      exact absurd (.setFault hd hfree (hb.rep.ne_empty hf.due) hpanic) (hsafe e)

/-- In every run of a timer's calls, and whatever timeouts of the given delays the callbacks
    set and cancel: the loop ends exactly when the tick is not zero, the wheel does not have
    to pass the last tick, and each of the delays makes a `Duration` with the time since the
    start, or there is nothing due to call back for. -/
theorem drain_ends_iff {τ : List (TimerCall T)} {t : Timer T} (h : Run (timers T) τ t) (delays : Duration → Prop)
    (elapsed : Duration) : ∃ b, Rep t b ∧ (Ends delays elapsed t ↔
      t.tickMs ≠ 0 ∧ t.tick < U64_MAX ∧ (1 < t.tickMs ∨ millis elapsed < U64_MAX) ∧
        ((∀ delay, delays delay → ∃ start, elapsed.add delay = .ok start) ∨
          ∀ now, durationToTick elapsed t.tickMs = .ok now → ¬ b.Reached (max now t.tick))) := by
  obtain ⟨b, hb⟩ := boarded h
  refine ⟨b, hb.rep, fun hends => ?_, ?_⟩
  · obtain ⟨hms, htick, hlt⟩ := hends.bounds hb
    exact ⟨hms, htick, hlt, delays_of_ends hends hb⟩
  · rintro ⟨hms, htick, hlt, hdel⟩
    obtain ⟨now, hnow⟩ := durationToTick_some elapsed hms
    have hlast : max now b.tick < U64_MAX := by
      have := (durationToTick_cases hnow).2.2.mpr hlt
      rw [hb.rep.tick]
      omega
    have hloop : Looping now t.tickMs (max now b.tick) t b := ⟨hb, rfl, rfl⟩
    rcases hdel with hdel | hidle
    · exact hloop.ends hdel hnow hlast _ t b (listed_all hb.rep _)
    · obtain ⟨fuel, t', out, hp⟩ := hloop.poll_returns hnow hlast
      obtain ⟨c, -, hps, -⟩ := hloop.polled hnow hp
      cases out with
      | none => exact .none hp
      | some f =>
        have hreach := (hps.reached_iff hloop.tick_le).mp (by simp)
        rw [hb.rep.tick] at hreach
        exact absurd hreach (hidle now hnow)

def START : Duration := .fromMillis 0 (Nat.zero_le _)

def TICK : Duration := .fromMillis 100 hundred_le

def SECOND : Duration := .fromMillis 1000 (by decide)

/-- The default timer with one timeout, of one tick. -/
theorem run_one_timeout : ∃ t h, Run (timers Unit) [.setTimeout START TICK () h] t ∧ view t.entries ⟨0⟩ = some (1, ()) ∧
    t.tickMs = 100 ∧ t.tick = 0 :=
  ⟨_, _, run_default.step (.setTimeout _ _ START TICK () ⟨0⟩ _ rfl (by decide) rfl), by decide, by decide, rfl⟩

/-- After a second, with callbacks that set timeouts of no time and of one tick. -/
theorem drain_ends_iff_one_timeout : ∃ (τ : List (TimerCall Unit)) (t : Timer Unit), Run (timers Unit) τ t ∧
    view t.entries ⟨0⟩ = some (1, ()) ∧ Ends (fun delay => delay = START ∨ delay = TICK) SECOND t := by
  obtain ⟨t, h, hrun, hset, hms, htick⟩ := run_one_timeout
  obtain ⟨b, -, hiff⟩ := drain_ends_iff hrun (fun delay => delay = START ∨ delay = TICK) SECOND
  refine ⟨_, t, hrun, hset, hiff.mpr ⟨?_, ?_, .inl ?_, .inl ?_⟩⟩
  · rw [hms]
    decide
  · rw [htick]
    exact U64_MAX_pos
  · rw [hms]
    decide
  · rintro delay (rfl | rfl)
    · exact ⟨_, rfl⟩
    · exact ⟨_, rfl⟩

/-- The same, but the callback sets a timeout of `Duration::MAX`: the addition to the second
    that has gone by panics in the loop. -/
theorem a_long_timeout_in_a_callback_panics : ¬ ∀ (τ : List (TimerCall Unit)) (t : Timer Unit), Run (timers Unit) τ t →
    ∀ (delays : Duration → Prop) (elapsed : Duration), Ends delays elapsed t := by
  intro h
  obtain ⟨t, handle, hrun, hset, hms, htick⟩ := run_one_timeout
  obtain ⟨b, hb⟩ := boarded hrun
  rcases delays_of_ends (h _ t hrun (fun delay => delay = Duration.max) SECOND) hb with hdel | hidle
  · obtain ⟨start, hadd⟩ := hdel Duration.max rfl
    have hpanic : SECOND.add Duration.max = .error .overflow := by decide
    rw [hpanic] at hadd
    cases hadd
  · have hnow : durationToTick SECOND t.tickMs = .ok 10 := by
      rw [hms]
      rfl
    refine hidle 10 hnow ⟨⟨0⟩, (1, ()), by rw [hb.rep.due]; exact hset, .inr ⟨1, ?_, by omega, rfl, Nat.le_refl _⟩⟩
    rw [hb.rep.tick, htick]
    exact Nat.one_pos

end Sickle.Timers
