/-
  Sickle.Timers.Calls — the calls of a timer, on its board.

  `Move` is what each call does to a board: `set_timeout_at` inserts at the clamped tick,
  `cancel_timeout` removes what its handle names or does nothing, `poll_to` runs rounds
  to its raised target.
  - `move_of_call`: a call on a represented timer is a move, and the timer it leaves is
    represented again.
  - `rep_inv`: what holds of the empty board and every move keeps holds of the board of
    every timer a run of calls reaches.
  - `pollTo_returns`: with enough fuel a poll of any target below the last tick returns.
-/

import Sickle.Timers.Rep

namespace Sickle.Timers

open Function (update)
open Sickle.Lib

variable {T : Type}

/-- `clamp_tick` where it does not overflow. -/
def raise (now tick : Nat) : Nat := if tick < now then now + 1 else tick

theorem raise_ge (now tick : Nat) : now ≤ raise now tick ∧ tick ≤ raise now tick := by
  unfold raise; split <;> omega

theorem raise_eq_iff (now tick : Nat) : raise now tick = now ↔ tick = now := by
  unfold raise; split <;> omega

inductive Move (tickMs : Nat) : Board T → Call T → Board T → Prop
  | set (b : Board T) (d : Duration) (state : T) (key : Token) (tick : Nat) (hk : b.due key = none) :
      durationToTick d tickMs = .ok tick → (tick < b.tick → b.tick ≠ U64_MAX) →
      Move tickMs b (.setTimeoutAt d state ⟨key, raise b.tick tick⟩) (b.insert key (raise b.tick tick) state hk)
  | cancel (b : Board T) (h : Timeout) (state : T) : b.due h.token = some (h.tick, state) →
      Move tickMs b (.cancelTimeout h (some state)) (b.remove h.token)
  | stale (b : Board T) (h : Timeout) : (∀ state, b.due h.token ≠ some (h.tick, state)) →
      Move tickMs b (.cancelTimeout h none) b
  | poll (b c : Board T) (target : Nat) (out : Option (Token × Entry T)) :
      Board.Polls (if target < b.tick then b.tick else target) b c (out.map fire) → Move tickMs b (.pollTo target out) c

theorem bind_ok {α β : Type} {x : Except Fault α} {f : α → Except Fault β} {b : β} :
    (x >>= f) = .ok b ↔ ∃ a, x = .ok a ∧ f a = .ok b := by
  cases x with
  | error e => exact ⟨(fun h => nomatch h), fun ⟨_, h, _⟩ => (nomatch h)⟩
  | ok a => exact ⟨fun h => ⟨a, rfl, h⟩, fun ⟨_, h, hf⟩ => by cases h; exact hf⟩

theorem clampTick_ok {t : Timer T} {tick tick' : Nat} :
    t.clampTick tick = .ok tick' ↔ (tick < t.tick → t.tick ≠ U64_MAX) ∧ tick' = raise t.tick tick := by
  unfold Timer.clampTick raise
  by_cases hlt : tick < t.tick
  · rw [if_pos hlt, if_pos hlt]
    by_cases hmax : t.tick = U64_MAX
    · rw [if_pos hmax]
      exact ⟨(fun h => nomatch h), fun h => absurd hmax (h.1 hlt)⟩
    · rw [if_neg hmax]
      refine ⟨fun h => ?_, fun h => by rw [h.2]⟩
      cases h; exact ⟨fun _ => hmax, rfl⟩
  · rw [if_neg hlt, if_neg hlt]
    refine ⟨fun h => ?_, fun h => by rw [h.2]⟩
    cases h; exact ⟨fun h => absurd h hlt, rfl⟩

theorem setTimeoutAt_eq {t : Timer T} {d : Duration} {tick tick' : Nat} (state : T) (key : Token)
    (hd : durationToTick d t.tickMs = .ok tick) (hc : t.clampTick tick = .ok tick') :
    t.setTimeoutAt d state key = t.insert tick' state key := by
  rw [Timer.setTimeoutAt, hd]
  show (t.clampTick tick >>= fun tick => t.insert tick state key) = _
  rw [hc]; rfl

theorem setTimeoutAt_ok {t : Timer T} {start : Duration} {state : T} {key : Token} {r : Timer T × Timeout} :
    t.setTimeoutAt start state key = .ok r ↔ ∃ tick tick', durationToTick start t.tickMs = .ok tick ∧
      t.clampTick tick = .ok tick' ∧ t.insert tick' state key = .ok r := by
  unfold Timer.setTimeoutAt
  simp only [bind_ok, exists_and_left]

theorem setTimeoutAt_move {t t' : Timer T} {b : Board T} (hr : Rep t b) {d : Duration} {state : T} {key : Token} {h : Timeout}
    (hk : t.entries key = none) (hne : key ≠ EMPTY) (hs : t.setTimeoutAt d state key = .ok (t', h)) :
    ∃ b', Rep t' b' ∧ Move t.tickMs b (.setTimeoutAt d state h) b' ∧ t'.tickMs = t.tickMs := by
  obtain ⟨tick, tick', hd, hc, hs⟩ := setTimeoutAt_ok.mp hs
  have hdue := hr.due_none.mpr hk
  obtain ⟨t1, h1, h2, h3⟩ := insert_rep hr tick' state hdue hne
  rw [h1] at hs
  cases hs
  obtain ⟨hmax, rfl⟩ := clampTick_ok.mp hc
  rw [← hr.tick] at h2 hmax ⊢
  exact ⟨_, h2, .set b d state key tick hdue hd hmax, h3⟩

theorem cancelTimeout_stale {t : Timer T} {h : Timeout} (he : ∀ e, t.entries h.token = some e → e.links.tick ≠ h.tick) :
    t.cancelTimeout h = .ok (t, none) := by
  unfold Timer.cancelTimeout
  cases hk : t.entries h.token with
  | none => rfl
  | some e => simp only [if_pos (he e hk)]

theorem cancelTimeout_live {t : Timer T} {b : Board T} (hr : Rep t b) {h : Timeout} {e : Entry T}
    (he : t.entries h.token = some e) (ht : e.links.tick = h.tick) :
    ∃ t', t.cancelTimeout h = .ok (t', some e.state) ∧ Rep t' (b.remove h.token) ∧ t'.tickMs = t.tickMs := by
  obtain ⟨t1, t', h1, h2, h3, h4⟩ := take_rep hr he
  refine ⟨t', ?_, h3, h4⟩
  unfold Timer.cancelTimeout
  rw [he]
  simp only [ht, ne_eq, not_true, if_false, h1, h2, bind, Except.bind]

/-- A cancel comes out, whatever its handle. -/
theorem cancelTimeout_total {t : Timer T} {b : Board T} (hr : Rep t b) (h : Timeout) :
    ∃ t' b' out, t.cancelTimeout h = .ok (t', out) ∧ Rep t' b' ∧ Move t.tickMs b (.cancelTimeout h out) b' ∧
      t'.tickMs = t.tickMs := by
  by_cases hlive : ∃ e, t.entries h.token = some e ∧ e.links.tick = h.tick
  · obtain ⟨e, he, ht⟩ := hlive
    obtain ⟨t', hc, hr', hms⟩ := cancelTimeout_live hr he ht
    exact ⟨t', _, _, hc, hr', .cancel b h e.state (by rw [hr.due_of_entry he, ht]), hms⟩
  · refine ⟨t, b, none, cancelTimeout_stale fun e he ht => hlive ⟨e, he, ht⟩, hr, .stale b h fun state hs => hlive ?_, rfl⟩
    obtain ⟨e, he, ht, -⟩ := hr.entry_of_due hs
    exact ⟨e, he, ht⟩

theorem cancelTimeout_move {t t' : Timer T} {b : Board T} (hr : Rep t b) {h : Timeout} {out : Option T}
    (hc : t.cancelTimeout h = .ok (t', out)) :
    ∃ b', Rep t' b' ∧ Move t.tickMs b (.cancelTimeout h out) b' ∧ t'.tickMs = t.tickMs := by
  obtain ⟨t1, b', out', hc', hr', hm, hms⟩ := cancelTimeout_total hr h
  rw [hc'] at hc
  cases hc
  exact ⟨b', hr', hm, hms⟩

theorem pollTo_move {t t' : Timer T} {b : Board T} (hr : Rep t b) {fuel target : Nat} {out : Option (Token × Entry T)}
    (hp : t.pollTo fuel target = .ok (t', out)) :
    ∃ b', Rep t' b' ∧ Move t.tickMs b (.pollTo target out) b' ∧ t'.tickMs = t.tickMs := by
  obtain ⟨c, hc, hps, hms⟩ := pollLoop_rep hr hp
  rw [← hr.tick] at hps
  exact ⟨c, hc, .poll b c target out hps, hms⟩

/-- A call on a represented timer is a move of its board. -/
theorem move_of_call {t t' : Timer T} {b : Board T} {c : Call T} (hr : Rep t b) (hs : CallStep t c t') :
    ∃ b', Rep t' b' ∧ Move t.tickMs b c b' ∧ t'.tickMs = t.tickMs := by
  cases hs with
  | setTimeoutAt _ d state key h hk hne hs => exact setTimeoutAt_move hr hk hne hs
  | cancelTimeout _ h out hc => exact cancelTimeout_move hr hc
  | pollTo _ fuel target out hp => exact pollTo_move hr hp

/-- The invariant rule of a timer: over runs whose calls all meet `C`. -/
theorem rep_inv {C : Timer T → Call T → Prop} {P : List (Call T) → Board T → Prop} (h0 : ∀ slot, P [] (Board.init slot))
    (hs : ∀ τ t b c b', Rep t b → P τ b → C t c → Move t.tickMs b c b' → P (τ ++ [c]) b') {τ : List (Call T)} {t : Timer T}
    (h : Run ((calls T).restrict C) τ t) : ∃ b, Rep t b ∧ P τ b := by
  refine Run.inv_trace (P := fun τ t => ∃ b, Rep t b ∧ P τ b) ?_ ?_ h
  · intro t hx
    obtain ⟨tickMs, numSlots, rfl⟩ := hx
    exact ⟨_, new_rep tickMs numSlots, h0 _⟩
  · rintro τ t c t' - ⟨b, hr, hb⟩ ⟨hstep, hC⟩
    obtain ⟨b', hr', hm, -⟩ := move_of_call hr hstep
    exact ⟨b', hr', hs τ t b c b' hr hb hC hm⟩

/-- A wheel of eight slots and ticks of 1 ms. -/
theorem new_eight : (Timer.new 1 8 : Timer T) = ⟨1, fun _ => none, fun _ => ⟨TICK_MAX, EMPTY⟩, 0, EMPTY, 7⟩ := by
  have h : Nat.nextPowerOfTwo 8 = 8 := by decide +kernel
  simp only [Timer.new, h]

theorem run_new_eight : Run (calls T) [] (⟨1, fun _ => none, fun _ => ⟨TICK_MAX, EMPTY⟩, 0, EMPTY, 7⟩ : Timer T) :=
  .init ⟨1, 8, new_eight.symm⟩

/-! ## Polls return -/

theorem pollLoop_of_polls {target : Nat} {b c : Board T} {o : Option (Token × Nat × T)} (h : Board.Polls target b c o) :
    ∀ t, Rep t b → ∃ fuel t' out, t.pollLoop fuel target = .ok (t', out) := by
  induction h with
  | done b hlt =>
    intro t hr
    refine ⟨1, t, none, ?_⟩
    rw [Timer.pollLoop, if_neg (by rw [← hr.tick]; omega)]
  | more hle hmax hround _ ih =>
    intro t hr
    obtain ⟨t1, out, h1, h2, h3, -⟩ := pollRound_rep hr hmax
    rw [hround] at h2 h3
    obtain rfl : out = none := Option.map_eq_none_iff.mp h3
    obtain ⟨fuel, t', out, hl⟩ := ih t1 h2
    refine ⟨fuel + 1, t', out, ?_⟩
    rw [Timer.pollLoop, if_pos (by rw [← hr.tick]; exact hle), h1]; exact hl
  | @fire b c f hle hround =>
    intro t hr
    obtain ⟨k, d⟩ := f
    obtain ⟨xs, hp, -⟩ := Board.round_some hround
    obtain ⟨t1, out, h1, -, h3, -⟩ := pollRound_rep hr (.inr (by rw [hp]; exact List.cons_ne_nil k xs))
    rw [hround] at h3
    obtain ⟨e, rfl, -⟩ := Option.map_eq_some_iff.mp h3
    refine ⟨1, t1, some e, ?_⟩
    rw [Timer.pollLoop, if_pos (by rw [← hr.tick]; exact hle), h1]

/-- A poll of a target below the last tick returns, whatever the run before it. -/
theorem pollTo_returns {t : Timer T} {b : Board T} (hr : Rep t b) {target : Nat} (ht : target < U64_MAX)
    (htick : t.tick < U64_MAX) : ∃ fuel t' out, t.pollTo fuel target = .ok (t', out) := by
  have hlt : (if target < t.tick then t.tick else target) < U64_MAX := by split <;> omega
  obtain ⟨c, out, h⟩ := Board.polls_total hlt _ _ b (Nat.le_refl _) (Nat.le_refl _)
  exact pollLoop_of_polls h t hr

end Sickle.Timers
