/-
  Sickle.Timers.Order — polls miss nothing and fire in order.

  `Ordered` is the law of one poll: after a `poll_to` that returns no timeout none is
  pending at or below the target, and after one that returns a timeout of tick k none is
  pending below k.

  It fails for a timeout inserted at the wheel's current tick: the guard of
  `set_timeout_at` is `<`, and the insertion puts the entry at the head of the current
  slot's list, behind the cursor, where it stays for a whole revolution.
  - `a_timeout_at_the_current_tick_is_missed`: on a new timer, with a delay of 0.
  - `polls_ordered`: in a run with no such insertion every poll is `Ordered`. The
    invariant is `Ahead`: nothing is pending below the wheel's tick, and what is pending
    at it is still in front of the cursor.
-/

import Sickle.Timers.Calls

namespace Sickle.Timers

open Function (update)
open Sickle.Lib

variable {T : Type}

/-- What is pending in `t'`, after a poll that answered `out`, is later than what the
    poll was for. -/
def Ordered (t' : Timer T) (target : Nat) (out : Option (Token × Entry T)) : Prop :=
  match out with
  | none => ∀ k e, t'.entries k = some e → target < e.links.tick
  | some fired => ∀ k e, t'.entries k = some e → fired.2.links.tick ≤ e.links.tick

/-- No timeout is set at the wheel's current tick. -/
def NotNow (t : Timer T) (c : Call T) : Prop :=
  match c with
  | .setTimeoutAt d _ _ => durationToTick d t.tickMs ≠ .ok t.tick
  | _ => True

instance (t : Timer T) (c : Call T) : Decidable (NotNow t c) :=
  match c with
  | .setTimeoutAt d _ _ => inferInstanceAs (Decidable (durationToTick d t.tickMs ≠ .ok t.tick))
  | .cancelTimeout .. => inferInstanceAs (Decidable True)
  | .pollTo .. => inferInstanceAs (Decidable True)

/-! ## What is pending lies ahead -/

structure Ahead (b : Board T) : Prop where
  due : ∀ k d, b.due k = some d → b.tick ≤ d.1
  here : ∀ k d, b.due k = some d → d.1 = b.tick → k ∈ b.post

namespace Ahead

variable {b : Board T}

theorem init (slot : Nat → Nat) : Ahead (Board.init slot : Board T) where
  due _ _ h := nomatch h
  here _ _ h := nomatch h

theorem insert (h : Ahead b) {k : Token} {tick : Nat} (state : T) (hk : b.due k = none) (hlt : b.tick < tick) :
    Ahead (b.insert k tick state hk) := by
  constructor
  · intro x d hx
    show b.tick ≤ d.1
    rcases Board.due_of_insert hx with ⟨-, rfl⟩ | hx
    · exact Nat.le_of_lt hlt
    · exact h.due x d hx
  · intro x d hx hd
    change d.1 = b.tick at hd
    rcases Board.due_of_insert hx with ⟨-, rfl⟩ | hx
    · simp only at hd; omega
    · exact h.here x d hx hd

theorem remove (h : Ahead b) (k : Token) : Ahead (b.remove k) := by
  constructor
  · intro x d hx
    exact h.due x d (Board.due_of_remove hx).2
  · intro x d hx hd
    obtain ⟨hne, hx⟩ := Board.due_of_remove hx
    exact List.mem_filter.mpr ⟨h.here x d hx hd, by simpa using hne⟩

/-- The cursor is past the list, so nothing is pending at the tick left behind. -/
theorem advance (h : Ahead b) (hp : b.post = []) : Ahead b.advance := by
  constructor
  · intro x d hx
    show b.tick + 1 ≤ d.1
    rcases Nat.lt_or_eq_of_le (h.due x d hx) with hlt | heq
    · exact hlt
    · have hm := h.here x d hx heq.symm
      rw [hp] at hm; cases hm
  · intro x d hx hd
    change d.1 = b.tick + 1 at hd
    show x ∈ b.list (b.slot (b.tick + 1))
    rw [← hd]; exact b.mem_home hx

/-- What the cursor steps over is of a later revolution. -/
theorem pass (h : Ahead b) {x : Token} {xs : List Token} {d : Nat × T} (hp : b.post = x :: xs) (hx : b.due x = some d)
    (hlt : b.tick < d.1) : Ahead (b.pass d.1) := by
  refine ⟨h.due, fun y e hy he => ?_⟩
  have hm := h.here y e hy he
  show y ∈ b.post.drop 1
  rw [hp] at hm ⊢
  rcases List.mem_cons.mp hm with rfl | hm
  · obtain rfl : d = e := Option.some.inj (hx.symm.trans hy)
    change d.1 = b.tick at he
    omega
  · exact hm

theorem move (h : Ahead b) {t : Timer T} {b' : Board T} {c : Call T} (hr : Rep t b) (hC : NotNow t c)
    (hm : Move t.tickMs b c b') : Ahead b' := by
  cases hm with
  | set d state key tick hk hd _ =>
    refine h.insert state hk ?_
    have hne : tick ≠ b.tick := by
      intro e
      subst e
      exact hC (by rw [hd, hr.tick])
    have := raise_ge b.tick tick
    have := mt (raise_eq_iff b.tick tick).mp hne
    omega
  | cancel handle state hd => exact h.remove handle.token
  | stale => exact h
  | poll _ target out hps =>
    rcases hps.induct (fun x hx _ hp _ => hx.advance hp) (fun x y ys d hx _ hp hd hlt => hx.pass hp hd hlt) h with
      ⟨-, hc, -⟩ | ⟨a, k, d, xs, ha, -, -, -, -, rfl, -⟩
    · exact hc
    · exact Ahead.remove (b := a.look) ⟨ha.due, ha.here⟩ k

end Ahead

/-! ## The law of a poll -/

/-- A poll hands out a timeout of the wheel's tick at most, and nothing is pending below
    that tick. -/
theorem Ahead.polls {target : Nat} {b c : Board T} {out : Option (Token × Nat × T)} (h : Ahead b)
    (hp : Board.Polls target b c out) :
    (out = none → ∀ k d, c.due k = some d → target < d.1) ∧
      ∀ f, out = some f → ∀ k d, c.due k = some d → f.2.1 ≤ d.1 := by
  rcases hp.induct (fun x hx _ hp _ => hx.advance hp) (fun x y ys d hx _ hp hd hlt => hx.pass hp hd hlt) h with
    ⟨rfl, hc, hlt⟩ | ⟨a, k, d, xs, ha, -, -, -, hd, rfl, rfl⟩
  · exact ⟨fun _ k d hk => Nat.lt_of_lt_of_le hlt (hc.due k d hk), fun f hf => by cases hf⟩
  · refine ⟨(fun ho => nomatch ho), fun f hf k' d' hk' => ?_⟩
    cases hf
    have hc := Ahead.remove (b := a.look) ⟨ha.due, ha.here⟩ k
    exact Nat.le_trans hd (hc.due k' d' hk')

/-- In a run with no timeout set at the wheel's current tick, a poll that returns nothing
    leaves nothing pending at or below its target, and one that returns a timeout leaves
    nothing pending before it. -/
theorem polls_ordered {τ : List (Call T)} {t t' : Timer T} {target : Nat} {out : Option (Token × Entry T)}
    (h : Run ((calls T).restrict NotNow) τ t) (hs : CallStep t (.pollTo target out) t') : Ordered t' target out := by
  obtain ⟨b, hr, hb⟩ := rep_inv (P := fun _ b => Ahead b) Ahead.init (fun _ _ _ _ _ hr h hC hm => h.move hr hC hm) h
  obtain ⟨c, hr', hm, -⟩ := move_of_call hr hs
  cases hm with
  | poll _ _ _ hps =>
    obtain ⟨h1, h2⟩ := hb.polls hps
    cases out with
    | none =>
      intro k e he
      have := h1 rfl k _ (hr'.due_of_entry he)
      simp only at this
      split at this
      · omega
      · exact this
    | some f => exact fun k e he => h2 (fire f) rfl k _ (hr'.due_of_entry he)

theorem polls_ordered_two_revolutions : ∃ (τ : List (Call Unit)) (t t' : Timer Unit) (f : Token × Entry Unit),
    Run ((calls Unit).restrict NotNow) τ t ∧ CallStep t (.pollTo 1 (some f)) t' ∧ f.2.links.tick = 1 ∧ (∃ e, t'.entries ⟨1⟩ = some e ∧ e.links.tick = 9) ∧
      Ordered t' 1 (some f) := by
  have h0 : Run ((calls Unit).restrict NotNow) [] ⟨1, fun _ => none, fun _ => ⟨TICK_MAX, EMPTY⟩, 0, EMPTY, 7⟩ :=
    .init ⟨1, 8, new_eight.symm⟩
  have h1 := h0.step ⟨.setTimeoutAt _ _ (.fromMillis 1 (by decide)) () ⟨0⟩ _ rfl (by decide)
    ((setTimeoutAt_eq () ⟨0⟩ (show durationToTick _ _ = .ok 1 from rfl) rfl).trans rfl), by decide⟩
  have h2 := h1.step ⟨.setTimeoutAt _ _ (.fromMillis 9 (by decide)) () ⟨1⟩ _ rfl (by decide)
    ((setTimeoutAt_eq () ⟨1⟩ (show durationToTick _ _ = .ok 9 from rfl) rfl).trans rfl), by decide⟩
  exact ⟨_, _, _, _, h2, .pollTo _ _ 4 _ _ rfl, rfl, ⟨_, rfl, rfl⟩, polls_ordered h2 (.pollTo _ _ 4 _ _ rfl)⟩

/-- A new timer, a timeout after 0 ms, a poll of tick 0: nothing fires. -/
theorem a_timeout_at_the_current_tick_is_missed : ¬ ∀ (τ : List (Call Unit)) (t t' : Timer Unit) (target : Nat)
    (out : Option (Token × Entry Unit)), Run (calls Unit) τ t → CallStep t (.pollTo target out) t' → Ordered t' target out := by
  intro h
  have h1 := run_new_eight.step (.setTimeoutAt _ _ (.fromMillis 0 (Nat.zero_le _)) () ⟨0⟩ _ rfl (by decide)
    ((setTimeoutAt_eq () ⟨0⟩ (show durationToTick _ _ = .ok 0 from rfl) rfl).trans rfl))
  exact Nat.lt_irrefl 0 (h _ _ _ 0 none h1 (.pollTo _ _ 2 _ _ rfl) ⟨0⟩ _ rfl)

end Sickle.Timers
