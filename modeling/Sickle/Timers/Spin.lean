/-
  Sickle.Timers.Spin — an idle loop is not woken for a slot it has finished.

  After a `poll_to` that returns nothing the timer asks to be woken at `next_tick()`, the
  least of the bounds cached in the slots. A bound is reset when a slot is loaded empty
  or when the cursor stands on the head of its list; a slot that is already loaded and
  gets a new head, or loses its only entry, is finished with the bound of the tick it was
  loaded for, and then `next_tick` lies in the past for a whole revolution
  (`a_cancelled_head_spins`).

  `no_spin`: in a run whose calls leave the bound of a loaded slot alone (`KeepsBound`)
  the next tick is past the target. The invariant is `Fresh`: no bound lies below the
  wheel's tick, and the current slot's bound is the tick itself only while the cursor is
  still at the head of a list.
-/

import Sickle.Timers.Calls

namespace Sickle.Timers

open Function (update)
open Sickle.Lib

variable {T : Type}

/-- While the bound of the loaded slot is the wheel's tick, no timeout goes to the head of
    its list and the only timeout in it, under the cursor, is not cancelled; and no
    timeout is set at the wheel's tick. -/
def KeepsBound (t : Timer T) (c : Call T) : Prop :=
  match c with
  | .setTimeoutAt d _ _ => ∀ tick k, durationToTick d t.tickMs = .ok tick → t.clampTick tick = .ok k →
      ¬ (t.slotFor k = t.slotFor t.tick ∧ (k = t.tick ∨ (t.wheel (t.slotFor t.tick)).nextTick = t.tick))
  | .cancelTimeout h _ => ∀ e, t.entries h.token = some e → e.links.tick = h.tick →
      ¬ (h.token = t.next ∧ e.links.prev = EMPTY ∧ e.links.next = EMPTY ∧
        (t.wheel (t.slotFor t.tick)).nextTick = t.tick)
  | .pollTo .. => True

/-! ## The bounds -/

structure Fresh (b : Board T) : Prop where
  top : b.tick ≤ TICK_MAX
  le : ∀ s, b.tick ≤ b.bound s
  home : ∀ s, b.bound s = TICK_MAX ∨ b.slot (b.bound s) = s
  loaded : b.bound (b.slot b.tick) = b.tick → b.tick = TICK_MAX ∨ (b.pre = [] ∧ b.post ≠ [])

namespace Fresh

variable {b : Board T}

theorem init (slot : Nat → Nat) : Fresh (Board.init slot : Board T) where
  top := Nat.zero_le _
  le _ := Nat.zero_le _
  home _ := .inl rfl
  loaded h := by cases h

theorem insert (h : Fresh b) {key : Token} {k : Nat} (state : T) (hk : b.due key = none) (hle : b.tick ≤ k)
    (hC : ¬ (b.slot k = b.slot b.tick ∧ (k = b.tick ∨ b.bound (b.slot b.tick) = b.tick))) :
    Fresh (b.insert key k state hk) := by
  constructor
  · exact h.top
  · intro s
    show b.tick ≤ update b.bound (b.slot k) _ s
    by_cases e : s = b.slot k
    · subst e; rw [Function.update_self]; exact Nat.le_min.mpr ⟨hle, h.le _⟩
    · rw [Function.update_of_ne e]; exact h.le s
  · intro s
    show update b.bound (b.slot k) _ s = TICK_MAX ∨ b.slot (update b.bound (b.slot k) _ s) = s
    by_cases e : s = b.slot k
    · subst e
      rw [Function.update_self]
      rcases Nat.le_total k (b.bound (b.slot k)) with hm | hm
      · rw [Nat.min_eq_left hm]; exact .inr rfl
      · rw [Nat.min_eq_right hm]; exact h.home _
    · rw [Function.update_of_ne e]; exact h.home s
  · show update b.bound (b.slot k) _ (b.slot b.tick) = b.tick → b.tick = TICK_MAX ∨
      ((if b.slot k = b.slot b.tick then key :: b.pre else b.pre) = [] ∧ b.post ≠ [])
    intro hb
    by_cases e : b.slot k = b.slot b.tick
    · rw [← e, Function.update_self] at hb
      refine absurd ⟨e, ?_⟩ hC
      rw [← e]; omega
    · rw [Function.update_of_ne (Ne.symm e)] at hb
      rw [if_neg e]; exact h.loaded hb

/-- A timeout is taken out, unless it is the last one of a list not yet looked at. -/
theorem remove (h : Fresh b) {k : Token}
    (hC : b.bound (b.slot b.tick) = b.tick → b.tick = TICK_MAX ∨ ¬ (b.pre = [] ∧ b.post = [k])) : Fresh (b.remove k) := by
  refine ⟨h.top, h.le, h.home, fun hb => ?_⟩
  change b.bound (b.slot b.tick) = b.tick at hb
  show b.tick = TICK_MAX ∨ (b.pre.filter (· ≠ k) = [] ∧ b.post.filter (· ≠ k) ≠ [])
  rcases hC hb with hm | hC
  · exact .inl hm
  rcases h.loaded hb with hm | ⟨hpre, hpost⟩
  · exact .inl hm
  refine .inr ⟨by rw [hpre]; rfl, fun hf => hC ⟨hpre, ?_⟩⟩
  have hall : ∀ x ∈ b.post, x = k := by
    intro x hx
    have := List.filter_eq_nil_iff.mp hf x hx
    simpa using this
  have hnd := (List.nodup_append.mp b.here_nodup).2.1
  cases hp : b.post with
  | nil => exact absurd hp hpost
  | cons x xs =>
    rw [hp] at hall hnd
    obtain rfl := hall x (List.mem_cons_self ..)
    cases xs with
    | nil => rfl
    | cons y ys =>
      have hy := hall y (List.mem_cons_of_mem _ (List.mem_cons_self ..))
      exact absurd (by rw [hy]; exact List.mem_cons_self ..) (List.nodup_cons.mp hnd).1

/-- A slot is left with no bound at the tick left behind. -/
theorem advance (h : Fresh b) (hp : b.post = []) (hmax : b.tick ≠ U64_MAX) : Fresh b.advance := by
  have hne : ∀ s, b.bound s ≠ b.tick := by
    intro s hs
    rcases h.home s with hm | hh
    · exact hmax (hs.symm.trans hm)
    · rw [hs] at hh
      rcases h.loaded (by rw [hh]; exact hs) with hm | ⟨-, hpost⟩
      · exact hmax hm
      · exact hpost hp
  have hle : ∀ s, b.tick + 1 ≤ b.bound s := fun s => Nat.lt_of_le_of_ne (h.le s) (hne s).symm
  have htop : b.tick + 1 ≤ TICK_MAX := Nat.lt_of_le_of_ne h.top hmax
  constructor
  · exact htop
  · intro s
    show b.tick + 1 ≤ (if _ then _ else _ : Nat → Nat) s
    by_cases hl : b.list (b.slot (b.tick + 1)) = []
    · rw [if_pos hl]
      by_cases e : s = b.slot (b.tick + 1)
      · subst e; rw [Function.update_self]; exact htop
      · rw [Function.update_of_ne e]; exact hle s
    · rw [if_neg hl]; exact hle s
  · intro s
    show (if _ then _ else _ : Nat → Nat) s = TICK_MAX ∨ b.slot ((if _ then _ else _ : Nat → Nat) s) = s
    by_cases hl : b.list (b.slot (b.tick + 1)) = []
    · rw [if_pos hl]
      by_cases e : s = b.slot (b.tick + 1)
      · subst e; rw [Function.update_self]; exact .inl rfl
      · rw [Function.update_of_ne e]; exact h.home s
    · rw [if_neg hl]; exact h.home s
  · show (if _ then _ else _ : Nat → Nat) (b.slot (b.tick + 1)) = b.tick + 1 →
      b.tick + 1 = TICK_MAX ∨ (([] : List Token) = [] ∧ b.list (b.slot (b.tick + 1)) ≠ [])
    intro hb
    by_cases hl : b.list (b.slot (b.tick + 1)) = []
    · rw [if_pos hl, Function.update_self] at hb; exact .inl hb.symm
    · exact .inr ⟨rfl, hl⟩

/-- Looking at the timeout under the cursor leaves no bound at the wheel's tick. -/
theorem look (h : Fresh b) : b.tick ≤ TICK_MAX ∧ (∀ s, b.tick ≤ b.look.bound s) ∧
    (∀ s, b.look.bound s = TICK_MAX ∨ b.slot (b.look.bound s) = s) ∧
    (b.look.bound (b.slot b.tick) = b.tick → b.tick = TICK_MAX) := by
  have hlook : b.look.bound = if b.pre = [] then update b.bound (b.slot b.tick) TICK_MAX else b.bound := rfl
  rw [hlook]
  by_cases hpre : b.pre = []
  · rw [if_pos hpre]
    refine ⟨h.top, fun s => ?_, fun s => ?_, fun hb => ?_⟩
    · by_cases e : s = b.slot b.tick
      · subst e; rw [Function.update_self]; exact h.top
      · rw [Function.update_of_ne e]; exact h.le s
    · by_cases e : s = b.slot b.tick
      · subst e; rw [Function.update_self]; exact .inl rfl
      · rw [Function.update_of_ne e]; exact h.home s
    · rw [Function.update_self] at hb; exact hb.symm
  · rw [if_neg hpre]
    exact ⟨h.top, h.le, h.home, fun hb => (h.loaded hb).resolve_right fun hl => hpre hl.1⟩

theorem pass (h : Fresh b) {x : Token} {xs : List Token} {d : Nat × T} (hp : b.post = x :: xs) (hx : b.due x = some d)
    (hlt : b.tick < d.1) : Fresh (b.pass d.1) := by
  obtain ⟨htop, hle, hhome, hnow⟩ := h.look
  have hslot : b.slot d.1 = b.slot b.tick := by
    obtain ⟨d', hd', hs⟩ := b.due_of_mem_post (hp ▸ List.mem_cons_self ..)
    rw [hx, Option.some.injEq] at hd'
    subst hd'; exact hs
  refine ⟨htop, fun s => ?_, fun s => ?_, fun hb => .inl ?_⟩
  · show b.tick ≤ update b.look.bound (b.slot b.tick) _ s
    by_cases e : s = b.slot b.tick
    · subst e; rw [Function.update_self]; exact Nat.le_min.mpr ⟨hle _, Nat.le_of_lt hlt⟩
    · rw [Function.update_of_ne e]; exact hle s
  · show update b.look.bound (b.slot b.tick) _ s = TICK_MAX ∨ b.slot (update b.look.bound (b.slot b.tick) _ s) = s
    by_cases e : s = b.slot b.tick
    · subst e
      rw [Function.update_self]
      rcases Nat.le_total (b.look.bound (b.slot b.tick)) d.1 with hm | hm
      · rw [Nat.min_eq_left hm]; exact hhome _
      · rw [Nat.min_eq_right hm]; exact .inr hslot
    · rw [Function.update_of_ne e]; exact hhome s
  · change update b.look.bound (b.slot b.tick) (min (b.look.bound (b.slot b.tick)) d.1) (b.slot b.tick) = b.tick at hb
    rw [Function.update_self] at hb
    exact hnow (by omega)

theorem fire (h : Fresh b) (k : Token) : Fresh (b.look.remove k) := by
  obtain ⟨htop, hle, hhome, hnow⟩ := h.look
  exact ⟨htop, hle, hhome, fun hb => .inl (hnow hb)⟩

theorem polls {target : Nat} {c : Board T} {out : Option (Token × Nat × T)} (h : Fresh b) (hp : Board.Polls target b c out) :
    Fresh c := by
  rcases hp.induct (fun x hx _ hp hm => hx.advance hp hm) (fun x y ys d hx _ hp hd hlt => hx.pass hp hd hlt) h with
    ⟨-, hc, -⟩ | ⟨a, k, d, xs, ha, -, -, -, -, rfl, -⟩
  · exact hc
  · exact ha.fire k

theorem move (h : Fresh b) {t : Timer T} {b' : Board T} {c : Call T} (hr : Rep t b) (hC : KeepsBound t c)
    (hm : Move t.tickMs b c b') : Fresh b' := by
  cases hm with
  | set d state key tick hk hd hmax =>
    refine h.insert state hk (raise_ge b.tick tick).1 ?_
    rw [hr.tick] at hmax ⊢
    rw [hr.slot, ← hr.bound]
    exact hC tick _ hd (clampTick_ok.mpr ⟨hmax, rfl⟩)
  | cancel handle state hd =>
    refine h.remove fun hb => .inr ?_
    intro hx
    obtain ⟨hpre, hpost⟩ := hx
    obtain ⟨e, he, het, -⟩ := hr.entry_of_due hd
    -- the key is alone in the list, so it has no neighbours
    have hseg := hr.seg (b.slot b.tick)
    rw [b.split, hpre, hpost] at hseg
    have hlinks := hseg.1
    rw [lk, he, Option.map_some, Option.some.injEq, Prod.mk.injEq] at hlinks
    refine hC e he het ⟨?_, hlinks.1, hlinks.2, ?_⟩
    · rw [hr.next, hpost]; rfl
    · rw [hr.bound, ← hr.tick, ← hr.slot]; exact hb
  | stale => exact h
  | poll _ target out hps => exact h.polls hps

end Fresh

/-! ## The next tick -/

/-- In a run whose calls keep the bounds, a poll of a target at or past the wheel's tick
    that returns nothing asks to be woken after its target. -/
theorem no_spin {τ : List (Call T)} {t t' : Timer T} {target : Nat} (h : Run ((calls T).restrict KeepsBound) τ t)
    (hs : CallStep t (.pollTo target none) t') (htick : t.tick ≤ target) :
    ∃ v, t'.nextTick = .ok (some v) ∧ target < v := by
  obtain ⟨b, hr, hb⟩ := rep_inv (P := fun _ b => Fresh b) Fresh.init (fun _ _ _ _ _ hr h hC hm => h.move hr hC hm) h
  obtain ⟨c, hr', hm, -⟩ := move_of_call hr hs
  cases hm with
  | poll _ _ _ hps =>
    rw [if_neg (by rw [hr.tick]; omega)] at hps
    have hc := hps.none_tick (by rw [hr.tick]; omega)
    obtain ⟨s, hs⟩ := nextTick_rep hr'
    have hle := (hb.polls hps).le s
    exact ⟨_, hs, by omega⟩

theorem no_spin_one_timeout : ∃ (τ : List (Call Unit)) (t t' : Timer Unit), Run ((calls Unit).restrict KeepsBound) τ t ∧
    CallStep t (.pollTo 3 none) t' ∧ (∃ e, t'.entries ⟨0⟩ = some e) ∧ ∃ v, t'.nextTick = .ok (some v) ∧ 3 < v := by
  have h0 : Run ((calls Unit).restrict KeepsBound) [] ⟨1, fun _ => none, fun _ => ⟨TICK_MAX, EMPTY⟩, 0, EMPTY, 7⟩ :=
    .init ⟨1, 8, new_eight.symm⟩
  have h1 := h0.step ⟨.setTimeoutAt _ _ (.fromMillis 5 (by decide)) () ⟨0⟩ _ rfl (by decide)
    ((setTimeoutAt_eq () ⟨0⟩ (show durationToTick _ _ = .ok 5 from rfl) rfl).trans rfl), by
      intro tick k hd hk
      obtain rfl : (5 : Nat) = tick := Except.ok.inj hd
      obtain rfl : (5 : Nat) = k := Except.ok.inj hk
      decide⟩
  exact ⟨_, _, _, h1, .pollTo _ _ 5 _ none rfl, ⟨_, rfl⟩, no_spin h1 (.pollTo _ _ 5 3 none rfl) (by decide)⟩

/-- A timeout after 1 ms; tick 0 polled, which loads its slot; the timeout cancelled; tick
    1 polled: the next tick is 1. -/
theorem a_cancelled_head_spins : ¬ ∀ (τ : List (Call Unit)) (t t' : Timer Unit) (target : Nat), Run (calls Unit) τ t →
    CallStep t (.pollTo target none) t' → t.tick ≤ target → target < U64_MAX →
    ∃ v, t'.nextTick = .ok (some v) ∧ target < v := by
  intro h
  have h1 := run_new_eight.step (.setTimeoutAt _ _ (.fromMillis 1 (by decide)) () ⟨0⟩ _ rfl (by decide)
    ((setTimeoutAt_eq () ⟨0⟩ (show durationToTick _ _ = .ok 1 from rfl) rfl).trans rfl))
  have h2 := h1.step (.pollTo _ _ 2 0 none rfl)
  have h3 := h2.step (.cancelTimeout _ _ ⟨⟨0⟩, 1⟩ (some ()) rfl)
  obtain ⟨v, hv, hlt⟩ := h _ _ _ 1 h3 (.pollTo _ _ 2 1 none rfl) (by decide) (by decide)
  obtain rfl : (1 : Nat) = v := Option.some.inj (Except.ok.inj hv)
  omega

end Sickle.Timers
