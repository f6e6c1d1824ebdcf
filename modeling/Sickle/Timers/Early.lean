/-
  Sickle.Timers.Early — how early a timeout can fire.

  `poll_to` raises its target to the wheel's own tick, and a poll that returns nothing
  leaves the wheel one tick past that. A poll that repeats an earlier target is therefore
  a poll of a later tick, and a timeout can fire before the tick it was set for:
  `a_repeated_poll_fires_early`.

  `fires_within` says what holds instead. Every timeout that fires was set, with the tick
  it fires with, and that tick is at most the greater of the target and the wheel's tick.
  With targets that never fall the wheel is ahead of the target by at most the number of
  polls that returned nothing, and when each target is past the targets of the polls that
  returned nothing it is not ahead at all.
-/

import Sickle.Timers.Calls

namespace Sickle.Timers

open Function (update)
open Sickle.Lib

variable {T : Type}

/-- The targets of two polls do not fall. -/
def NoFall (a b : Call T) : Prop :=
  match a, b with
  | .pollTo x _, .pollTo y _ => x ≤ y
  | _, _ => True

/-- They do not fall, and a target that returned nothing is not repeated. -/
def MovesOn (a b : Call T) : Prop :=
  match a, b with
  | .pollTo x none, .pollTo y _ => x < y
  | .pollTo x (some _), .pollTo y _ => x ≤ y
  | _, _ => True

def isIdle (c : Call T) : Bool :=
  match c with
  | .pollTo _ none => true
  | _ => false

/-- The number of polls that returned nothing. -/
def idlePolls (τ : List (Call T)) : Nat := τ.countP isIdle

/-! ## Polls and what is pending -/

theorem polls_due {target : Nat} {b c : Board T} {out : Option (Token × Nat × T)} (h : Board.Polls target b c out) :
    (∀ k d, c.due k = some d → b.due k = some d) ∧ ∀ k d, out = some (k, d) → b.due k = some d := by
  rcases h.due with ⟨rfl, hc⟩ | ⟨k, d, rfl, hd, hc⟩
  · exact ⟨fun k d hk => hc ▸ hk, fun k d ho => nomatch ho⟩
  · refine ⟨fun x e hx => ?_, fun x e ho => ?_⟩
    · rw [hc] at hx
      exact (Board.due_of_update hx).2
    · cases ho
      exact hd

/-- Everything pending was set, with the tick it is pending for. -/
def Known (τ : List (Call T)) (b : Board T) : Prop :=
  ∀ k d, b.due k = some d → ∃ delay, .setTimeoutAt delay d.2 ⟨k, d.1⟩ ∈ τ

theorem Known.move {τ : List (Call T)} {tickMs : Nat} {b b' : Board T} {c : Call T} (h : Known τ b) (hm : Move tickMs b c b') :
    Known (τ ++ [c]) b' := by
  have old : ∀ k d, b.due k = some d → ∃ delay, .setTimeoutAt delay d.2 ⟨k, d.1⟩ ∈ τ ++ [c] := by
    intro k d hk
    obtain ⟨delay, hd⟩ := h k d hk
    exact ⟨delay, List.mem_append_left _ hd⟩
  intro k d hk
  cases hm with
  | set delay state key tick hkey hd _ =>
    rcases Board.due_of_insert hk with ⟨rfl, rfl⟩ | hk
    · exact ⟨delay, by simp⟩
    · exact old k d hk
  | cancel handle state hd =>
    exact old k d (Board.due_of_remove hk).2
  | stale => exact old k d hk
  | poll _ target out hps => exact old k d ((polls_due hps).1 k d hk)

/-! ## How far the wheel is ahead -/

theorem idlePolls_snoc (τ : List (Call T)) (c : Call T) : idlePolls (τ ++ [c]) = idlePolls τ + if isIdle c then 1 else 0 := by
  simp [idlePolls, List.countP_append, List.countP_singleton]

/-- The wheel's tick is at most `n` ahead of any next target. -/
def Drift (τ : List (Call T)) (b : Board T) : Prop :=
  τ.Pairwise NoFall → ∀ target, (∀ a ∈ τ, NoFall a (.pollTo target none)) → b.tick ≤ target + idlePolls τ

theorem Drift.move {τ : List (Call T)} {tickMs : Nat} {b b' : Board T} {c : Call T} (h : Drift τ b) (hm : Move tickMs b c b') :
    Drift (τ ++ [c]) b' := by
  intro hpw target htg
  obtain ⟨hpw, -, hlast⟩ := List.pairwise_append.mp hpw
  have ih := fun tg htg => h hpw tg htg
  have htg' : ∀ a ∈ τ, NoFall a (.pollTo target none) := fun a ha => htg a (List.mem_append_left _ ha)
  have hnow := ih target htg'
  rw [idlePolls_snoc]
  cases hm with
  | set => show b.tick ≤ _; omega
  | cancel => show b.tick ≤ _; omega
  | stale => omega
  | poll _ tg out hps =>
    have hle : tg ≤ target := htg (.pollTo tg out) (by simp)
    have hb := ih tg fun a ha => by
      have := hlast a ha (.pollTo tg out) (by simp)
      cases a <;> exact this
    obtain ⟨-, h1, h2⟩ := hps.tick_le (by split <;> omega)
    cases out with
    | none =>
      have : (if tg < b.tick then b.tick else tg) ≤ tg + idlePolls τ := by split <;> omega
      simp only [isIdle, if_true]; omega
    | some f =>
      have h2 := h2 (by simp)
      have : (if tg < b.tick then b.tick else tg) ≤ tg + idlePolls τ := by split <;> omega
      omega

/-- The wheel is not past any next target. -/
def Behind (τ : List (Call T)) (b : Board T) : Prop :=
  τ.Pairwise MovesOn → ∀ target, (∀ a ∈ τ, MovesOn a (.pollTo target none)) → b.tick ≤ target

theorem Behind.move {τ : List (Call T)} {tickMs : Nat} {b b' : Board T} {c : Call T} (h : Behind τ b)
    (hm : Move tickMs b c b') : Behind (τ ++ [c]) b' := by
  intro hpw target htg
  obtain ⟨hpw, -, hlast⟩ := List.pairwise_append.mp hpw
  have ih := fun tg htg => h hpw tg htg
  have htg' : ∀ a ∈ τ, MovesOn a (.pollTo target none) := fun a ha => htg a (List.mem_append_left _ ha)
  cases hm with
  | set => exact ih target htg'
  | cancel => exact ih target htg'
  | stale => exact ih target htg'
  | poll _ tg out hps =>
    have hnext := htg (.pollTo tg out) (by simp)
    have hb := ih tg fun a ha => by
      have := hlast a ha (.pollTo tg out) (by simp)
      rcases a with _ | _ | ⟨x, _ | f⟩ <;> exact this
    obtain ⟨-, h1, h2⟩ := hps.tick_le (by split <;> omega)
    rw [if_neg (by omega)] at h1 h2
    cases out with
    | none =>
      change tg < target at hnext
      omega
    | some f =>
      change tg ≤ target at hnext
      have h2 := h2 (by simp)
      omega

/-! ## When a timeout fires -/

/-- A timeout that fires was set with its tick `k`, and `k` is at most the greater of the
    target and the wheel's tick. With targets that never fall the wheel's tick is at most
    the target and the polls that returned nothing; when a target that returned nothing
    is not repeated, `k` is at most the target. -/
theorem fires_within {τ : List (Call T)} {t t' : Timer T} {target : Nat} {fired : Token × Entry T}
    (h : Run (calls T) τ t) (hs : CallStep t (.pollTo target (some fired)) t') :
    (∃ delay, .setTimeoutAt delay fired.2.state ⟨fired.1, fired.2.links.tick⟩ ∈ τ) ∧
      fired.2.links.tick ≤ max target t.tick ∧
      ((τ ++ [Call.pollTo target (some fired)]).Pairwise NoFall → t.tick ≤ target + idlePolls τ) ∧
      ((τ ++ [Call.pollTo target (some fired)]).Pairwise MovesOn → fired.2.links.tick ≤ target) := by
  obtain ⟨b, hr, hk, hd, hb⟩ := rep_inv (C := fun _ _ => True) (P := fun τ b => Known τ b ∧ Drift τ b ∧ Behind τ b)
    (fun _ => ⟨(fun _ _ h => nomatch h), fun _ _ _ => Nat.zero_le _, fun _ _ _ => Nat.zero_le _⟩)
    (fun τ t b c b' _ hP _ hm => ⟨hP.1.move hm, hP.2.1.move hm, hP.2.2.move hm⟩) h.free
  obtain ⟨c, -, hm, -⟩ := move_of_call hr hs
  cases hm with
  | poll _ _ _ hps =>
    have hdue := (polls_due hps).2 _ _ rfl
    have hle : fired.2.links.tick ≤ if target < b.tick then b.tick else target := hps.some_due
    rw [hr.tick] at hle
    refine ⟨hk _ _ hdue, ?_, ?_, ?_⟩
    · split at hle <;> omega
    · intro hpw
      obtain ⟨hpw, -, hlast⟩ := List.pairwise_append.mp hpw
      rw [← hr.tick]
      refine hd hpw target fun a ha => ?_
      have := hlast a ha _ (List.mem_singleton.mpr rfl)
      cases a <;> exact this
    · intro hpw
      obtain ⟨hpw, -, hlast⟩ := List.pairwise_append.mp hpw
      have hbt := hb hpw target fun a ha => by
        have := hlast a ha _ (List.mem_singleton.mpr rfl)
        rcases a with _ | _ | ⟨x, _ | f⟩ <;> exact this
      rw [hr.tick] at hbt
      rw [if_neg (by omega)] at hle
      exact hle

theorem fires_within_one_tick : ∃ (τ : List (Call Unit)) (t t' : Timer Unit) (f : Token × Entry Unit),
    Run (calls Unit) τ t ∧ CallStep t (.pollTo 1 (some f)) t' ∧ f.2.links.tick ≤ 1 := by
  have h1 := run_new_eight.step (.setTimeoutAt _ _ (.fromMillis 1 (by decide)) () ⟨0⟩ _ rfl (by decide)
    ((setTimeoutAt_eq () ⟨0⟩ (show durationToTick _ _ = .ok 1 from rfl) rfl).trans rfl))
  exact ⟨_, _, _, _, h1, .pollTo _ _ 3 _ (some _) rfl,
    (fires_within h1 (.pollTo _ _ 3 1 (some _) rfl)).2.2.2 (by simp [MovesOn])⟩

/-- A timeout after 1 ms on a new timer, and the same target 0 polled twice. -/
theorem a_repeated_poll_fires_early : ¬ ∀ (τ : List (Call Unit)) (t t' : Timer Unit) (target : Nat) (f : Token × Entry Unit),
    Run (calls Unit) τ t → CallStep t (.pollTo target (some f)) t' →
    (τ ++ [Call.pollTo target (some f)]).Pairwise NoFall → f.2.links.tick ≤ target := by
  intro h
  have h1 := run_new_eight.step (.setTimeoutAt _ _ (.fromMillis 1 (by decide)) () ⟨0⟩ _ rfl (by decide)
    ((setTimeoutAt_eq () ⟨0⟩ (show durationToTick _ _ = .ok 1 from rfl) rfl).trans rfl))
  have h2 := h1.step (.pollTo _ _ 2 0 none rfl)
  have hf : 1 ≤ 0 := h _ _ _ 0 _ h2 (.pollTo _ _ 2 0 (some _) rfl) (by simp [NoFall])
  omega

end Sickle.Timers
