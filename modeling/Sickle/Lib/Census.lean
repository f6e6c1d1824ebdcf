/-
  Sickle.Lib.Census — how many threads are where.

  Each of any number of threads has a local state; `Census g pc W` says that the threads
  whose local state satisfies the test `g` are those of the finite set `W`. When one
  thread moves, `W` stays, gains it or loses it, and its size changes by that much.
-/

import Mathlib.Data.Finset.Card
import Mathlib.Logic.Function.Basic

namespace Sickle.Lib

open Function (update)

variable {ι σ : Type*}

def Census (g : σ → Bool) (pc : ι → σ) (W : Finset ι) : Prop := ∀ i, i ∈ W ↔ g (pc i) = true

namespace Census

variable {g : σ → Bool} {pc : ι → σ} {W : Finset ι}

theorem none (h : ∀ i, g (pc i) = false) : Census g pc ∅ := by
  intro i
  simp [h i]

theorem card_pos (h : Census g pc W) {i : ι} (hi : g (pc i) = true) : 0 < W.card :=
  Finset.card_pos.mpr ⟨i, (h i).mpr hi⟩

/-- Where there is at most one, any two are the same. -/
theorem unique (h : Census g pc W) (hW : W.card ≤ 1) {i j : ι} (hi : g (pc i) = true) (hj : g (pc j) = true) : i = j :=
  Finset.card_le_one.mp hW i ((h i).mpr hi) j ((h j).mpr hj)

variable [DecidableEq ι]

theorem stay (h : Census g pc W) {i : ι} {x : σ} (hx : g x = g (pc i)) : Census g (update pc i x) W := by
  intro j
  by_cases e : j = i
  · subst e
    rw [Function.update_self, hx]
    exact h j
  · rw [Function.update_of_ne e]
    exact h j

theorem enter (h : Census g pc W) {i : ι} {x : σ} (hold : g (pc i) = false) (hnew : g x = true) :
    ∃ W', Census g (update pc i x) W' ∧ W'.card = W.card + 1 := by
  have hi : i ∉ W := by
    intro hm
    rw [(h i).mp hm] at hold
    cases hold
  refine ⟨insert i W, fun j => ?_, Finset.card_insert_of_notMem hi⟩
  by_cases e : j = i
  · subst e
    simp [hnew]
  · rw [Function.update_of_ne e, Finset.mem_insert]
    exact (or_iff_right e).trans (h j)

theorem leave (h : Census g pc W) {i : ι} {x : σ} (hold : g (pc i) = true) (hnew : g x = false) :
    ∃ W', Census g (update pc i x) W' ∧ W'.card + 1 = W.card := by
  refine ⟨W.erase i, fun j => ?_, Finset.card_erase_add_one ((h i).mpr hold)⟩
  by_cases e : j = i
  · subst e
    simp [hnew]
  · rw [Function.update_of_ne e, Finset.mem_erase]
    exact (and_iff_right e).trans (h j)

end Census

end Sickle.Lib
