/-
  Sickle.Lib.Run — runs of a labelled transition system.

  A run is the list of its labels, oldest first, together with the state it leads to.
  What a step reads and answers is in its label, so a law about a history (what was
  returned, in which order) is a law about the label list, and a law about a state is
  one that ignores it.

  - `Run.inv` / `Run.inv_trace`: what holds initially and is kept by every step holds
    after every run.
  - `Lts.restrict`: the same system with every step held to a condition on the state
    before it and its label; its runs are the runs whose steps all meet the condition.
  - `Run.project`: a component of a system runs as it does alone.
  - `Run.since`: what holds from a marked step on, until a step that breaks it.
  - `Run.split`: a run up to one of its steps, and that step.
  - `Path`: steps from a state, each with the state it leads to, for laws about what holds
    at some moment; `Path.inv_run`: its invariant rule, after a run.
-/

import Mathlib.Data.List.Basic

namespace Sickle.Lib

universe u v

structure Lts (σ : Type u) (ε : Type v) where
  init : σ → Prop
  step : σ → ε → σ → Prop

variable {σ : Type u} {ε : Type v}

inductive Run (S : Lts σ ε) : List ε → σ → Prop
  | init {s : σ} : S.init s → Run S [] s
  | step {τ : List ε} {s s' : σ} {e : ε} : Run S τ s → S.step s e s' → Run S (τ ++ [e]) s'

/-- `S` with its steps held to `C`, a condition on the state before and the label. -/
def Lts.restrict (S : Lts σ ε) (C : σ → ε → Prop) : Lts σ ε where
  init := S.init
  step s e s' := S.step s e s' ∧ C s e

/-! ## Places in a history -/

theorem getElem?_lt {xs : List ε} {y : ε} {n : Nat} (h : xs[n]? = some y) : n < xs.length := by
  by_contra hn
  rw [List.getElem?_eq_none (Nat.le_of_not_lt hn)] at h
  cases h

theorem getElem?_old {xs : List ε} {x y : ε} {n : Nat} (h : xs[n]? = some y) : (xs ++ [x])[n]? = some y := by
  rw [List.getElem?_append_left (getElem?_lt h)]
  exact h

theorem getElem?_concat {xs : List ε} {x y : ε} {n : Nat} (h : (xs ++ [x])[n]? = some y) :
    xs[n]? = some y ∨ (n = xs.length ∧ x = y) := by
  rcases Nat.lt_trichotomy n xs.length with hlt | heq | hgt
  · rw [List.getElem?_append_left hlt] at h
    exact .inl h
  · subst heq
    rw [List.getElem?_concat_length] at h
    exact .inr ⟨rfl, Option.some.inj h⟩
  · rw [List.getElem?_eq_none (by rw [List.length_append]; exact hgt)] at h
    cases h

/-- What is not the last step was there before it. -/
theorem mem_of_concat {xs : List ε} {x y : ε} (h : y ∈ xs ++ [x]) (hne : x ≠ y) : y ∈ xs :=
  (List.mem_append.mp h).resolve_right fun hy => hne (List.mem_singleton.mp hy).symm

namespace Run

variable {S : Lts σ ε}

theorem inv_trace {P : List ε → σ → Prop} (h0 : ∀ s, S.init s → P [] s)
    (hs : ∀ τ s e s', Run S τ s → P τ s → S.step s e s' → P (τ ++ [e]) s') :
    ∀ {τ s}, Run S τ s → P τ s := by
  intro τ s h
  induction h with
  | init hi => exact h0 _ hi
  | step hr he ih => exact hs _ _ _ _ hr ih he

theorem inv {P : σ → Prop} (h0 : ∀ s, S.init s → P s) (hs : ∀ s e s', P s → S.step s e s' → P s') :
    ∀ {τ s}, Run S τ s → P s := by
  intro τ s h
  exact inv_trace (P := fun _ s => P s) h0 (fun _ _ _ _ _ ih he => hs _ _ _ ih he) h

/-- What a marked step establishes and every step but a breaking one keeps, holds for as
    long as no step since the mark breaks it. -/
theorem since {P : σ → Prop} (mark breaks : ε → Prop)
    (start : ∀ τ s e s', Run S τ s → S.step s e s' → mark e → P s')
    (keep : ∀ τ s e s', Run S τ s → P s → S.step s e s' → ¬ breaks e → P s') {τ₁ τ₂ : List ε} {m : ε} {s : σ}
    (h : Run S (τ₁ ++ m :: τ₂) s) (hm : mark m) (hb : ∀ e ∈ τ₂, ¬ breaks e) : P s := by
  generalize hτ : τ₁ ++ m :: τ₂ = τ at h
  induction h generalizing τ₂ with
  | init => simp at hτ
  | @step τ s s' e hr he ih =>
    rcases List.eq_nil_or_concat' τ₂ with rfl | ⟨τ₂, e', rfl⟩
    · obtain ⟨-, hτ⟩ := List.append_inj' hτ rfl
      obtain rfl : m = e := by simpa using hτ
      exact start _ _ _ _ hr he hm
    · rw [← List.cons_append, ← List.append_assoc] at hτ
      obtain ⟨hpre, he'⟩ := List.append_inj' hτ rfl
      obtain rfl : e' = e := by simpa using he'
      have hb' : ∀ x ∈ τ₂, ¬ breaks x := fun x hx => hb x (List.mem_append_left _ hx)
      exact keep _ _ _ _ hr (ih hb' hpre) he (hb _ (by simp))

/-- A system whose every step is a step of another, seen through `π`, or none, has only
    runs of the other. -/
theorem project {σ' ε' : Type*} {T : Lts σ' ε'} (π : σ → σ') (h0 : ∀ s, S.init s → T.init (π s))
    (hs : ∀ s e s', S.step s e s' → (∃ e', T.step (π s) e' (π s')) ∨ π s' = π s) {τ : List ε} {s : σ} (h : Run S τ s) :
    ∃ τ', Run T τ' (π s) := by
  induction h with
  | init hi => exact ⟨[], .init (h0 _ hi)⟩
  | step _ he ih =>
    obtain ⟨τ', hr⟩ := ih
    rcases hs _ _ _ he with ⟨e', he'⟩ | heq
    · exact ⟨_, hr.step he'⟩
    · rw [heq]
      exact ⟨τ', hr⟩

/-- The `m`-th step of a run is taken after its first `m` steps. -/
theorem split {τ : List ε} {s : σ} {m : Nat} {e : ε} (h : Run S τ s) (he : τ[m]? = some e) :
    ∃ s₁ s₂, Run S (τ.take m) s₁ ∧ S.step s₁ e s₂ := by
  induction h with
  | init => simp at he
  | @step τ s s' e' hr hs ih =>
    rcases getElem?_concat he with he | ⟨rfl, rfl⟩
    · rw [List.take_append_of_le_length (Nat.le_of_lt (getElem?_lt he))]
      exact ih he
    · rw [List.take_left]
      exact ⟨s, s', hr, hs⟩

/-- Steps held to a condition are steps. -/
theorem of_restrict {C : σ → ε → Prop} {τ : List ε} {s : σ} (h : Run (S.restrict C) τ s) : Run S τ s := by
  induction h with
  | init hi => exact .init hi
  | step _ he ih => exact .step ih he.1

theorem free {τ : List ε} {s : σ} (h : Run S τ s) : Run (S.restrict fun _ _ => True) τ s := by
  induction h with
  | init hi => exact .init hi
  | step _ he ih => exact .step ih ⟨he, trivial⟩

end Run

/-! ## Paths -/

/-- Steps from `s`: the label of each, with the state it leads to. -/
inductive Path (S : Lts σ ε) (s : σ) : List (ε × σ) → σ → Prop
  | nil : Path S s [] s
  | step {p : List (ε × σ)} {s' s'' : σ} {e : ε} : Path S s p s' → S.step s' e s'' → Path S s (p ++ [(e, s'')]) s''

/-- At some moment of the path. -/
def Sometime (P : σ → Prop) (s : σ) (p : List (ε × σ)) : Prop := P s ∨ ∃ x ∈ p, P x.2

theorem Sometime.more {P : σ → Prop} {s : σ} {p : List (ε × σ)} (h : Sometime P s p) (x : ε × σ) : Sometime P s (p ++ [x]) :=
  h.imp id fun ⟨y, hy, hP⟩ => ⟨y, List.mem_append_left _ hy, hP⟩

namespace Path

variable {S : Lts σ ε}

theorem after {s s' : σ} {e : ε} (_ : S.step s e s') : Path S s' [] s' := .nil

/-- A run goes on along a path. -/
theorem run {τ : List ε} {s s' : σ} {p : List (ε × σ)} (h : Path S s p s') (hr : Run S τ s) : Run S (τ ++ p.map Prod.fst) s' := by
  induction h with
  | nil => rwa [List.map_nil, List.append_nil]
  | step _ he ih =>
    rw [List.map_append, List.map_singleton, ← List.append_assoc]
    exact ih.step he

theorem inv_run {τ : List ε} {s s' : σ} {p : List (ε × σ)} {P : List (ε × σ) → σ → Prop} (h : Path S s p s') (hr : Run S τ s)
    (h0 : P [] s) (hs : ∀ p t e t', Run S (τ ++ p.map Prod.fst) t → Path S s p t → P p t → S.step t e t' → P (p ++ [(e, t')]) t') :
    P p s' := by
  induction h with
  | nil => exact h0
  | step hp he ih => exact hs _ _ _ _ (hp.run hr) hp ih he

theorem trans {s s' s'' : σ} {p q : List (ε × σ)} (h : Path S s p s') (h' : Path S s' q s'') : Path S s (p ++ q) s'' := by
  induction h' with
  | nil => rwa [List.append_nil]
  | step _ he ih =>
    rw [← List.append_assoc]
    exact ih.step he

end Path

end Sickle.Lib
