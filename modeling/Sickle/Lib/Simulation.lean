/-
  Sickle.Lib.Simulation — runs of one system read as runs of another.

  - `Simulates.run`: where every step of `S` is, under a relation of the states, a step of
    `T` with the same label, every run of `S` is one of `T`.
  - `Functional.run`: where a request has one answer and one effect, what was requested
    determines the whole run.
  - `Functional.alike`: two systems simulated by one functional system answer the same
    requests alike.
  - `Run.coarse`: a component that takes some steps at every step of a system, or none,
    runs as it does alone.
  - `Path.follow`: so it does along a path, where the two are tied by a relation.
-/

import Sickle.Lib.Run

namespace Sickle.Lib

universe u u' u'' v w

variable {σ : Type u} {σ' : Type u'} {σ'' : Type u''} {ε : Type v} {κ : Type w}

structure Simulates (S : Lts σ ε) (T : Lts σ' ε) (R : σ → σ' → Prop) : Prop where
  init : ∀ s, S.init s → ∃ t, T.init t ∧ R s t
  step : ∀ s t e s', R s t → S.step s e s' → ∃ t', T.step t e t' ∧ R s' t'

theorem Simulates.run {S : Lts σ ε} {T : Lts σ' ε} {R : σ → σ' → Prop} (h : Simulates S T R) {τ : List ε} {s : σ}
    (hr : Run S τ s) : ∃ t, Run T τ t ∧ R s t := by
  induction hr with
  | init hi =>
    obtain ⟨t, ht, hR⟩ := h.init _ hi
    exact ⟨t, .init ht, hR⟩
  | step _ he ih =>
    obtain ⟨t, ht, hR⟩ := ih
    obtain ⟨t', he', hR'⟩ := h.step _ t _ _ hR he
    exact ⟨t', ht.step he', hR'⟩

/-- `ask` is the part of a label that is not the system's to choose. -/
structure Functional (S : Lts σ ε) (ask : ε → κ) : Prop where
  init : ∀ s t, S.init s → S.init t → s = t
  step : ∀ s e e' t t', S.step s e t → S.step s e' t' → ask e = ask e' → e = e' ∧ t = t'

theorem Functional.run {S : Lts σ ε} {ask : ε → κ} (h : Functional S ask) {τ τ' : List ε} {s t : σ} (hs : Run S τ s)
    (ht : Run S τ' t) (he : τ.map ask = τ'.map ask) : τ = τ' ∧ s = t := by
  induction hs generalizing τ' t with
  | init hi =>
    cases ht with
    | init hi' => exact ⟨rfl, h.init _ _ hi hi'⟩
    | step => simp at he
  | step hr hst ih =>
    cases ht with
    | init => simp at he
    | step hr' hst' =>
      rw [List.map_append, List.map_append] at he
      obtain ⟨he, hlast⟩ := List.append_inj' he rfl
      obtain ⟨rfl, rfl⟩ := ih hr' he
      obtain ⟨rfl, rfl⟩ := h.step _ _ _ _ _ hst hst' (by simpa using hlast)
      exact ⟨rfl, rfl⟩

theorem Functional.alike {S : Lts σ ε} {S' : Lts σ' ε} {T : Lts σ'' ε} {R : σ → σ'' → Prop} {R' : σ' → σ'' → Prop} {ask : ε → κ}
    (h : Functional T ask) (hS : Simulates S T R) (hS' : Simulates S' T R') {τ τ' : List ε} {s : σ} {s' : σ'}
    (hs : Run S τ s) (hs' : Run S' τ' s') (he : τ.map ask = τ'.map ask) : τ = τ' := by
  obtain ⟨t, ht, -⟩ := hS.run hs
  obtain ⟨t', ht', -⟩ := hS'.run hs'
  exact (h.run ht ht' he).1

theorem Run.coarse {σ' ε' : Type*} {S : Lts σ ε} {T : Lts σ' ε'} (π : σ → σ') (h0 : ∀ s, S.init s → T.init (π s))
    (hs : ∀ s e s', S.step s e s' → ∃ p, Path T (π s) p (π s')) {τ : List ε} {s : σ} (h : Run S τ s) : ∃ τ', Run T τ' (π s) := by
  induction h with
  | init hi => exact ⟨[], .init (h0 _ hi)⟩
  | step _ he ih =>
    obtain ⟨τ', hr⟩ := ih
    obtain ⟨p, hp⟩ := hs _ _ _ he
    exact ⟨_, hp.run hr⟩

theorem Path.follow {σ' ε' : Type*} {S : Lts σ ε} {T : Lts σ' ε'} {R : σ → σ' → Prop}
    (hstep : ∀ s t e s', R s t → S.step s e s' → ∃ q t', Path T t q t' ∧ R s' t') {s s' : σ} {p : List (ε × σ)} {t : σ'}
    (h : Path S s p s') (hR : R s t) : ∃ q t', Path T t q t' ∧ R s' t' := by
  induction h with
  | nil => exact ⟨[], t, .nil, hR⟩
  | step _ he ih =>
    obtain ⟨q, t', hq, hR'⟩ := ih
    obtain ⟨q', t'', hq', hR''⟩ := hstep _ _ _ _ hR' he
    exact ⟨_, t'', hq.trans hq', hR''⟩

end Sickle.Lib
