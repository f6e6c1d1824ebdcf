/-
  Sickle.Lib.Locks — one thread and the mutexes it holds.

  A mutex keeps out its own holder as well: a thread that locks what it holds does not
  come back. What the thread runs is a program over its state that knows which mutexes
  are held; `withLock` is the scope of a guard. A callback that runs inside such a scope
  and locks its way back to the same mutex is found by running the program.

  `Wp` is the weakest precondition, with a postcondition for the ways to stop. Each
  operation has a rule, an equivalence, so that a program without loops is run by `simp`.
-/

import Mathlib.Logic.Basic

namespace Sickle.Lib

/-- Why a thread does not go on. -/
inductive Stop where
  /-- It locked a mutex that it held. -/
  | deadlock
  | panic
  deriving DecidableEq, Repr

/-- Over the mutexes held and the state. -/
abbrev Guarded (L S : Type) : Type → Type := ReaderT (List L) (StateT S (Except Stop))

namespace Guarded

variable {L S α β : Type}

def withLock [DecidableEq L] (m : L) (p : Guarded L S α) : Guarded L S α := fun held s =>
  if m ∈ held then .error .deadlock else p (m :: held) s

def stop (e : Stop) : Guarded L S α := fun _ _ => .error e

/-- Every way the program ends is fine: with a result in `post`, or stopped in `stopped`. -/
def Wp (p : Guarded L S α) (held : List L) (s : S) (post : α → S → Prop) (stopped : Stop → Prop) : Prop :=
  match p held s with
  | .ok (a, s') => post a s'
  | .error e => stopped e

variable {p : Guarded L S α} {f : α → Guarded L S β} {held : List L} {s : S} {post : α → S → Prop} {stopped : Stop → Prop}

/-! ## Rules -/

@[simp] theorem wp_pure (a : α) : Wp (pure a : Guarded L S α) held s post stopped ↔ post a s := Iff.rfl

@[simp] theorem wp_bind {post : β → S → Prop} :
    Wp (p >>= f) held s post stopped ↔ Wp p held s (fun a s' => Wp (f a) held s' post stopped) stopped := by
  show (match (p >>= f) held s with | .ok (a, s') => post a s' | .error e => stopped e) ↔ _
  unfold Wp
  show (match Except.bind (p held s) (fun x => f x.1 held x.2) with | .ok (a, s') => post a s' | .error e => stopped e) ↔ _
  cases p held s with
  | error e => exact Iff.rfl
  | ok x => exact Iff.rfl

@[simp] theorem wp_map {post : β → S → Prop} (g : α → β) :
    Wp (g <$> p) held s post stopped ↔ Wp p held s (fun a s' => post (g a) s') stopped := by
  rw [map_eq_pure_bind, wp_bind]
  exact Iff.rfl

@[simp] theorem wp_get {post : S → S → Prop} : Wp (get : Guarded L S S) held s post stopped ↔ post s s := Iff.rfl

@[simp] theorem wp_modify {post : PUnit → S → Prop} (g : S → S) :
    Wp (modify g : Guarded L S PUnit) held s post stopped ↔ post ⟨⟩ (g s) := Iff.rfl

@[simp] theorem wp_stop (e : Stop) : Wp (stop e : Guarded L S α) held s post stopped ↔ stopped e := Iff.rfl

@[simp] theorem wp_ite (c : Prop) [Decidable c] (q : Guarded L S α) :
    Wp (if c then p else q) held s post stopped ↔ if c then Wp p held s post stopped else Wp q held s post stopped := by
  split <;> exact Iff.rfl

@[simp] theorem wp_lock [DecidableEq L] (m : L) :
    Wp (withLock m p) held s post stopped ↔ if m ∈ held then stopped .deadlock else Wp p (m :: held) s post stopped := by
  by_cases hm : m ∈ held <;> simp [Wp, withLock, hm]

theorem Wp.mono {post' : α → S → Prop} {stopped' : Stop → Prop} (h : Wp p held s post stopped)
    (hp : ∀ a s', post a s' → post' a s') (hs : ∀ e, stopped e → stopped' e) : Wp p held s post' stopped' := by
  unfold Wp at h ⊢
  split
  · next hr =>
    rw [hr] at h
    exact hp _ _ h
  · next hr =>
    rw [hr] at h
    exact hs _ h

/-- What may follow a program is known from any fact about it. -/
theorem Wp.bind {mid : α → S → Prop} {post : β → S → Prop} (h : Wp p held s mid stopped)
    (hf : ∀ a s', mid a s' → Wp (f a) held s' post stopped) : Wp (p >>= f) held s post stopped :=
  wp_bind.mpr (h.mono hf fun _ he => he)

theorem Wp.and {post' : α → S → Prop} {stopped' : Stop → Prop} (h : Wp p held s post stopped) (h' : Wp p held s post' stopped') :
    Wp p held s (fun a s' => post a s' ∧ post' a s') (fun e => stopped e ∧ stopped' e) := by
  unfold Wp at h h' ⊢
  split
  · next hr =>
    rw [hr] at h h'
    exact ⟨h, h'⟩
  · next hr =>
    rw [hr] at h h'
    exact ⟨h, h'⟩

theorem wp_true : Wp p held s (fun _ _ => True) (fun _ => True) := by
  unfold Wp
  split <;> trivial

/-- A run that ended is in the postcondition. -/
theorem Wp.of_ok (h : Wp p held s post stopped) {a : α} {s' : S} (hr : p held s = .ok (a, s')) : post a s' := by
  unfold Wp at h
  rw [hr] at h
  exact h

theorem Wp.of_error (h : Wp p held s post stopped) {e : Stop} (hr : p held s = .error e) : stopped e := by
  unfold Wp at h
  rw [hr] at h
  exact h

end Guarded

end Sickle.Lib
