/-
  Sickle.Lib.Edge — a source watched through edge-triggered notifications.

  Items arrive and wait until they are taken. A notification becomes due when an item
  arrives where none waited; none is promised for an item that arrives behind others, and
  one may be due for no reason. To be notified is to take the notification away, so the
  watcher has to take items until it has found none waiting, and only then may be idle.

  - `attended`: whatever arrives meanwhile, while the watcher is idle nothing waits or a
    notification is due. A watcher that leaves its round early is `away`, and has no such
    promise until the next notification, whatever it may still take.
-/

import Sickle.Lib.Run

namespace Sickle.Lib

structure Source (α : Type*) where
  waiting : List α
  due : Bool

variable {α : Type*}

namespace Source

def empty : Source α := ⟨[], false⟩

/-- What a source does of itself. -/
inductive Stir : Source α → Source α → Prop
  | arrive (s : Source α) (x : α) (due : Bool) : (s.waiting = [] ∨ s.due = true → due = true) → Stir s ⟨s.waiting ++ [x], due⟩
  | spurious (s : Source α) : Stir s { s with due := true }

/-- The notification is taken away. -/
def notice (s : Source α) : Source α := { s with due := false }

def take (s : Source α) (n : Nat) : Source α := { s with waiting := s.waiting.drop n }

/-- A watch is set up anew: a notification is due for what already waits. -/
def attach (s : Source α) : Source α := { s with due := s.due || !s.waiting.isEmpty }

end Source

inductive Watch where
  | idle
  | draining
  | away
  deriving DecidableEq, Repr

inductive WatchEv where
  | stir
  | attach
  | notice
  | take (n : Nat)
  | foundNone
  | leave
  deriving DecidableEq, Repr

inductive WatchStep : Source α × Watch → WatchEv → Source α × Watch → Prop
  | stir {s s' : Source α} (w : Watch) : Source.Stir s s' → WatchStep (s, w) .stir (s', w)
  | attach (s : Source α) (w : Watch) : w ≠ .draining → WatchStep (s, w) .attach (s.attach, .idle)
  | notice (s : Source α) (w : Watch) : w ≠ .draining → s.due = true → WatchStep (s, w) .notice (s.notice, .draining)
  | take (s : Source α) (w : Watch) (n : Nat) : w ≠ .idle → WatchStep (s, w) (.take n) (s.take n, w)
  | foundNone (s : Source α) : s.waiting = [] → WatchStep (s, .draining) .foundNone (s, .idle)
  | leave (s : Source α) (w : Watch) : WatchStep (s, w) .leave (s, .away)

/-- At first nobody watches the source, or it is empty. -/
def watched (α : Type*) : Lts (Source α × Watch) WatchEv :=
  ⟨fun s => s.2 = .away ∨ s.1.waiting = [], WatchStep⟩

def Attended (s : Source α × Watch) : Prop := s.2 = .idle → s.1.waiting ≠ [] → s.1.due = true

theorem WatchStep.attended {s s' : Source α × Watch} {e : WatchEv} (h : WatchStep s e s') (hs : Attended s) : Attended s' := by
  cases h with
  | @stir s _ w hst =>
    cases hst with
    | arrive x due hdue =>
      intro hw _
      by_cases hnil : s.waiting = []
      · exact hdue (.inl hnil)
      · exact hdue (.inr (hs hw hnil))
    | spurious => exact fun _ _ => rfl
  | attach s w =>
    intro _ hne
    change s.waiting ≠ [] at hne
    show (s.due || !s.waiting.isEmpty) = true
    rw [List.isEmpty_eq_false_iff.mpr hne, Bool.not_false, Bool.or_true]
  | notice => intro hw; cases hw
  | take s w n hw => exact fun hidle => absurd hidle hw
  | foundNone s hnil => intro _ hne; exact absurd hnil hne
  | leave => intro hw; cases hw

/-- An idle watcher has nothing waiting for it, or is about to be notified. -/
theorem attended {τ : List WatchEv} {s : Source α × Watch} (h : Run (watched α) τ s) : Attended s := by
  refine Run.inv (P := Attended) ?_ (fun _ _ _ hs he => WatchStep.attended he hs) h
  intro s hi hw hne
  rcases hi with hi | hi
  · rw [hi] at hw
    cases hw
  · exact absurd hi hne

end Sickle.Lib
