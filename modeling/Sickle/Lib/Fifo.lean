/-
  Sickle.Lib.Fifo — a waiting line.

  Anyone may join at the end, any number of times, and the first is served.

  - `served_first`: who is in the line, or has been served, is served before anyone who has
    not joined yet.
-/

import Sickle.Lib.Run

namespace Sickle.Lib

universe u

structure Fifo (α : Type u) where
  waiting : List α
  served : List α

inductive FifoEv (α : Type u) where
  | join (x : α)
  | serve (x : α)

namespace Fifo

variable {α : Type u}

/-- Who has ever joined, in that order. -/
def joined (f : Fifo α) : List α := f.served ++ f.waiting

end Fifo

variable {α : Type u}

inductive FifoStep : Fifo α → FifoEv α → Fifo α → Prop
  | join (f : Fifo α) (x : α) : FifoStep f (.join x) { f with waiting := f.waiting ++ [x] }
  | serve (f : Fifo α) (x : α) (rest : List α) : f.waiting = x :: rest → FifoStep f (.serve x) ⟨rest, f.served ++ [x]⟩

def fifo (α : Type u) : Lts (Fifo α) (FifoEv α) := ⟨fun f => f = ⟨[], []⟩, FifoStep⟩

/-- The order of joining is settled once and for all. -/
theorem joined_step {f f' : Fifo α} {e : FifoEv α} (h : FifoStep f e f') : f.joined <+: f'.joined := by
  cases h with
  | join x =>
    unfold Fifo.joined
    rw [← List.append_assoc]
    exact List.prefix_append ..
  | serve x rest hw =>
    unfold Fifo.joined
    rw [hw, List.append_assoc]
    exact List.prefix_refl _

theorem joined_path {f f' : Fifo α} {p : List (FifoEv α × Fifo α)} (h : Path (fifo α) f p f') : f.joined <+: f'.joined := by
  induction h with
  | nil => exact List.prefix_refl _
  | step _ hs ih => exact ih.trans (joined_step hs)

theorem served_first {f f' : Fifo α} {p : List (FifoEv α × Fifo α)} {x y : α} (h : Path (fifo α) f p f') (hx : x ∈ f.joined)
    (hy : y ∉ f.joined) (hs : y ∈ f'.served) : x ∈ f'.served := by
  -- of two beginnings of one list, the one with `y` is the longer
  rcases List.prefix_or_prefix_of_prefix (List.prefix_append f'.served f'.waiting) (joined_path h) with hle | hle
  · exact absurd (hle.subset hs) hy
  · exact hle.subset hx

end Sickle.Lib
