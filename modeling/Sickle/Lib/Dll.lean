/-
  Sickle.Lib.Dll — doubly linked lists threaded through a store of cells.

  A store gives each live cell its pair of links (previous, next); a sentinel `nil`
  stands for "none". `Seg lk p xs q` says that the cells `xs`, in this order, are live
  and linked into a chain that comes from `p` and leads to `q`; a whole list is a chain
  from `nil` to `nil`.

  The two edits of such lists are inserting a cell in front (`pushFront`) and taking a
  cell out (`unlink`), each as the few link writes a program makes.
  - `Seg.pushFront`: the new cell is the first of the chain.
  - `Seg.unlink`: the chain is the old one without the cell, whichever end it was at.
  - `pushFront_frame`, `unlink_frame`: cells outside the chain keep their links.
-/

import Mathlib.Data.List.Basic

namespace Sickle.Lib.Dll

open Function (update)

variable {κ : Type}

/-- The previous and the next cell of each live cell. -/
abbrev Links (κ : Type) := κ → Option (κ × κ)

def Seg (lk : Links κ) : κ → List κ → κ → Prop
  | _, [], _ => True
  | p, x :: xs, q => lk x = some (p, xs.headD q) ∧ Seg lk x xs q

/-! ## Chains -/

namespace Seg

variable {lk lk' : Links κ} {p q : κ} {xs ys : List κ}

/-- A chain depends on the links of its own cells only. -/
theorem congr (h : Seg lk p xs q) (hlk : ∀ x ∈ xs, lk' x = lk x) : Seg lk' p xs q := by
  induction xs generalizing p with
  | nil => trivial
  | cons x xs ih =>
    exact ⟨by rw [hlk x (List.mem_cons_self ..)]; exact h.1, ih h.2 fun y hy => hlk y (List.mem_cons_of_mem _ hy)⟩

theorem live (h : Seg lk p xs q) {x : κ} (hx : x ∈ xs) : ∃ l, lk x = some l := by
  induction xs generalizing p with
  | nil => cases hx
  | cons y xs ih =>
    rcases List.mem_cons.mp hx with rfl | hx
    · exact ⟨_, h.1⟩
    · exact ih h.2 hx

theorem append : Seg lk p (xs ++ ys) q ↔ Seg lk p xs (ys.headD q) ∧ Seg lk (xs.getLastD p) ys q := by
  induction xs generalizing p with
  | nil => simp [Seg]
  | cons x xs ih =>
    have hhead : (xs ++ ys).headD q = xs.headD (ys.headD q) := by cases xs <;> rfl
    have hlast : (x :: xs).getLastD p = xs.getLastD x := by cases xs <;> rfl
    rw [List.cons_append, Seg, Seg, hhead, hlast, ih, and_assoc]

/-- The links a cell has in a chain: its neighbours there. -/
theorem links {x : κ} (h : Seg lk p (xs ++ x :: ys) q) : lk x = some (xs.getLastD p, ys.headD q) :=
  (append.mp h).2.1

end Seg

theorem getLastD_mem_or (nil : κ) (xs : List κ) : xs.getLastD nil = nil ∨ xs.getLastD nil ∈ xs := by
  rcases List.eq_nil_or_concat' xs with rfl | ⟨as, a, rfl⟩
  · exact .inl rfl
  · right; simp

theorem headD_mem_or (nil : κ) (xs : List κ) : xs.headD nil = nil ∨ xs.headD nil ∈ xs := by
  cases xs with
  | nil => exact .inl rfl
  | cons y ys => exact .inr (List.mem_cons_self ..)

/-! ## The link writes -/

variable [DecidableEq κ]

def setPrev (lk : Links κ) (k v : κ) : Links κ := update lk k ((lk k).map fun l => (v, l.2))

def setNext (lk : Links κ) (k v : κ) : Links κ := update lk k ((lk k).map fun l => (l.1, v))

/-- A new cell `k` before the cell `head`. -/
def pushFront (lk : Links κ) (nil head k : κ) : Links κ :=
  if head = nil then update lk k (some (nil, head)) else setPrev (update lk k (some (nil, head))) head k

/-- The cell `k`, with links `l`, taken out and freed. -/
def unlink (lk : Links κ) (nil : κ) (l : κ × κ) (k : κ) : Links κ :=
  let lk := if l.1 = nil then lk else setNext lk l.1 l.2
  let lk := if l.2 = nil then lk else setPrev lk l.2 l.1
  update lk k none

theorem setPrev_ne (lk : Links κ) {k x : κ} (v : κ) (h : x ≠ k) : setPrev lk k v x = lk x :=
  Function.update_of_ne h ..

theorem setNext_ne (lk : Links κ) {k x : κ} (v : κ) (h : x ≠ k) : setNext lk k v x = lk x :=
  Function.update_of_ne h ..

namespace Seg

variable {lk lk' : Links κ} {p q : κ} {xs ys : List κ}

theorem setPrev_head {x : κ} (h : Seg lk p (x :: xs) q) (hx : x ∉ xs) (v : κ) :
    Seg (setPrev lk x v) v (x :: xs) q := by
  refine ⟨by simp [setPrev, h.1], h.2.congr fun y hy => setPrev_ne lk v ?_⟩
  intro e; subst e; exact hx hy

theorem setNext_last {x : κ} (h : Seg lk p (xs ++ [x]) q) (hx : x ∉ xs) (v : κ) :
    Seg (setNext lk x v) p (xs ++ [x]) v := by
  obtain ⟨h1, h2⟩ := append.mp h
  refine append.mpr ⟨h1.congr fun y hy => setNext_ne lk v ?_, ?_⟩
  · intro e; subst e; exact hx hy
  · simp [Seg, setNext, h2.1]

theorem pushFront {nil k : κ} (h : Seg lk nil xs nil) (hk : k ∉ xs) (hnil : nil ∉ xs) (hnd : xs.Nodup) :
    Seg (Dll.pushFront lk nil (xs.headD nil) k) nil (k :: xs) nil := by
  have h' : Seg (update lk k (some (nil, xs.headD nil))) nil xs nil := h.congr fun x hx =>
    Function.update_of_ne (fun e => hk (by rwa [← e])) ..
  cases xs with
  | nil => simp [Dll.pushFront, Seg]
  | cons y ys =>
    have hy : y ≠ nil := by intro e; subst e; exact hnil (List.mem_cons_self ..)
    have hky : k ≠ y := by intro e; subst e; exact hk (List.mem_cons_self ..)
    have he : Dll.pushFront lk nil y k = setPrev (update lk k (some (nil, y))) y k := if_neg hy
    show Seg (Dll.pushFront lk nil y k) nil (k :: y :: ys) nil
    rw [he]
    refine ⟨?_, Seg.setPrev_head h' (List.nodup_cons.mp hnd).1 k⟩
    rw [setPrev_ne _ _ hky]; simp

/-- Writing the last cell of a chain: the chain then leads to `v`. -/
theorem redirect {nil : κ} (h : Seg lk nil xs q) (hnil : nil ∉ xs) (hnd : xs.Nodup) (v : κ) :
    Seg (if xs.getLastD nil = nil then lk else setNext lk (xs.getLastD nil) v) nil xs v := by
  rcases List.eq_nil_or_concat' xs with rfl | ⟨as, a, rfl⟩
  · trivial
  · have ha : a ≠ nil := by intro e; subst e; exact hnil (by simp)
    have has : a ∉ as := fun hm => (List.nodup_append.mp hnd).2.2 a hm a (List.mem_singleton.mpr rfl) rfl
    rw [List.getLastD_concat, if_neg ha]
    exact h.setNext_last has v

/-- Writing the first cell of a chain: the chain then comes from `v`. -/
theorem resource {nil : κ} (h : Seg lk p xs nil) (hnil : nil ∉ xs) (hnd : xs.Nodup) (v : κ) :
    Seg (if xs.headD nil = nil then lk else setPrev lk (xs.headD nil) v) v xs nil := by
  cases xs with
  | nil => trivial
  | cons y ys =>
    have hy : y ≠ nil := by intro e; subst e; exact hnil (List.mem_cons_self ..)
    show Seg (if y = nil then lk else setPrev lk y v) v (y :: ys) nil
    rw [if_neg hy]
    exact h.setPrev_head (List.nodup_cons.mp hnd).1 v

end Seg

/-! ## Taking a cell out -/

/-- Only the cell and its two neighbours change. -/
theorem unlink_frame (lk : Links κ) {nil : κ} {l : κ × κ} {k x : κ} (hk : x ≠ k) (hp : l.1 = nil ∨ x ≠ l.1)
    (hn : l.2 = nil ∨ x ≠ l.2) : unlink lk nil l k x = lk x := by
  have h1 : (if l.1 = nil then lk else setNext lk l.1 l.2) x = lk x := by
    by_cases e : l.1 = nil
    · rw [if_pos e]
    · rw [if_neg e]; exact setNext_ne lk _ (hp.resolve_left e)
  simp only [unlink]
  rw [Function.update_of_ne hk]
  by_cases e : l.2 = nil
  · rw [if_pos e]; exact h1
  · rw [if_neg e, setPrev_ne _ _ (hn.resolve_left e)]; exact h1

theorem pushFront_frame (lk : Links κ) {nil head k x : κ} (hk : x ≠ k) (hh : head = nil ∨ x ≠ head) :
    pushFront lk nil head k x = lk x := by
  unfold pushFront
  by_cases e : head = nil
  · rw [if_pos e]; exact Function.update_of_ne hk ..
  · rw [if_neg e, setPrev_ne _ _ (hh.resolve_left e)]; exact Function.update_of_ne hk ..

/-- A chain without one of its cells: the neighbours are linked to each other. -/
theorem Seg.unlink {lk : Links κ} {nil k : κ} {xs ys : List κ} (h : Seg lk nil (xs ++ k :: ys) nil)
    (hnil : nil ∉ xs ++ k :: ys) (hnd : (xs ++ k :: ys).Nodup) :
    Seg (Dll.unlink lk nil (xs.getLastD nil, ys.headD nil) k) nil (xs ++ ys) nil := by
  obtain ⟨hx, hky⟩ := Seg.append.mp h
  obtain ⟨ndx, ndky, hdis⟩ := List.nodup_append.mp hnd
  obtain ⟨hk, ndy⟩ := List.nodup_cons.mp ndky
  have hnx : nil ∉ xs := fun hm => hnil (List.mem_append_left _ hm)
  have hny : nil ∉ ys := fun hm => hnil (List.mem_append_right _ (List.mem_cons_of_mem _ hm))
  have hkx : k ∉ xs := fun hm => hdis k hm k (List.mem_cons_self ..) rfl
  have hxy : ∀ x ∈ xs, x ∉ ys := fun x hm hm' => hdis x hm x (List.mem_cons_of_mem _ hm') rfl
  -- the part before the cell is redirected to what follows it
  have h1 : Seg (Dll.unlink lk nil (xs.getLastD nil, ys.headD nil) k) nil xs (ys.headD nil) := by
    refine (hx.redirect hnx ndx (ys.headD nil)).congr fun x hm => ?_
    have hxk : x ≠ k := by intro e; subst e; exact hkx hm
    simp only [Dll.unlink]
    rw [Function.update_of_ne hxk]
    rcases headD_mem_or nil ys with e | e
    · rw [if_pos e]
    · have hne : x ≠ ys.headD nil := fun e' => hxy x hm (by rwa [e'])
      split
      · rfl
      · exact setPrev_ne _ _ hne
  -- the part after it now comes from what precedes it
  have h2 : Seg (Dll.unlink lk nil (xs.getLastD nil, ys.headD nil) k) (xs.getLastD nil) ys nil := by
    have hy : Seg (if xs.getLastD nil = nil then lk else setNext lk (xs.getLastD nil) (ys.headD nil)) k ys nil := by
      refine hky.2.congr fun y hm => ?_
      rcases getLastD_mem_or nil xs with e | e
      · rw [if_pos e]
      · have hne : y ≠ xs.getLastD nil := fun e' => hxy _ e (by rwa [← e'])
        split
        · rfl
        · exact setNext_ne _ _ hne
    refine (hy.resource hny ndy (xs.getLastD nil)).congr fun y hm => ?_
    have hyk : y ≠ k := by intro e; subst e; exact hk hm
    simp only [Dll.unlink]
    exact Function.update_of_ne hyk ..
  exact Seg.append.mpr ⟨h1, h2⟩

end Sickle.Lib.Dll
