/-
  Sickle.Lib.Chain — singly linked chains with links still to be written.

  In a queue whose producers first take their place at the end and link their
  predecessor afterwards, a cell either leads to the next one or somebody has still to
  make it do so. `Linked next pend xs` says that of the cells `xs`, in this order:
  `pend a b` stands for "somebody has still to write b behind a".

  - `Linked.push`: a cell that takes its place at the end, its link pending.
  - `Linked.link`: a pending link is written.
  - `Linked.next_mem`: what a cell leads to is in the chain.
  - `Linked.pop`: what the first cell leads to is the second one.
  - `Linked.concat`: both at once, where no link is pending.
  - `Linked.congr`: only the cells of the chain matter.
  - `exists_concat`, `eq_nil_of_last`: a chain that is known by its first and last cell.
-/

import Mathlib.Data.List.Basic
import Mathlib.Logic.Function.Basic

namespace Sickle.Lib.Chain

open Function (update)

variable {κ : Type}

/-! ## The ends of a chain -/

theorem exists_concat {a b : κ} {xs : List κ} (h : xs.getLastD a = b) : ∃ ys, a :: xs = ys ++ [b] := by
  rcases List.eq_nil_or_concat' xs with rfl | ⟨ys, y, rfl⟩
  · exact ⟨[], by rw [← h]; rfl⟩
  · rw [List.getLastD_concat] at h
    exact ⟨a :: ys, by rw [h]; rfl⟩

/-- A chain that ends where it begins has one cell. -/
theorem eq_nil_of_last {a : κ} {xs : List κ} (h : xs.getLastD a = a) (hnd : (a :: xs).Nodup) : xs = [] := by
  rcases List.eq_nil_or_concat' xs with rfl | ⟨ys, y, rfl⟩
  · rfl
  · rw [List.getLastD_concat] at h
    exact absurd (by simp [h]) (List.nodup_cons.mp hnd).1

/-! ## The links -/

def Linked (next : κ → Option κ) (pend : κ → κ → Prop) : List κ → Prop
  | [] => True
  | [a] => next a = none ∧ ∀ c, ¬ pend a c
  | a :: b :: xs =>
    ((next a = some b ∧ ∀ c, ¬ pend a c) ∨ (next a = none ∧ ∀ c, pend a c ↔ c = b)) ∧ Linked next pend (b :: xs)

namespace Linked

variable {next next' : κ → Option κ} {pend pend' : κ → κ → Prop}

theorem tail {a : κ} {xs : List κ} (h : Linked next pend (a :: xs)) : Linked next pend xs := by
  cases xs with
  | nil => trivial
  | cons b ys => exact h.2

theorem congr : ∀ {xs : List κ}, Linked next pend xs → (∀ x ∈ xs, next' x = next x) →
    (∀ x ∈ xs, ∀ c, pend' x c ↔ pend x c) → Linked next' pend' xs := by
  intro xs
  induction xs with
  | nil => intro _ _ _; trivial
  | cons a ys ih =>
    intro h hn hp
    have hna := hn a (List.mem_cons_self ..)
    have hpa := hp a (List.mem_cons_self ..)
    cases ys with
    | nil =>
      obtain ⟨h1, h2⟩ := h
      exact ⟨by rw [hna]; exact h1, fun c hc => h2 c ((hpa c).mp hc)⟩
    | cons b zs =>
      obtain ⟨h1, h2⟩ := h
      refine ⟨?_, ih h2 (fun x hx => hn x (List.mem_cons_of_mem _ hx)) (fun x hx => hp x (List.mem_cons_of_mem _ hx))⟩
      rcases h1 with ⟨e, hc⟩ | ⟨e, hc⟩
      · exact .inl ⟨by rw [hna]; exact e, fun c h => hc c ((hpa c).mp h)⟩
      · exact .inr ⟨by rw [hna]; exact e, fun c => (hpa c).trans (hc c)⟩

/-- What is still to be written behind a cell of the chain is the cell that follows it. -/
theorem pending : ∀ {xs : List κ} {x a b : κ}, Linked next pend (x :: xs) → a ∈ x :: xs → pend a b →
    next a = none ∧ b ∈ xs := by
  intro xs
  induction xs with
  | nil =>
    intro x a b h ha hp
    obtain rfl := List.mem_singleton.mp ha
    exact absurd hp (h.2 b)
  | cons y ys ih =>
    intro x a b h ha hp
    obtain ⟨h1, h2⟩ := h
    rcases List.mem_cons.mp ha with rfl | ha
    · rcases h1 with ⟨-, hc⟩ | ⟨e, hc⟩
      · exact absurd hp (hc b)
      · obtain rfl := (hc b).mp hp
        exact ⟨e, List.mem_cons_self ..⟩
    · obtain ⟨e, hb⟩ := ih h2 ha hp
      exact ⟨e, List.mem_cons_of_mem _ hb⟩

/-- Two links pending behind one cell are the same link. -/
theorem pending_unique : ∀ {xs : List κ} {a b c : κ}, Linked next pend xs → a ∈ xs → pend a b → pend a c → b = c := by
  intro xs
  induction xs with
  | nil => intro a b c _ ha; cases ha
  | cons x ys ih =>
    intro a b c h ha hb hc
    rcases List.mem_cons.mp ha with rfl | hm
    · cases ys with
      | nil => exact absurd hb (h.2 b)
      | cons y zs =>
        rcases h.1 with ⟨-, hno⟩ | ⟨-, heq⟩
        · exact absurd hb (hno b)
        · exact ((heq b).mp hb).trans ((heq c).mp hc).symm
    · exact ih h.tail hm hb hc

/-- What a cell of the chain leads to is in the chain. -/
theorem next_mem : ∀ {xs : List κ} {a b : κ}, Linked next pend xs → a ∈ xs → next a = some b → b ∈ xs := by
  intro xs
  induction xs with
  | nil => intro a b _ ha; cases ha
  | cons x ys ih =>
    intro a b h ha hb
    rcases List.mem_cons.mp ha with rfl | hm
    · cases ys with
      | nil => rw [h.1] at hb; cases hb
      | cons y zs =>
        rcases h.1 with ⟨e, -⟩ | ⟨e, -⟩
        · rw [e] at hb; cases hb
          simp
        · rw [e] at hb; cases hb
    · exact List.mem_cons_of_mem _ (ih h.tail hm hb)

theorem pop {a b : κ} {xs : List κ} (h : Linked next pend (a :: xs)) (hb : next a = some b) :
    ∃ ys, xs = b :: ys ∧ ∀ c, ¬ pend a c := by
  cases xs with
  | nil => rw [h.1] at hb; cases hb
  | cons y ys =>
    rcases h.1 with ⟨e, hc⟩ | ⟨e, -⟩
    · rw [e] at hb; cases hb
      exact ⟨ys, rfl, hc⟩
    · rw [e] at hb; cases hb

/-- The last cell leads nowhere. -/
theorem last : ∀ {xs : List κ} {a : κ}, Linked next pend (xs ++ [a]) → next a = none ∧ ∀ c, ¬ pend a c := by
  intro xs
  induction xs with
  | nil => intro a h; exact h
  | cons x ys ih => intro a h; exact ih h.tail

/-- A cell `p` that leads nowhere takes its place behind the last cell `h`. -/
theorem push : ∀ {xs : List κ} {h p : κ}, Linked next pend (xs ++ [h]) → h ∉ xs → next p = none → (∀ c, ¬ pend' p c) →
    (∀ c, pend' h c ↔ c = p) → (∀ x ∈ xs, ∀ c, pend' x c ↔ pend x c) → Linked next pend' (xs ++ [h, p]) := by
  intro xs
  induction xs with
  | nil =>
    intro h p hl _ hp hpp hhp _
    exact ⟨.inr ⟨hl.1, hhp⟩, hp, hpp⟩
  | cons x ys ih =>
    intro h p hl hx hp hpp hhp hold
    have hrec := ih hl.tail (fun hm => hx (List.mem_cons_of_mem _ hm)) hp hpp hhp
      (fun y hy => hold y (List.mem_cons_of_mem _ hy))
    have hxo := hold x (List.mem_cons_self ..)
    cases ys with
    | nil =>
      refine ⟨?_, hrec⟩
      rcases hl.1 with ⟨e, hc⟩ | ⟨e, hc⟩
      · exact .inl ⟨e, fun c h => hc c ((hxo c).mp h)⟩
      · exact .inr ⟨e, fun c => (hxo c).trans (hc c)⟩
    | cons y zs =>
      refine ⟨?_, hrec⟩
      rcases hl.1 with ⟨e, hc⟩ | ⟨e, hc⟩
      · exact .inl ⟨e, fun c h => hc c ((hxo c).mp h)⟩
      · exact .inr ⟨e, fun c => (hxo c).trans (hc c)⟩

/-- The link pending behind `a` is written. -/
theorem link [DecidableEq κ] : ∀ {xs : List κ} {a b : κ}, Linked next pend xs → xs.Nodup → a ∈ xs → pend a b →
    (∀ c, ¬ pend' a c) → (∀ x ∈ xs, x ≠ a → ∀ c, pend' x c ↔ pend x c) → Linked (update next a (some b)) pend' xs := by
  intro xs
  induction xs with
  | nil => intro a b _ _ ha; cases ha
  | cons x ys ih =>
    intro a b h hnd ha hab hno hold
    obtain ⟨hx, hnd⟩ := List.nodup_cons.mp hnd
    by_cases e : x = a
    · subst e
      cases ys with
      | nil => exact absurd hab (h.2 b)
      | cons y zs =>
        rcases h.1 with ⟨-, hc⟩ | ⟨-, hc⟩
        · exact absurd hab (hc b)
        · obtain rfl := (hc b).mp hab
          refine ⟨.inl ⟨Function.update_self .., hno⟩, h.2.congr (fun z hz => ?_) (fun z hz => ?_)⟩
          · exact Function.update_of_ne (fun e => hx (by rwa [← e])) ..
          · exact hold z (List.mem_cons_of_mem _ hz) (fun e => hx (by rwa [← e]))
    · have ha' : a ∈ ys := by
        rcases List.mem_cons.mp ha with rfl | hm
        · exact absurd rfl e
        · exact hm
      have hrec := ih h.tail hnd ha' hab hno fun z hz => hold z (List.mem_cons_of_mem _ hz)
      have hxo := hold x (List.mem_cons_self ..) e
      have hxn : update next a (some b) x = next x := Function.update_of_ne e ..
      cases ys with
      | nil => cases ha'
      | cons y zs =>
        refine ⟨?_, hrec⟩
        rcases h.1 with ⟨e', hc⟩ | ⟨e', hc⟩
        · exact .inl ⟨by rw [hxn]; exact e', fun c h => hc c ((hxo c).mp h)⟩
        · exact .inr ⟨by rw [hxn]; exact e', fun c => (hxo c).trans (hc c)⟩

/-- A cell takes its place and is linked, with nobody else about. -/
theorem concat [DecidableEq κ] {xs : List κ} {h p : κ} (hl : Linked next pend (xs ++ [h])) (hno : ∀ a c, ¬ pend a c)
    (hnd : (xs ++ [h]).Nodup) (hp : p ∉ xs ++ [h]) (hn : next p = none) : Linked (update next h (some p)) pend (xs ++ [h, p]) := by
  have hh : h ∉ xs := fun hm => (List.nodup_append.mp hnd).2.2 h hm h (List.mem_singleton.mpr rfl) rfl
  have hhp : h ≠ p := fun e => hp (by rw [← e]; simp)
  have hpush : Linked next (fun a c => a = h ∧ c = p) (xs ++ [h, p]) := by
    refine hl.push hh hn (fun c hc => hhp hc.1.symm) (fun c => ⟨fun hc => hc.2, fun hc => ⟨rfl, hc⟩⟩) fun x hx c => ?_
    exact ⟨fun hc => absurd (hc.1 ▸ hx) hh, fun hc => absurd hc (hno x c)⟩
  have hnd' : (xs ++ [h, p]).Nodup := by
    rw [show xs ++ [h, p] = (xs ++ [h]) ++ [p] by simp]
    refine List.nodup_append.mpr ⟨hnd, by simp, fun x hx y hy => ?_⟩
    rw [List.mem_singleton.mp hy]
    exact ne_of_mem_of_not_mem hx hp
  refine hpush.link hnd' (by simp) ⟨rfl, rfl⟩ (hno h) fun x _ hx c => ?_
  exact ⟨fun hc => absurd hc (hno x c), fun hc => absurd hc.1 hx⟩

end Linked

end Sickle.Lib.Chain
