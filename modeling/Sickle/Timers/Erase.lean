/-
  Sickle.Timers.Erase — a cancelled timeout leaves no trace.

  Two runs side by side: the client's own, and the one without the calls on timeout `x`.
  The lists of the second are those of the first with `x` taken out (`Lists.remove`), so a
  cursor on `x` there stands past it here, and a round that steps over `x` there is none
  here. As long as `x` is not handed out by a poll the two answer alike (`Beside`); once
  it is, it can not be cancelled any more (`Gone`).

  - `cancelled_leaves_no_trace`: the calls of the others, made without `x`, can be made,
    and every answer to them is the one they had.
-/

import Mathlib.Data.Finite.Prod
import Sickle.Timers.Client

namespace Sickle.Timers

open Function (update)
open Sickle.Lib

variable {I T : Type} [DecidableEq I]

/-! ## Lists without a timeout -/

namespace Lists

variable {w v u : Lists I T} {x : I}

theorem mem_remove {y : Item I T} : (w.remove x).Mem y ↔ w.Mem y ∧ y.id ≠ x := by
  simp only [Mem, remove, List.mem_filter, decide_eq_true_eq, exists_and_right]

omit [DecidableEq I] in
theorem mem_insert {y z : Item I T} : (w.insert y).Mem z ↔ z = y ∨ w.Mem z := by
  constructor
  · intro h
    obtain ⟨s, hs⟩ := h
    change z ∈ update w.list _ _ s at hs
    by_cases e : s = w.slot y.tick
    · subst e
      rw [Function.update_self, List.mem_cons] at hs
      exact hs.imp_right fun hz => ⟨_, hz⟩
    · rw [Function.update_of_ne e] at hs
      exact .inr ⟨s, hs⟩
  · intro h
    rcases h with rfl | ⟨s, hs⟩
    · exact ⟨w.slot z.tick, by simp [insert]⟩
    · refine ⟨s, ?_⟩
      show z ∈ update w.list _ _ s
      by_cases e : s = w.slot y.tick
      · subst e
        rw [Function.update_self]
        exact List.mem_cons_of_mem _ hs
      · rw [Function.update_of_ne e]
        exact hs

theorem remove_remove (w : Lists I T) (x y : I) : (w.remove y).remove x = (w.remove x).remove y := by
  simp only [remove, List.filter_filter, Bool.and_comm]

theorem remove_idem (w : Lists I T) (x : I) : (w.remove x).remove x = w.remove x := by
  simp only [remove, List.filter_filter, Bool.and_self]

theorem remove_insert (w : Lists I T) {y : Item I T} (h : y.id ≠ x) : (w.insert y).remove x = (w.remove x).insert y := by
  simp only [remove, insert, Lists.mk.injEq, true_and, and_true]
  funext s
  by_cases e : s = w.slot y.tick
  · subst e
    rw [Function.update_self, Function.update_self, List.filter_cons_of_pos (by simpa using h)]
  · rw [Function.update_of_ne e, Function.update_of_ne e]

theorem remove_insert_self (w : Lists I T) (y : Item I T) : (w.insert y).remove y.id = w.remove y.id := by
  simp only [remove, insert, Lists.mk.injEq, true_and, and_true]
  funext s
  by_cases e : s = w.slot y.tick
  · subst e
    rw [Function.update_self, List.filter_cons_of_neg (by simp)]
  · rw [Function.update_of_ne e]

theorem remove_advance (w : Lists I T) (x : I) : w.advance.remove x = (w.remove x).advance := rfl

theorem remove_post_nil (h : w.post = []) : (w.remove x).post = [] := by
  show w.post.filter _ = []
  rw [h, List.filter_nil]

theorem remove_post_cons {y : Item I T} {ys : List (Item I T)} (h : w.post = y :: ys) (hy : y.id ≠ x) :
    (w.remove x).post = y :: ys.filter fun z => z.id ≠ x := by
  show w.post.filter _ = _
  rw [h, List.filter_cons_of_pos (by simpa using hy)]

theorem round_some {y : Item I T} (h : w.round = (v, some y)) :
    ∃ ys, w.post = y :: ys ∧ y.tick ≤ w.tick ∧ v = w.remove y.id := by
  unfold round at h
  cases hp : w.post with
  | nil => rw [hp] at h; cases h
  | cons z zs =>
    rw [hp] at h
    simp only at h
    split at h
    · rename_i hle
      cases h
      exact ⟨zs, rfl, hle, rfl⟩
    · cases h

theorem round_none (h : w.round = (v, none)) :
    (w.post = [] ∧ v = w.advance) ∨ ∃ y ys, w.post = y :: ys ∧ w.tick < y.tick ∧ v = { w with post := ys } := by
  unfold round at h
  cases hp : w.post with
  | nil =>
    rw [hp] at h
    cases h
    exact .inl ⟨rfl, rfl⟩
  | cons z zs =>
    rw [hp] at h
    simp only at h
    split at h
    · cases h
    · cases h
      exact .inr ⟨z, zs, rfl, by omega, rfl⟩

/-- A poll that does not hand out `x` is the same without `x`: a round that steps over it
    is left out. -/
theorem Polls.remove {target : Nat} {out : Option (Item I T)} (h : Polls target w u out) (hx : ∀ y, out = some y → y.id ≠ x) :
    Polls target (w.remove x) (u.remove x) out := by
  induction h with
  | done w hlt => exact .done _ hlt
  | @more w v u out hle hmax hr _ ih =>
    rcases round_none hr with ⟨hp, rfl⟩ | ⟨y, ys, hp, hlt, rfl⟩
    · refine .more hle (.inl (hmax.resolve_right fun hn => hn hp)) ?_ (ih hx)
      rw [round, remove_post_nil hp, remove_advance]
    · by_cases hy : y.id = x
      · have hskip : ({ w with post := ys } : Lists I T).remove x = w.remove x := by
          simp only [Lists.remove, hp]
          rw [List.filter_cons_of_neg (by simpa using hy)]
        rw [← hskip]
        exact ih hx
      · have hpost := remove_post_cons hp hy
        have hn : ¬ y.tick ≤ (w.remove x).tick := Nat.not_le.mpr hlt
        refine .more hle (.inr (by rw [hpost]; exact List.cons_ne_nil _ _)) ?_ (ih hx)
        rw [round, hpost]
        simp only [if_neg hn]
        rfl
  | @fire w v y hle hr =>
    obtain ⟨ys, hp, hdue, rfl⟩ := round_some hr
    have hpost := remove_post_cons hp (hx y rfl)
    have hle' : y.tick ≤ (w.remove x).tick := hdue
    refine .fire hle ?_
    rw [round, hpost, remove_remove]
    simp only [if_pos hle']

/-- A poll hands out a timeout of the lists and takes it out of them, and nothing else. -/
theorem Polls.mem {target : Nat} {out : Option (Item I T)} (h : Polls target w u out) (hw : ∀ y ∈ w.post, w.Mem y) :
    (out = none ∧ ∀ y, u.Mem y ↔ w.Mem y) ∨ ∃ y, out = some y ∧ w.Mem y ∧ ∀ z, u.Mem z ↔ w.Mem z ∧ z.id ≠ y.id := by
  induction h with
  | done w _ => exact .inl ⟨rfl, fun _ => Iff.rfl⟩
  | @more w v u out _ _ hr _ ih =>
    rcases round_none hr with ⟨-, rfl⟩ | ⟨y, ys, hp, -, rfl⟩
    · exact ih fun z hz => ⟨_, hz⟩
    · exact ih fun z hz => hw z (by rw [hp]; exact List.mem_cons_of_mem _ hz)
  | @fire w v y _ hr =>
    obtain ⟨ys, hp, -, rfl⟩ := round_some hr
    exact .inr ⟨y, rfl, hw y (by rw [hp]; exact List.mem_cons_self ..), fun z => mem_remove⟩

end Lists

/-! ## One step of the two runs -/

section Steps

variable {tickMs : Nat} {x : I} {c c' d : Client I T} {w w' : Lists I T} {e : Op I T × Option T}

omit [DecidableEq I] in
theorem Sim.owned (h : Sim tickMs c w) {k : Token} {id : I} (hk : c.owner k = some id) : ∃ y, w.Mem y ∧ y.id = id := by
  obtain ⟨-, b, -, hsh⟩ := h
  obtain ⟨a, ha, -⟩ := hsh.named k id hk
  exact ⟨⟨id, a.1, a.2⟩, (hsh.mem_iff _).mpr ⟨k, hk, ha⟩, rfl⟩

omit [DecidableEq I] in
theorem Sim.post (h : Sim tickMs c w) : ∀ y ∈ w.post, w.Mem y := by
  obtain ⟨-, b, -, hsh⟩ := h
  intro y hy
  have hy' : some y ∈ b.post.map (item b.due c.owner) := by
    rw [← hsh.post]
    exact List.mem_map_of_mem hy
  obtain ⟨k, -, hk⟩ := List.mem_map.mp hy'
  exact (hsh.mem_iff y).mpr ⟨k, item_eq_some.mp hk⟩

/-- `x` was set and pends no more. -/
structure Gone (x : I) (c : Client I T) (w : Lists I T) : Prop where
  set : c.handle x ≠ none
  out : ∀ y, w.Mem y → y.id ≠ x

omit [DecidableEq I] in
/-- What is gone is not cancelled. -/
theorem Gone.not_cancelled (hg : Gone x c w) (h : Sim tickMs c w) (hp : StillPending c e) : e.1 ≠ .cancelTimeout x := by
  intro he
  unfold StillPending at hp
  rw [he] at hp
  obtain ⟨_, -, hk⟩ := hp
  obtain ⟨y, hy, hid⟩ := h.owned hk
  exact hg.out y hy hid

/-- A name has no handle until a timeout is set under it. -/
theorem handle_none (hs : ClientStep c e c') {id : I} :
    c'.handle id = none ↔ c.handle id = none ∧ ∀ d state, e.1 ≠ .setTimeoutAt id d state := by
  cases hs with
  | setTimeoutAt t' id' d state handle _ _ =>
    show update c.handle id' _ id = none ↔ _
    by_cases e : id = id'
    · subst e
      simp
    · rw [Function.update_of_ne e]
      simp [Ne.symm e]
  | cancelTimeout => simp
  | pollTo => simp

/-- What is gone stays gone. -/
theorem Gone.step (hg : Gone x c w) (h : Sim tickMs c w) (hs : ClientStep c e c') (hl : ListStep tickMs w e w') : Gone x c' w' := by
  refine ⟨fun hn => hg.set ((handle_none hs).mp hn).1, fun y hy => ?_⟩
  cases hl with
  | setTimeoutAt id _ state tick _ _ =>
    cases hs with
    | setTimeoutAt t' _ _ _ handle hid _ =>
      rcases Lists.mem_insert.mp hy with rfl | hy
      · exact fun e => hg.set (e ▸ hid)
      · exact hg.out y hy
  | cancelTimeout z _ => exact hg.out y (Lists.mem_remove.mp hy).1
  | pollTo _ _ _ hp =>
    rcases hp.mem h.post with ⟨-, hm⟩ | ⟨z, -, -, hm⟩
    · exact hg.out y ((hm y).mp hy)
    · exact hg.out y ((hm y).mp hy).1

/-- A step on another timeout, or a poll, is the same step without `x`, unless it hands
    out `x`. -/
theorem ListStep.remove (h : Sim tickMs c w) (hl : ListStep tickMs w e w') (hx : e.1.id? ≠ some x) :
    ListStep tickMs (w.remove x) e (w'.remove x) ∨ ∃ y, w.Mem y ∧ y.id = x ∧ ∀ z, w'.Mem z → z.id ≠ x := by
  cases hl with
  | setTimeoutAt id d state tick hd hmax =>
    have hne : id ≠ x := fun e => hx (congrArg some e)
    rw [Lists.remove_insert _ hne]
    exact .inl (.setTimeoutAt (w.remove x) id d state tick hd hmax)
  | cancelTimeout y hy =>
    have hne : y.id ≠ x := fun e => hx (congrArg some e)
    rw [Lists.remove_remove]
    exact .inl (.cancelTimeout (w.remove x) y (Lists.mem_remove.mpr ⟨hy, hne⟩))
  | pollTo _ target out hp =>
    by_cases ho : ∃ y, out = some y ∧ y.id = x
    · obtain ⟨y, rfl, rfl⟩ := ho
      rcases hp.mem h.post with ⟨hn, -⟩ | ⟨y', he, hy, hm⟩
      · cases hn
      · cases he
        exact .inr ⟨y, hy, rfl, fun z hz => ((hm z).mp hz).2⟩
    · exact .inl (.pollTo (w.remove x) _ target out (hp.remove fun y hy hid => ho ⟨y, hy, hid⟩))

omit [DecidableEq I] in
/-- A slab that holds no more than another, which has a free key, has a free key. -/
theorem free_key {v : Lists I T} (h : Sim tickMs c w) (hd : Sim tickMs d v) (hle : ∀ y, v.Mem y → w.Mem y) {k : Token}
    (hne : k ≠ EMPTY) (hk : c.owner k = none) : ∃ k, k ≠ EMPTY ∧ d.owner k = none := by
  obtain ⟨-, a, hra, hsa⟩ := h
  obtain ⟨-, b, -, hsb⟩ := hd
  by_contra hno
  push Not at hno
  have hkey : ∀ i : { i : Token // i ≠ EMPTY }, ∃ j : { j : Token // j ≠ EMPTY }, c.owner j = d.owner i ∧ d.owner i ≠ none := by
    intro i
    obtain ⟨id, hid⟩ := Option.ne_none_iff_exists'.mp (hno i i.2)
    obtain ⟨y, hy, -⟩ := hsb.named i id hid
    have hm : w.Mem ⟨id, y.1, y.2⟩ := hle _ ((hsb.mem_iff _).mpr ⟨i, hid, hy⟩)
    obtain ⟨j, hj, hdue⟩ := (hsa.mem_iff _).mp hm
    exact ⟨⟨j, hra.ne_empty hdue⟩, hj.trans hid.symm, hno i i.2⟩
  choose f hf using hkey
  have hinj : Function.Injective f := by
    intro i j hij
    obtain ⟨id, hid⟩ := Option.ne_none_iff_exists'.mp (hf i).2
    have hj : d.owner j = some id := by rw [← (hf j).1, ← hij, (hf i).1, hid]
    exact Subtype.ext (hsb.inj hj hid)
  have hfin : Finite Token := Finite.of_injective (fun i : Token => i.val.toFin) fun i j h => by
    cases i
    cases j
    exact congrArg Token.mk (BitVec.toFin_inj.mp h)
  obtain ⟨i, hi⟩ := Finite.injective_iff_surjective.mp hinj ⟨k, hne⟩
  have := (hf i).1
  rw [hi] at this
  exact (hf i).2 (this.symm.trans hk)

end Steps

/-! ## The two runs -/

/-- The calls that are not on `x`. -/
def others (x : I) (τ : List (Op I T × Option T)) : List (Op I T × Option T) := τ.filter fun e => e.1.id? ≠ some x

theorem others_concat (x : I) (τ : List (Op I T × Option T)) (e : Op I T × Option T) :
    others x (τ ++ [e]) = if e.1.id? = some x then others x τ else others x τ ++ [e] := by
  unfold others
  rw [List.filter_append]
  split
  · rename_i h
    rw [List.filter_cons_of_neg (by simpa using h), List.filter_nil, List.append_nil]
  · rename_i h
    rw [List.filter_cons_of_pos (by simpa using h), List.filter_nil]

section Runs

variable {tickMs numSlots : Nat} {x : I}

def Cancelled (x : I) (τ : List (Op I T × Option T)) : Prop := ∃ a, (.cancelTimeout x, a) ∈ τ

omit [DecidableEq I] in
theorem cancelled_concat {τ : List (Op I T × Option T)} {e : Op I T × Option T} (h : Cancelled x (τ ++ [e]))
    (hne : e.1 ≠ .cancelTimeout x) : Cancelled x τ := by
  obtain ⟨a, ha⟩ := h
  rcases List.mem_append.mp ha with ha | ha
  · exact ⟨a, ha⟩
  · rw [List.mem_singleton] at ha
    exact absurd (by rw [← ha]) hne

/-- After the run `τ` to `c` the run of the others is at `d`, with the lists of `c` less
    `x`. -/
structure Beside (tickMs numSlots : Nat) (x : I) (τ : List (Op I T × Option T)) (c d : Client I T) (w : Lists I T) : Prop where
  sim : Sim tickMs c w
  sim' : Sim tickMs d (w.remove x)
  run : Run (client I T tickMs numSlots) (others x τ) d
  lists : Run (lists I T tickMs (Timer.new tickMs numSlots : Timer T).slotFor) (others x τ) (w.remove x)
  free : ∀ id, c.handle id = none → d.handle id = none
  gone : Cancelled x τ → Gone x c w

namespace Beside

variable {τ : List (Op I T × Option T)} {c c' d : Client I T} {w w' : Lists I T} {e : Op I T × Option T}

/-- A call on `x`. -/
theorem own (h : Beside tickMs numSlots x τ c d w) (hs : ClientStep c e c') (hp : StillPending c e) (hx : e.1.id? = some x) :
    ∃ w', Beside tickMs numSlots x (τ ++ [e]) c' d w' := by
  obtain ⟨w', hl, hsim⟩ := client_step h.sim hs hp
  have hothers : others x (τ ++ [e]) = others x τ := by rw [others_concat, if_pos hx]
  have hrem : w'.remove x = w.remove x := by
    cases hl with
    | setTimeoutAt id =>
      cases hx
      exact Lists.remove_insert_self _ _
    | cancelTimeout y =>
      cases hx
      exact Lists.remove_idem _ _
    | pollTo => cases hx
  refine ⟨w', hsim, hrem ▸ h.sim', hothers ▸ h.run, ?_, ?_, ?_⟩
  · rw [hothers, hrem]
    exact h.lists
  · exact fun id hid => h.free id ((handle_none hs).mp hid).1
  · intro hcan
    cases hl with
    | setTimeoutAt id =>
      cases hx
      cases hs with
      | setTimeoutAt t' _ _ _ handle hid _ => exact absurd hid (h.gone (cancelled_concat hcan (by simp))).set
    | cancelTimeout y =>
      cases hx
      refine ⟨?_, fun z hz => (Lists.mem_remove.mp hz).2⟩
      cases hs with
      | cancelTimeout t' _ handle out hid _ => exact fun hn => by rw [hn] at hid; cases hid
    | pollTo => cases hx

/-- A call on another timeout, or a poll. -/
theorem other (h : Beside tickMs numSlots x τ c d w) (hs : ClientStep c e c') (hp : StillPending c e) (hx : e.1.id? ≠ some x) :
    (∃ w' d', Beside tickMs numSlots x (τ ++ [e]) c' d' w') ∨ (¬ Cancelled x (τ ++ [e]) ∧ ∃ w', Sim tickMs c' w' ∧ Gone x c' w') := by
  obtain ⟨w', hl, hsim⟩ := client_step h.sim hs hp
  have hne : e.1 ≠ .cancelTimeout x := fun he => hx (by rw [he]; rfl)
  rcases ListStep.remove h.sim hl hx with hl' | ⟨y, hy, hid, hout⟩
  · left
    have hallows : Allows d e.1 := by
      cases hs with
      | setTimeoutAt t' id dur state handle hid hcall =>
        refine ⟨h.free id hid, ?_⟩
        cases hcall with
        | setTimeoutAt _ _ _ key _ hk hne _ =>
          refine free_key h.sim h.sim' (fun y hy => (Lists.mem_remove.mp hy).1) hne ?_
          obtain ⟨-, b, hr, hsh⟩ := h.sim
          cases ho : c.owner key with
          | none => rfl
          | some id' =>
            obtain ⟨a, ha, -⟩ := hsh.named key id' ho
            rw [hr.due_none.mpr hk] at ha
            cases ha
      | cancelTimeout => trivial
      | pollTo => trivial
    obtain ⟨d', hs', hsim'⟩ := realize h.sim' hl' hallows
    have hothers : others x (τ ++ [e]) = others x τ ++ [e] := by rw [others_concat, if_neg hx]
    refine ⟨w', d', hsim, hsim', ?_, ?_, ?_, fun hcan => ?_⟩
    · rw [hothers]
      exact h.run.step hs'
    · rw [hothers]
      exact h.lists.step hl'
    · intro id hid
      obtain ⟨hid, hset⟩ := (handle_none hs).mp hid
      exact (handle_none hs').mpr ⟨h.free id hid, hset⟩
    · exact (h.gone (cancelled_concat hcan hne)).step h.sim hs hl
  · right
    have hset : c.handle x ≠ none := by
      obtain ⟨-, b, -, hsh⟩ := h.sim
      obtain ⟨k, hk, -⟩ := (hsh.mem_iff y).mp hy
      obtain ⟨a, -, ha⟩ := hsh.named k y.id hk
      rw [hid] at ha
      rw [ha]
      exact Option.some_ne_none _
    exact ⟨fun hcan => (h.gone (cancelled_concat hcan hne)).out y hy hid, w', hsim, fun hn => hset ((handle_none hs).mp hn).1, hout⟩

end Beside

/-- A run of the client whose cancelled timeouts all pend, with the run of the others
    beside it, unless `x` has fired. -/
theorem beside_inv {τ : List (Op I T × Option T)} {c : Client I T}
    (h : Run ((client I T tickMs numSlots).restrict StillPending) τ c) :
    (∃ w d, Beside tickMs numSlots x τ c d w) ∨ (¬ Cancelled x τ ∧ ∃ w, Sim tickMs c w ∧ Gone x c w) := by
  induction h with
  | init hi =>
    obtain rfl := hi
    refine .inl ⟨.init _, ⟨Timer.new tickMs numSlots, fun _ => none, fun _ => none⟩, client_init I T tickMs numSlots,
      client_init I T tickMs numSlots, .init rfl, .init rfl, fun _ _ => rfl, fun hc => ?_⟩
    obtain ⟨a, ha⟩ := hc
    cases ha
  | @step τ c c' e _ hs ih =>
    obtain ⟨hs, hp⟩ := hs
    rcases ih with ⟨w, d, h⟩ | ⟨hcan, w, hsim, hg⟩
    · by_cases hx : e.1.id? = some x
      · obtain ⟨w', h'⟩ := h.own hs hp hx
        exact .inl ⟨w', d, h'⟩
      · exact h.other hs hp hx
    · obtain ⟨w', hl, hsim'⟩ := client_step hsim hs hp
      exact .inr ⟨fun hc => hcan (cancelled_concat hc (hg.not_cancelled hsim hp)), w', hsim', hg.step hsim hs hl⟩

/-- The calls of a run of the lists get the same answers from every client that makes
    them. -/
theorem run_follow {τ : List (Op I T × Option T)} {c : Client I T} (h : Run (client I T tickMs numSlots) τ c) :
    ∀ {ρ : List (Op I T × Option T)} {w : Lists I T}, Run (lists I T tickMs (Timer.new tickMs numSlots : Timer T).slotFor) ρ w →
      τ.map Prod.fst = ρ.map Prod.fst → τ = ρ ∧ Sim tickMs c w := by
  induction h with
  | init hi =>
    intro ρ w hl he
    obtain rfl := List.map_eq_nil_iff.mp he.symm
    generalize hρ : ([] : List (Op I T × Option T)) = ρ at hl
    cases hl with
    | init hw =>
      obtain rfl := hi
      obtain rfl := hw
      exact ⟨rfl, client_init I T tickMs numSlots⟩
    | step => simp at hρ
  | @step τ c c' e hr hs ih =>
    intro ρ w hl he
    cases hl with
    | init => simp at he
    | @step ρ w₀ _ e₀ hl hls =>
      rw [List.map_append, List.map_append] at he
      obtain ⟨hpre, hlast⟩ := List.append_inj' he rfl
      obtain ⟨rfl, hsim⟩ := ih hl hpre
      obtain ⟨rfl, hsim'⟩ := follow hsim hls hs (by simpa using hlast)
      exact ⟨rfl, hsim'⟩

/-- A timeout that is cancelled may as well not have been set: the other calls can be
    made without it, and get the answers they got with it. -/
theorem cancelled_leaves_no_trace {τ : List (Op I T × Option T)} {c : Client I T}
    (h : Run ((client I T tickMs numSlots).restrict StillPending) τ c) (hx : Cancelled x τ) :
    (∃ d, Run (client I T tickMs numSlots) (others x τ) d) ∧
      ∀ ρ d, Run (client I T tickMs numSlots) ρ d → ρ.map Prod.fst = (others x τ).map Prod.fst → ρ = others x τ := by
  rcases beside_inv h with ⟨w, d, hb⟩ | ⟨hcan, -⟩
  · exact ⟨⟨d, hb.run⟩, fun ρ d hr he => (run_follow hr hb.lists he).1⟩
  · exact absurd hx hcan

/-- Two timeouts of 1 ms, the first cancelled; the second fires at tick 1. -/
def twoTimeouts : List (Op Nat Nat × Option Nat) :=
  [(.setTimeoutAt 0 (.fromMillis 1 (by decide)) 10, none), (.setTimeoutAt 1 (.fromMillis 1 (by decide)) 11, none),
    (.cancelTimeout 0, some 10), (.pollTo 1, some 11)]

theorem run_twoTimeouts : ∃ c, Run ((client Nat Nat 1 8).restrict StillPending) twoTimeouts c := by
  have h0 : Run ((client Nat Nat 1 8).restrict StillPending) []
      ⟨⟨1, fun _ => none, fun _ => ⟨TICK_MAX, EMPTY⟩, 0, EMPTY, 7⟩, fun _ => none, fun _ => none⟩ := by
    refine .init ?_
    show _ = _
    rw [new_eight]
  have h1 := h0.step ⟨.setTimeoutAt _ _ 0 (.fromMillis 1 (by decide)) 10 _ rfl (.setTimeoutAt _ _ _ 10 ⟨0⟩ _ rfl (by decide)
    ((setTimeoutAt_eq 10 ⟨0⟩ (show durationToTick _ _ = .ok 1 from rfl) rfl).trans rfl)), trivial⟩
  have h2 := h1.step ⟨.setTimeoutAt _ _ 1 (.fromMillis 1 (by decide)) 11 _ rfl (.setTimeoutAt _ _ _ 11 ⟨1⟩ _ rfl (by decide)
    ((setTimeoutAt_eq 11 ⟨1⟩ (show durationToTick _ _ = .ok 1 from rfl) rfl).trans rfl)), trivial⟩
  have h3 := h2.step ⟨.cancelTimeout _ _ 0 _ (some 10) rfl (.cancelTimeout _ _ _ _ rfl), _, rfl, rfl⟩
  have h4 := h3.step ⟨.pollTo _ _ 1 _ (.pollTo _ _ 3 1 (some (⟨1⟩, ⟨11, ⟨1, EMPTY, EMPTY⟩⟩)) rfl), trivial⟩
  exact ⟨_, h4⟩

theorem cancelled_leaves_no_trace_two : (∃ d, Run (client Nat Nat 1 8)
      [(.setTimeoutAt 1 (.fromMillis 1 (by decide)) 11, none), (.pollTo 1, some 11)] d) ∧
    ∀ ρ d, Run (client Nat Nat 1 8) ρ d → ρ.map Prod.fst = (others 0 twoTimeouts).map Prod.fst → ρ = others 0 twoTimeouts := by
  obtain ⟨c, h⟩ := run_twoTimeouts
  have hx : Cancelled 0 twoTimeouts := ⟨some 10, by simp [twoTimeouts]⟩
  exact cancelled_leaves_no_trace h hx

end Runs

end Sickle.Timers
