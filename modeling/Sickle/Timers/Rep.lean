/-
  Sickle.Timers.Rep — the slab, the links and the cursor are a board.

  `Rep t b`: in timer `t` the list of each slot of board `b` is threaded through the
  slab from the slot's head, the slab holds exactly the pending timeouts, and `next` is
  the first key of `b.post` (EMPTY when the cursor is past the list).

  Every operation on a represented timer succeeds — no key it looks up is missing — and
  is the board's operation:
  - `insert_rep`;
  - `take_rep`: `unlink` and then `remove`;
  - `pollRound_rep`, and `pollLoop_rep`: what a whole poll answers is what the board's
    rounds give;
  - `nextTick_rep`: the next tick is one of the board's bounds.
-/

import Sickle.Lib.Dll
import Sickle.Timers.Board

namespace Sickle.Timers

open Function (update)
open Sickle.Lib Sickle.Lib.Dll

variable {T : Type}

/-- The links of the slab. -/
def lk (es : Entries T) : Links Token := fun k => (es k).map fun e => (e.links.prev, e.links.next)

/-- The ticks and states of the slab. -/
def view (es : Entries T) : Token → Option (Nat × T) := fun k => (es k).map fun e => (e.links.tick, e.state)

structure Rep (t : Timer T) (b : Board T) : Prop where
  slot : b.slot = t.slotFor
  tick : b.tick = t.tick
  due : b.due = view t.entries
  noEmpty : b.due EMPTY = none
  head : ∀ s, (t.wheel s).head = (b.list s).headD EMPTY
  bound : ∀ s, (t.wheel s).nextTick = b.bound s
  seg : ∀ s, Seg (lk t.entries) EMPTY (b.list s) EMPTY
  next : t.next = b.post.headD EMPTY

/-! ## The slab's link writes -/

theorem lk_update (es : Entries T) (k : Token) (e : Option (Entry T)) :
    lk (update es k e) = update (lk es) k (e.map fun e => (e.links.prev, e.links.next)) := by
  funext x
  by_cases h : x = k
  · subst h; simp [lk]
  · simp [lk, Function.update_of_ne h]

theorem view_update (es : Entries T) (k : Token) (e : Option (Entry T)) :
    view (update es k e) = update (view es) k (e.map fun e => (e.links.tick, e.state)) := by
  funext x
  by_cases h : x = k
  · subst h; simp [view]
  · simp [view, Function.update_of_ne h]

/-- `es'` is `es` with other links at `k`. -/
structure Relinked (es es' : Entries T) (k : Token) : Prop where
  view : view es' = view es
  other : ∀ x, x ≠ k → es' x = es x

theorem setPrev_ok {es : Entries T} {k : Token} (v : Token) (h : ∃ e, es k = some e) :
    ∃ es', setPrev es k v = .ok es' ∧ lk es' = Dll.setPrev (lk es) k v ∧ Relinked es es' k := by
  obtain ⟨e, he⟩ := h
  refine ⟨_, by rw [setPrev, he], ?_, ?_, fun x hx => Function.update_of_ne hx ..⟩
  · rw [lk_update, Dll.setPrev]; simp [lk, he]
  · rw [view_update, Option.map_some]
    exact Function.update_eq_self_iff.mpr (by simp [view, he])

theorem setNext_ok {es : Entries T} {k : Token} (v : Token) (h : ∃ e, es k = some e) :
    ∃ es', setNext es k v = .ok es' ∧ lk es' = Dll.setNext (lk es) k v ∧ Relinked es es' k := by
  obtain ⟨e, he⟩ := h
  refine ⟨_, by rw [setNext, he], ?_, ?_, fun x hx => Function.update_of_ne hx ..⟩
  · rw [lk_update, Dll.setNext]; simp [lk, he]
  · rw [view_update, Option.map_some]
    exact Function.update_eq_self_iff.mpr (by simp [view, he])

namespace Rep

variable {t : Timer T} {b : Board T}

theorem entry_of_due (h : Rep t b) {k : Token} {d : Nat × T} (hd : b.due k = some d) :
    ∃ e, t.entries k = some e ∧ e.links.tick = d.1 ∧ e.state = d.2 := by
  rw [h.due] at hd
  obtain ⟨e, he, rfl⟩ := Option.map_eq_some_iff.mp hd
  exact ⟨e, he, rfl, rfl⟩

theorem due_of_entry (h : Rep t b) {k : Token} {e : Entry T} (he : t.entries k = some e) :
    b.due k = some (e.links.tick, e.state) := by
  rw [h.due]; simp [view, he]

theorem due_none (h : Rep t b) {k : Token} : b.due k = none ↔ t.entries k = none := by
  rw [h.due]; simp [view]

theorem entry_of_mem (h : Rep t b) {s : Nat} {k : Token} (hm : k ∈ b.list s) : ∃ e, t.entries k = some e := by
  obtain ⟨d, hd, -⟩ := b.due_of_mem hm
  obtain ⟨e, he, -⟩ := h.entry_of_due hd
  exact ⟨e, he⟩

theorem empty_not_mem (h : Rep t b) (s : Nat) : EMPTY ∉ b.list s := by
  intro hm
  obtain ⟨d, hd, -⟩ := b.due_of_mem hm
  rw [h.noEmpty] at hd; cases hd

theorem ne_empty (h : Rep t b) {k : Token} {d : Nat × T} (hd : b.due k = some d) : k ≠ EMPTY := by
  intro e; subst e; rw [h.noEmpty] at hd; cases hd

end Rep

theorem new_rep (tickMs numSlots : Nat) :
    Rep (Timer.new tickMs numSlots : Timer T) (Board.init (Timer.slotFor (Timer.new tickMs numSlots : Timer T))) where
  slot := rfl
  tick := rfl
  due := rfl
  noEmpty := rfl
  head _ := rfl
  bound _ := rfl
  seg _ := trivial
  next := rfl

/-! ## insert -/

theorem insert_rep {t : Timer T} {b : Board T} (h : Rep t b) (tick : Nat) (state : T) {key : Token}
    (hk : b.due key = none) (hne : key ≠ EMPTY) :
    ∃ t', t.insert tick state key = .ok (t', ⟨key, tick⟩) ∧ Rep t' (b.insert key tick state hk) ∧ t'.tickMs = t.tickMs := by
  have hkl : ∀ s, key ∉ b.list s := fun s hm => by
    obtain ⟨d, hd, -⟩ := b.due_of_mem hm
    rw [hk] at hd; cases hd
  have hhead := h.head (t.slotFor tick)
  obtain ⟨es, hes, hlk, hview⟩ : ∃ es, setPrevIf
        (update t.entries key (some ⟨state, ⟨tick, EMPTY, (t.wheel (t.slotFor tick)).head⟩⟩))
        (t.wheel (t.slotFor tick)).head key = .ok es ∧
      lk es = Dll.pushFront (lk t.entries) EMPTY ((b.list (t.slotFor tick)).headD EMPTY) key ∧
      view es = update (view t.entries) key (some (tick, state)) := by
    rw [hhead, Dll.pushFront, setPrevIf]
    by_cases he : (b.list (t.slotFor tick)).headD EMPTY = EMPTY
    · refine ⟨_, if_neg (not_not.mpr he), ?_, ?_⟩
      · rw [if_pos he, lk_update]; rfl
      · rw [view_update]; rfl
    · have hm := (headD_mem_or EMPTY (b.list (t.slotFor tick))).resolve_left he
      obtain ⟨e, hel⟩ := h.entry_of_mem hm
      have hek : (b.list (t.slotFor tick)).headD EMPTY ≠ key := fun e => hkl _ (e ▸ hm)
      have hlive : ∃ e, update t.entries key (some ⟨state, ⟨tick, EMPTY, (b.list (t.slotFor tick)).headD EMPTY⟩⟩)
          ((b.list (t.slotFor tick)).headD EMPTY) = some e := ⟨e, by rw [Function.update_of_ne hek]; exact hel⟩
      obtain ⟨es, h1, h2, h3⟩ := setPrev_ok key hlive
      refine ⟨es, by rw [if_pos he]; exact h1, ?_, ?_⟩
      · rw [if_neg he, h2, lk_update]; rfl
      · rw [h3.view, view_update]; rfl
  refine ⟨⟨t.tickMs, es, update t.wheel (t.slotFor tick) ⟨min tick (t.wheel (t.slotFor tick)).nextTick, key⟩, t.tick,
    t.next, t.mask⟩, by simp only [Timer.insert, hes, bind, Except.bind], ?_, rfl⟩
  have hslot : b.slot tick = t.slotFor tick := by rw [h.slot]
  constructor
  · exact h.slot
  · exact h.tick
  · show update b.due key (some (tick, state)) = view es
    rw [hview, h.due]
  · show update b.due key (some (tick, state)) EMPTY = none
    rw [Function.update_of_ne hne.symm]; exact h.noEmpty
  · intro s
    show (update t.wheel (t.slotFor tick) _ s).head = (update b.list (b.slot tick) _ s).headD EMPTY
    rw [hslot]
    by_cases e : s = t.slotFor tick
    · subst e; simp
    · rw [Function.update_of_ne e, Function.update_of_ne e]; exact h.head s
  · intro s
    show (update t.wheel (t.slotFor tick) _ s).nextTick = update b.bound (b.slot tick) _ s
    rw [hslot]
    by_cases e : s = t.slotFor tick
    · subst e; simp [h.bound]
    · rw [Function.update_of_ne e, Function.update_of_ne e]; exact h.bound s
  · intro s
    show Seg (lk es) EMPTY (update b.list (b.slot tick) _ s) EMPTY
    rw [hslot, hlk]
    by_cases e : s = t.slotFor tick
    · subst e
      rw [Function.update_self]
      exact (h.seg _).pushFront (hkl _) (h.empty_not_mem _) (b.nodup _)
    · rw [Function.update_of_ne e]
      refine (h.seg s).congr fun x hx => pushFront_frame _ (fun e => hkl s (e ▸ hx)) ?_
      rcases headD_mem_or EMPTY (b.list (t.slotFor tick)) with he | hm
      · exact .inl he
      · refine .inr fun hxe => e ?_
        obtain ⟨d, hd, hs⟩ := b.due_of_mem hx
        obtain ⟨d', hd', hs'⟩ := b.due_of_mem (hxe ▸ hm)
        rw [hd] at hd'; cases hd'; rw [← hs, hs']
  · exact h.next

/-! ## unlink and remove -/

/-- What `unlink` of the key `k` with links `links` does to a timer. -/
structure Unlinked (t t' : Timer T) (links : EntryLinks) (k : Token) : Prop where
  tickMs : t'.tickMs = t.tickMs
  mask : t'.mask = t.mask
  tick : t'.tick = t.tick
  next : t'.next = if k = t.next then links.next else t.next
  view : view t'.entries = view t.entries
  entry : t'.entries k = t.entries k
  lk : update (lk t'.entries) k none = Dll.unlink (lk t.entries) EMPTY (links.prev, links.next) k
  bound : ∀ s, (t'.wheel s).nextTick = (t.wheel s).nextTick
  head : ∀ s, (t'.wheel s).head = if s = t.slotFor links.tick ∧ links.prev = EMPTY then links.next else (t.wheel s).head

theorem unlink_ok {t : Timer T} {links : EntryLinks} {k : Token}
    (hp : links.prev = EMPTY ∨ ∃ e, t.entries links.prev = some e) (hpk : links.prev ≠ k)
    (hn : links.next = EMPTY ∨ ∃ e, t.entries links.next = some e) (hnk : links.next ≠ k) :
    ∃ t', t.unlink links k = .ok t' ∧ Unlinked t t' links k := by
  obtain ⟨es, w, h1, hlk1, hview1, hk1, hbound, hhead⟩ : ∃ es w,
      t.unlinkPrev links = .ok { t with entries := es, wheel := w } ∧
      lk es = (if links.prev = EMPTY then lk t.entries else Dll.setNext (lk t.entries) links.prev links.next) ∧
      view es = view t.entries ∧ es k = t.entries k ∧ (∀ s, (w s).nextTick = (t.wheel s).nextTick) ∧
      ∀ s, (w s).head = if s = t.slotFor links.tick ∧ links.prev = EMPTY then links.next else (t.wheel s).head := by
    by_cases h : links.prev = EMPTY
    · refine ⟨t.entries, _, by rw [Timer.unlinkPrev, if_pos h], by rw [if_pos h], rfl, rfl, fun s => ?_, fun s => ?_⟩
      · by_cases e : s = t.slotFor links.tick
        · subst e; rw [Function.update_self]
        · rw [Function.update_of_ne e]
      · by_cases e : s = t.slotFor links.tick
        · subst e; rw [Function.update_self, if_pos ⟨rfl, h⟩]
        · rw [Function.update_of_ne e, if_neg fun hs => e hs.1]
    · obtain ⟨es, h1, h2, h3⟩ := setNext_ok links.next (hp.resolve_left h)
      refine ⟨es, t.wheel, by rw [Timer.unlinkPrev, if_neg h, h1]; rfl, by rw [if_neg h]; exact h2, h3.view,
        h3.other k hpk.symm, fun _ => rfl, fun s => ?_⟩
      rw [if_neg fun hs => h hs.2]
  obtain ⟨es', h2, hlk2, hview2, hk2⟩ : ∃ es', setPrevIf es links.next links.prev = .ok es' ∧
      lk es' = (if links.next = EMPTY then lk es else Dll.setPrev (lk es) links.next links.prev) ∧
      view es' = view es ∧ es' k = es k := by
    by_cases h : links.next = EMPTY
    · exact ⟨es, if_neg (not_not.mpr h), by rw [if_pos h], rfl, rfl⟩
    · have hlive : ∃ e, es links.next = some e := by
        obtain ⟨e, he⟩ := hn.resolve_left h
        have hv : view es links.next = view t.entries links.next := by rw [hview1]
        simp only [view, he, Option.map_some] at hv
        obtain ⟨e', he', -⟩ := Option.map_eq_some_iff.mp hv
        exact ⟨e', he'⟩
      obtain ⟨es', h1, h2, h3⟩ := setPrev_ok links.prev hlive
      exact ⟨es', by rw [setPrevIf, if_pos h, h1], by rw [if_neg h]; exact h2, h3.view, h3.other k hnk.symm⟩
  refine ⟨⟨t.tickMs, es', w, t.tick, if k = t.next then links.next else t.next, t.mask⟩, ?_, ?_⟩
  · rw [Timer.unlink, h1]
    show Timer.unlinkNext _ links k = _
    rw [Timer.unlinkNext, h2]; rfl
  · refine ⟨rfl, rfl, rfl, rfl, hview2.trans hview1, hk2.trans hk1, ?_, hbound, hhead⟩
    show update (Timers.lk es') k none = _
    rw [hlk2, hlk1]; rfl

/-- Where a pending timeout is: its neighbours in its slot's list are its links. -/
theorem Rep.neighbours {t : Timer T} {b : Board T} (h : Rep t b) {k : Token} {e : Entry T} (he : t.entries k = some e) :
    ∃ xs ys, b.list (t.slotFor e.links.tick) = xs ++ k :: ys ∧ e.links.prev = xs.getLastD EMPTY ∧ e.links.next = ys.headD EMPTY := by
  have hm := b.mem_home (h.due_of_entry he)
  rw [h.slot] at hm
  obtain ⟨xs, ys, hl⟩ := List.append_of_mem hm
  have hlk := (hl ▸ h.seg (t.slotFor e.links.tick)).links
  rw [lk, he, Option.map_some, Option.some.injEq, Prod.mk.injEq] at hlk
  exact ⟨xs, ys, hl, hlk.1, hlk.2⟩

theorem filter_ne_split {k : Token} {xs ys : List Token} (h : (xs ++ k :: ys).Nodup) :
    (xs ++ k :: ys).filter (· ≠ k) = xs ++ ys := by
  obtain ⟨-, hky, hd⟩ := List.nodup_append.mp h
  have hx : ∀ x ∈ xs, x ≠ k := fun x hx => hd x hx k (List.mem_cons_self ..)
  have hy : ∀ y ∈ ys, y ≠ k := fun y hy e => (List.nodup_cons.mp hky).1 (e ▸ hy)
  rw [List.filter_append, List.filter_cons_of_neg (by simp)]
  rw [List.filter_eq_self.mpr (by simpa using hx), List.filter_eq_self.mpr (by simpa using hy)]

theorem filter_ne_self {k : Token} {xs : List Token} (h : k ∉ xs) : xs.filter (· ≠ k) = xs :=
  List.filter_eq_self.mpr fun x hx => by simpa using ne_of_mem_of_not_mem hx h

theorem take_rep {t : Timer T} {b : Board T} (h : Rep t b) {k : Token} {e : Entry T} (he : t.entries k = some e) :
    ∃ t1 t', t.unlink e.links k = .ok t1 ∧ t1.remove k = .ok (t', e) ∧ Rep t' (b.remove k) ∧ t'.tickMs = t.tickMs := by
  obtain ⟨xs, ys, hl, hprev, hnext⟩ := h.neighbours he
  have hnd := hl ▸ b.nodup (t.slotFor e.links.tick)
  obtain ⟨ndx, ndky, hdis⟩ := List.nodup_append.mp hnd
  have hke : k ≠ EMPTY := h.ne_empty (h.due_of_entry he)
  have hmem : ∀ x, x ∈ xs ∨ x ∈ ys → x ∈ b.list (t.slotFor e.links.tick) := by
    intro x hx; rw [hl]; rcases hx with hx | hx <;> simp [hx]
  have hp : e.links.prev = EMPTY ∨ e.links.prev ∈ xs := hprev ▸ getLastD_mem_or _ xs
  have hn : e.links.next = EMPTY ∨ e.links.next ∈ ys := hnext ▸ headD_mem_or _ ys
  have hpk : e.links.prev ≠ k := by
    rcases hp with hp | hp
    · rw [hp]; exact hke.symm
    · exact hdis _ hp k (List.mem_cons_self ..)
  have hnk : e.links.next ≠ k := by
    rcases hn with hn | hn
    · rw [hn]; exact hke.symm
    · rintro e'; exact (List.nodup_cons.mp ndky).1 (e' ▸ hn)
  obtain ⟨t1, h1, hu⟩ := unlink_ok (hp.imp_right fun hm => h.entry_of_mem (hmem _ (.inl hm))) hpk
    (hn.imp_right fun hm => h.entry_of_mem (hmem _ (.inr hm))) hnk
  refine ⟨t1, { t1 with entries := update t1.entries k none }, h1, by rw [Timer.remove, hu.entry, he], ?_, hu.tickMs⟩
  have hother : ∀ s, s ≠ t.slotFor e.links.tick → k ∉ b.list s := by
    intro s hs hm
    obtain ⟨d, hd, hds⟩ := b.due_of_mem hm
    rw [h.due_of_entry he, Option.some.injEq] at hd
    subst hd
    exact hs (by rw [← hds, h.slot])
  constructor
  · exact h.slot.trans (funext fun x => by show _ = x &&& t1.mask; rw [hu.mask]; rfl)
  · exact h.tick.trans hu.tick.symm
  · show update b.due k none = view (update t1.entries k none)
    rw [view_update, hu.view, h.due]; rfl
  · show update b.due k none EMPTY = none
    rw [Function.update_of_ne hke.symm]; exact h.noEmpty
  · intro s
    show (t1.wheel s).head = ((b.list s).filter (· ≠ k)).headD EMPTY
    rw [hu.head]
    by_cases es : s = t.slotFor e.links.tick
    · subst es
      rw [hl, filter_ne_split hnd]
      by_cases hpe : e.links.prev = EMPTY
      · have hxs : xs = [] := by
          rcases List.eq_nil_or_concat' xs with hx | ⟨as, a, rfl⟩
          · exact hx
          · rw [List.getLastD_concat] at hprev
            exact absurd (hmem a (.inl (by simp))) (by rw [← hprev, hpe]; exact h.empty_not_mem _)
        rw [if_pos ⟨rfl, hpe⟩, hnext, hxs, List.nil_append]
      · rw [if_neg fun hs => hpe hs.2, h.head, hl]
        cases xs with
        | nil => exact absurd hprev hpe
        | cons x xs => rfl
    · rw [filter_ne_self (hother s es), ← h.head s, if_neg fun hs => es hs.1]
  · exact fun s => (hu.bound s).trans (h.bound s)
  · intro s
    show Seg (lk (update t1.entries k none)) EMPTY ((b.list s).filter (· ≠ k)) EMPTY
    rw [lk_update, Option.map_none, hu.lk, hprev, hnext]
    by_cases es : s = t.slotFor e.links.tick
    · subst es
      rw [hl, filter_ne_split hnd]
      exact (hl ▸ h.seg _).unlink (hl ▸ h.empty_not_mem _) hnd
    · rw [filter_ne_self (hother s es)]
      have hapart : ∀ x y, x ∈ b.list s → y ∈ b.list (t.slotFor e.links.tick) → x ≠ y := by
        rintro x y hx hy rfl
        obtain ⟨d, hd, hds⟩ := b.due_of_mem hx
        obtain ⟨d', hd', hds'⟩ := b.due_of_mem hy
        rw [hd, Option.some.injEq] at hd'; subst hd'
        exact es (by rw [← hds, hds'])
      refine (h.seg s).congr fun x hx => unlink_frame _ (fun e => hother s es (e ▸ hx)) ?_ ?_
      · exact (hprev ▸ hp).imp_right fun hm => hapart x _ hx (hmem _ (.inl hm))
      · exact (hnext ▸ hn).imp_right fun hm => hapart x _ hx (hmem _ (.inr hm))
  · show t1.next = (b.post.filter (· ≠ k)).headD EMPTY
    rw [hu.next]
    have hpost := h.next
    cases hb : b.post with
    | nil =>
      rw [hb] at hpost
      rw [if_neg (by rw [hpost]; exact hke), hpost]; rfl
    | cons y zs =>
      rw [hb, List.headD_cons] at hpost
      have hnd' := b.here_nodup
      rw [hb] at hnd'
      by_cases hky : k = y
      · subst hky
        -- the cursor stood on the key: it goes to what follows it in the list
        have hseg := h.seg (b.slot b.tick)
        rw [b.split, hb] at hseg
        have hlinks := hseg.links
        rw [lk, he, Option.map_some, Option.some.injEq, Prod.mk.injEq] at hlinks
        have hkz : k ∉ zs := (List.nodup_cons.mp (List.nodup_append.mp hnd').2.1).1
        rw [if_pos hpost.symm, hlinks.2, List.filter_cons_of_neg (by simp), filter_ne_self hkz]
      · rw [if_neg (by rw [hpost]; exact hky), hpost, List.filter_cons_of_pos (by simpa using Ne.symm hky)]; rfl

/-! ## A round -/

/-- A fired timeout, as the board has it. -/
def fire (f : Token × Entry T) : Token × Nat × T := (f.1, f.2.links.tick, f.2.state)

theorem Rep.tickMax {t : Timer T} {b : Board T} (h : Rep t b) (hp : b.post = []) (hmax : b.tick ≠ U64_MAX ∨ b.post ≠ []) :
    t.tick ≠ U64_MAX := by
  rw [← h.tick]; exact hmax.resolve_right fun hne => hne hp

theorem wheel_head (w : Nat → WheelEntry) (s x n : Nat) : (update w s { w s with nextTick := n } x).head = (w x).head := by
  by_cases e : x = s
  · subst e; rw [Function.update_self]
  · rw [Function.update_of_ne e]

theorem wheel_nextTick (w : Nat → WheelEntry) (s x n : Nat) :
    (update w s { w s with nextTick := n } x).nextTick = update (fun y => (w y).nextTick) s n x := by
  by_cases e : x = s
  · subst e; rw [Function.update_self, Function.update_self]
  · rw [Function.update_of_ne e, Function.update_of_ne e]

theorem Rep.bound_eq {t : Timer T} {b : Board T} (h : Rep t b) : (fun y => (t.wheel y).nextTick) = b.bound := funext h.bound

theorem advance_rep {t : Timer T} {b : Board T} (h : Rep t b) (hp : b.post = []) (hmax : t.tick ≠ U64_MAX) :
    ∃ t', t.pollRound = .ok (t', none) ∧ Rep t' b.advance ∧ t'.tickMs = t.tickMs := by
  have hnext : t.next = EMPTY := by rw [h.next, hp]; rfl
  have hhead : (t.wheel (t.slotFor (t.tick + 1))).head = (b.list (b.slot (b.tick + 1))).headD EMPTY := by
    rw [h.slot, h.tick]; exact h.head _
  have hempty : (t.wheel (t.slotFor (t.tick + 1))).head = EMPTY ↔ b.list (b.slot (b.tick + 1)) = [] := by
    rw [hhead]
    cases hl : b.list (b.slot (b.tick + 1)) with
    | nil => simp
    | cons x xs =>
      have hx : x ≠ EMPTY := fun e => h.empty_not_mem _ (e ▸ hl ▸ List.mem_cons_self ..)
      simp [hx]
  refine ⟨_, by rw [Timer.pollRound]; simp only [hnext, if_true]; rw [if_neg hmax], ?_, ?_⟩
  · show Rep (if (t.wheel (t.slotFor (t.tick + 1))).head = EMPTY then _ else _) b.advance
    by_cases he : (t.wheel (t.slotFor (t.tick + 1))).head = EMPTY
    · rw [if_pos he]
      refine ⟨h.slot, congrArg (· + 1) h.tick, h.due, h.noEmpty, fun s => ?_, fun s => ?_, h.seg, hhead⟩
      · exact (wheel_head ..).trans (h.head s)
      · show (update t.wheel _ _ s).nextTick = (if _ then _ else _ : Nat → Nat) s
        rw [if_pos (hempty.mp he), h.slot, h.tick, wheel_nextTick, h.bound_eq]; rfl
    · rw [if_neg he]
      refine ⟨h.slot, congrArg (· + 1) h.tick, h.due, h.noEmpty, h.head, fun s => ?_, h.seg, hhead⟩
      show _ = (if _ then _ else _ : Nat → Nat) s
      rw [if_neg fun hl => he (hempty.mpr hl)]; exact h.bound s
  · by_cases he : (t.wheel (t.slotFor (t.tick + 1))).head = EMPTY
    · show (if (t.wheel (t.slotFor (t.tick + 1))).head = EMPTY then _ else _ : Timer T).tickMs = _
      rw [if_pos he]
    · show (if (t.wheel (t.slotFor (t.tick + 1))).head = EMPTY then _ else _ : Timer T).tickMs = _
      rw [if_neg he]

theorem lookAt_eq (t : Timer T) : ∃ w, t.lookAt = { t with wheel := w } := by
  simp only [Timer.lookAt]
  split
  · exact ⟨_, rfl⟩
  · exact ⟨t.wheel, rfl⟩

theorem look_rep {t : Timer T} {b : Board T} (h : Rep t b) {x : Token} {xs : List Token} (hp : b.post = x :: xs) :
    Rep t.lookAt b.look := by
  have hx : t.next = x := by rw [h.next, hp]; rfl
  have hhead : (t.wheel (t.slotFor t.tick)).head = (b.pre ++ x :: xs).headD EMPTY := by
    rw [h.head, ← hp, ← b.split, h.slot, h.tick]
  have hpre : t.next = (t.wheel (t.slotFor t.tick)).head ↔ b.pre = [] := by
    rw [hx, hhead]
    cases hb : b.pre with
    | nil => simp
    | cons y ys =>
      have hnd := b.here_nodup
      rw [hb, hp] at hnd
      have hyx : y ≠ x := fun e => (List.nodup_cons.mp hnd).1 (by simp [e])
      simpa using Ne.symm hyx
  unfold Timer.lookAt Board.look
  by_cases he : b.pre = []
  · rw [if_pos (hpre.mpr he), if_pos he]
    refine ⟨h.slot, h.tick, h.due, h.noEmpty, fun s => (wheel_head ..).trans (h.head s), fun s => ?_, h.seg, h.next⟩
    show (update t.wheel _ _ s).nextTick = update b.bound _ _ s
    rw [wheel_nextTick, h.bound_eq, h.slot, h.tick]
  · rw [if_neg (mt hpre.mp he), if_neg he]
    exact ⟨h.slot, h.tick, h.due, h.noEmpty, h.head, h.bound, h.seg, h.next⟩

theorem pollRound_fire {t t1 t2 : Timer T} {e : Entry T} (hne : t.next ≠ EMPTY) (he : t.entries t.next = some e)
    (hle : e.links.tick ≤ t.tick) (h1 : t.lookAt.unlink e.links t.next = .ok t1) (h2 : t1.remove t.next = .ok (t2, e)) :
    t.pollRound = .ok (t2, some (t.next, e)) := by
  obtain ⟨w, hw⟩ := lookAt_eq t
  rw [Timer.pollRound]
  simp only [if_neg hne]
  rw [hw] at h1 ⊢
  simp only [he, if_pos hle]
  simp only [h1, h2, bind, Except.bind]

theorem pollRound_pass {t : Timer T} {e : Entry T} (hne : t.next ≠ EMPTY) (he : t.entries t.next = some e)
    (hlt : t.tick < e.links.tick) :
    t.pollRound = .ok ({ t.lookAt with
      wheel := update t.lookAt.wheel (t.slotFor t.tick) { t.lookAt.wheel (t.slotFor t.tick) with
        nextTick := min (t.lookAt.wheel (t.slotFor t.tick)).nextTick e.links.tick }
      next := e.links.next }, none) := by
  obtain ⟨w, hw⟩ := lookAt_eq t
  rw [Timer.pollRound]
  simp only [if_neg hne]
  rw [hw]
  simp only [he, if_neg (Nat.not_le.mpr hlt)]

theorem pollRound_rep {t : Timer T} {b : Board T} (h : Rep t b) (hmax : b.tick ≠ U64_MAX ∨ b.post ≠ []) :
    ∃ t' out, t.pollRound = .ok (t', out) ∧ Rep t' b.round.1 ∧ out.map fire = b.round.2 ∧ t'.tickMs = t.tickMs := by
  obtain ⟨w, hw⟩ := lookAt_eq t
  cases hp : b.post with
  | nil =>
    obtain ⟨t', h1, h2, h3⟩ := advance_rep h hp (h.tickMax hp hmax)
    exact ⟨t', none, h1, by rw [Board.round_nil hp]; exact h2, by rw [Board.round_nil hp]; rfl, h3⟩
  | cons x xs =>
    obtain ⟨d, hd, -⟩ := b.due_of_mem_post (hp ▸ List.mem_cons_self ..)
    obtain ⟨e, he, het, hes⟩ := h.entry_of_due hd
    have hx : t.next = x := by rw [h.next, hp]; rfl
    have hne : t.next ≠ EMPTY := by rw [hx]; exact h.ne_empty hd
    have hlook := look_rep h hp
    have hentries : t.lookAt.entries = t.entries := by rw [hw]
    rw [Board.round_cons hp hd]
    by_cases hle : d.1 ≤ b.tick
    · obtain ⟨t1, t2, h1, h2, h3, h4⟩ := take_rep hlook (by rw [hentries]; exact he)
      refine ⟨t2, some (x, e), ?_, ?_, ?_, ?_⟩
      · rw [← hx] at he h1 h2 ⊢
        exact pollRound_fire hne he (by rw [het, ← h.tick]; exact hle) h1 h2
      · rw [if_pos hle]; exact h3
      · rw [if_pos hle]; simp [fire, het, hes]
      · rw [h4, hw]
    · have hlt : t.tick < e.links.tick := by rw [het, ← h.tick]; omega
      rw [← hx] at he
      refine ⟨_, none, pollRound_pass hne he hlt, ?_, by rw [if_neg hle]; rfl, by rw [hw]⟩
      rw [if_neg hle]
      have hseg := h.seg (b.slot b.tick)
      rw [b.split, hp] at hseg
      have hlinks := hseg.links
      rw [lk, ← hx, he, Option.map_some, Option.some.injEq, Prod.mk.injEq] at hlinks
      have hslot : t.slotFor t.tick = b.slot b.tick := by rw [h.slot, h.tick]
      refine ⟨hlook.slot, hlook.tick, hlook.due, hlook.noEmpty, fun s => (wheel_head ..).trans (hlook.head s), fun s => ?_,
        hlook.seg, ?_⟩
      · show (update t.lookAt.wheel _ _ s).nextTick = update b.look.bound _ _ s
        rw [wheel_nextTick, hlook.bound_eq, hslot, hlook.bound, het]
      · show e.links.next = (b.post.drop 1).headD EMPTY
        rw [hlinks.2, hp]; rfl

/-! ## The next tick -/

/-- `next_tick` is always the bound of some slot. -/
theorem nextTick_rep {t : Timer T} {b : Board T} (h : Rep t b) : ∃ s, t.nextTick = .ok (some (b.bound s)) := by
  obtain ⟨s, hs⟩ : ∃ s, t.minNextTick = some (b.bound s) := by
    unfold Timer.minNextTick
    cases hm : ((List.range (t.mask + 1)).map fun i => (t.wheel i).nextTick).min? with
    | none => simp at hm
    | some v =>
      obtain ⟨i, -, rfl⟩ := List.mem_map.mp (List.min?_mem hm)
      exact ⟨i, by rw [h.bound]⟩
  unfold Timer.nextTick
  by_cases hn : t.next = EMPTY
  · rw [if_neg (not_not.mpr hn)]
    exact ⟨s, by rw [hs]⟩
  · rw [if_pos hn]
    obtain ⟨x, xs, hp⟩ : ∃ x xs, b.post = x :: xs := by
      cases hp : b.post with
      | nil => exact absurd (by rw [h.next, hp]; rfl) hn
      | cons x xs => exact ⟨x, xs, rfl⟩
    have hx : t.next = x := by rw [h.next, hp]; rfl
    obtain ⟨d, hd, -⟩ := b.due_of_mem_post (hp ▸ List.mem_cons_self ..)
    obtain ⟨e, he, -⟩ := h.entry_of_due hd
    rw [hx, he]
    simp only
    split
    · rename_i hb
      exact ⟨t.slotFor e.links.tick, by rw [← hb, h.bound]⟩
    · exact ⟨s, by rw [hs]⟩

/-! ## A poll -/

theorem Rep.overflow {t : Timer T} {b : Board T} (h : Rep t b) (hp : b.post = []) (hmax : t.tick = U64_MAX) :
    t.pollRound = .error .overflow := by
  have hnext : t.next = EMPTY := by rw [h.next, hp]; rfl
  rw [Timer.pollRound]
  simp only [hnext, if_true, if_pos hmax]

/-- Whatever a poll of the code answers, the board's rounds give. -/
theorem pollLoop_rep {fuel target : Nat} : ∀ {t t' : Timer T} {b : Board T} {out : Option (Token × Entry T)}, Rep t b →
    t.pollLoop fuel target = .ok (t', out) →
    ∃ c, Rep t' c ∧ Board.Polls target b c (out.map fire) ∧ t'.tickMs = t.tickMs := by
  induction fuel with
  | zero => intro t t' b out _ hl; cases hl
  | succ fuel ih =>
    intro t t' b out h hl
    rw [Timer.pollLoop] at hl
    by_cases hle : t.tick ≤ target
    · rw [if_pos hle] at hl
      have hle' : b.tick ≤ target := by rw [h.tick]; exact hle
      have hmax : b.tick ≠ U64_MAX ∨ b.post ≠ [] := by
        by_contra hn
        obtain ⟨hm, hp⟩ := not_or.mp hn
        rw [not_not] at hm hp
        rw [h.overflow hp (by rw [← h.tick]; exact hm)] at hl
        cases hl
      obtain ⟨t1, o, h1, h2, h3, h4⟩ := pollRound_rep h hmax
      rw [h1] at hl
      cases o with
      | some f =>
        cases hl
        exact ⟨_, h2, .fire hle' (Prod.ext rfl h3.symm), h4⟩
      | none =>
        obtain ⟨c, hc, hps, hms⟩ := ih h2 hl
        exact ⟨c, hc, .more hle' hmax (Prod.ext rfl h3.symm) hps, hms.trans h4⟩
    · rw [if_neg hle] at hl
      cases hl
      exact ⟨b, h, .done b (by rw [h.tick]; omega), rfl⟩

end Sickle.Timers
