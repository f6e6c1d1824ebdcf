/-
  Sickle.Timers.Client — a timer seen by its client.

  The client knows its timeouts by names of its own and keeps a handle for each; which
  keys the slab gave is the slab's affair. `Lists` is what is left of the wheel without
  keys, links and cached bounds: the list of timeouts of each slot, and the part of the
  current slot's list that the cursor has still to pass.

  Names, ticks and states determine everything the client is told: every call is a step
  of the lists (`client_step`), and every step of the lists is one that the timer can
  make, whatever free key the slab gives (`realize`).
-/

import Sickle.Timers.Handles

namespace Sickle.Timers

open Function (update)
open Sickle.Lib

/-- A call of the client on one of its timeouts, or a poll. -/
inductive Op (I T : Type) where
  | setTimeoutAt (id : I) (delayFromStart : Duration) (state : T)
  | cancelTimeout (id : I)
  | pollTo (target : Nat)

/-- The timeout that a call is about. -/
def Op.id? {I T : Type} (o : Op I T) : Option I :=
  match o with
  | .setTimeoutAt id _ _ => some id
  | .cancelTimeout id => some id
  | .pollTo _ => none

/-- A timer and the handles of its client. `owner` is a record only: whose timeout has the
    key. -/
structure Client (I T : Type) where
  timer : Timer T
  handle : I → Option Timeout
  owner : Token → Option I

variable {I T : Type}

/-- Who owns the keys after a call that is no insertion. -/
def ownerAfter (owner : Token → Option I) (c : Call T) : Token → Option I :=
  match c.handsOut with
  | some (k, _) => update owner k none
  | none => owner

section Steps

variable [DecidableEq I]

/-- The client names each timeout once; the label is the call and its answer. -/
inductive ClientStep : Client I T → Op I T × Option T → Client I T → Prop
  | setTimeoutAt (c : Client I T) (t' : Timer T) (id : I) (d : Duration) (state : T) (h : Timeout) : c.handle id = none →
      CallStep c.timer (.setTimeoutAt d state h) t' →
      ClientStep c (.setTimeoutAt id d state, none) ⟨t', update c.handle id (some h), update c.owner h.token (some id)⟩
  | cancelTimeout (c : Client I T) (t' : Timer T) (id : I) (h : Timeout) (out : Option T) : c.handle id = some h →
      CallStep c.timer (.cancelTimeout h out) t' →
      ClientStep c (.cancelTimeout id, out) ⟨t', c.handle, ownerAfter c.owner (.cancelTimeout h out)⟩
  | pollTo (c : Client I T) (t' : Timer T) (target : Nat) (out : Option (Token × Entry T)) :
      CallStep c.timer (.pollTo target out) t' → ClientStep c (.pollTo target, out.map fun f => f.2.state)
        ⟨t', c.handle, ownerAfter c.owner (.pollTo target out)⟩

/-- A client of a new timer. -/
def client (I T : Type) [DecidableEq I] (tickMs numSlots : Nat) : Lts (Client I T) (Op I T × Option T) :=
  ⟨fun c => c = ⟨Timer.new tickMs numSlots, fun _ => none, fun _ => none⟩, ClientStep⟩

end Steps

/-- A timeout is cancelled only while it is still pending. -/
def StillPending (c : Client I T) (e : Op I T × Option T) : Prop :=
  match e.1 with
  | .cancelTimeout id => ∃ h, c.handle id = some h ∧ c.owner h.token = some id
  | _ => True

/-! ## The lists -/

structure Item (I T : Type) where
  id : I
  tick : Nat
  state : T

structure Lists (I T : Type) where
  slot : Nat → Nat
  tick : Nat
  list : Nat → List (Item I T)
  post : List (Item I T)

namespace Lists

def init (slot : Nat → Nat) : Lists I T := ⟨slot, 0, fun _ => [], []⟩

def insert (w : Lists I T) (x : Item I T) : Lists I T :=
  { w with list := update w.list (w.slot x.tick) (x :: w.list (w.slot x.tick)) }

def advance (w : Lists I T) : Lists I T := { w with tick := w.tick + 1, post := w.list (w.slot (w.tick + 1)) }

def remove [DecidableEq I] (w : Lists I T) (id : I) : Lists I T :=
  { w with
    list := fun s => (w.list s).filter fun x => x.id ≠ id
    post := w.post.filter fun x => x.id ≠ id }

def Mem (w : Lists I T) (x : Item I T) : Prop := ∃ s, x ∈ w.list s

variable [DecidableEq I]

/-- One round of `poll_to`. -/
def round (w : Lists I T) : Lists I T × Option (Item I T) :=
  match w.post with
  | [] => (w.advance, none)
  | x :: xs => if x.tick ≤ w.tick then (w.remove x.id, some x) else ({ w with post := xs }, none)

inductive Polls (target : Nat) : Lists I T → Lists I T → Option (Item I T) → Prop
  | done (w : Lists I T) : target < w.tick → Polls target w w none
  | more {w v u : Lists I T} {out : Option (Item I T)} : w.tick ≤ target → w.tick ≠ U64_MAX ∨ w.post ≠ [] →
      w.round = (v, none) → Polls target v u out → Polls target w u out
  | fire {w v : Lists I T} {x : Item I T} : w.tick ≤ target → w.round = (v, some x) → Polls target w v (some x)

theorem Polls.unique {target : Nat} {w u u' : Lists I T} {out out' : Option (Item I T)} (h : Polls target w u out)
    (h' : Polls target w u' out') : u = u' ∧ out = out' := by
  induction h with
  | done w hlt =>
    cases h' with
    | done => exact ⟨rfl, rfl⟩
    | more hle => omega
    | fire hle => omega
  | more hle _ hr _ ih =>
    cases h' with
    | done _ hlt => omega
    | more _ _ hr' hp' =>
      rw [hr] at hr'
      cases hr'
      exact ih hp'
    | fire _ hr' =>
      rw [hr] at hr'
      cases hr'
  | fire hle hr =>
    cases h' with
    | done _ hlt => omega
    | more _ _ hr' =>
      rw [hr] at hr'
      cases hr'
    | fire _ hr' =>
      rw [hr] at hr'
      cases hr'
      exact ⟨rfl, rfl⟩

end Lists

/-- The calls on the lists. -/
inductive ListStep [DecidableEq I] (tickMs : Nat) : Lists I T → Op I T × Option T → Lists I T → Prop
  | setTimeoutAt (w : Lists I T) (id : I) (d : Duration) (state : T) (tick : Nat) : durationToTick d tickMs = .ok tick →
      (tick < w.tick → w.tick ≠ U64_MAX) →
      ListStep tickMs w (.setTimeoutAt id d state, none) (w.insert ⟨id, raise w.tick tick, state⟩)
  | cancelTimeout (w : Lists I T) (x : Item I T) : w.Mem x →
      ListStep tickMs w (.cancelTimeout x.id, some x.state) (w.remove x.id)
  | pollTo (w u : Lists I T) (target : Nat) (out : Option (Item I T)) :
      Lists.Polls (if target < w.tick then w.tick else target) w u out →
      ListStep tickMs w (.pollTo target, out.map (·.state)) u

def lists (I T : Type) [DecidableEq I] (tickMs : Nat) (slot : Nat → Nat) : Lts (Lists I T) (Op I T × Option T) :=
  ⟨fun w => w = .init slot, ListStep tickMs⟩

/-! ## A board shows its lists -/

/-- The timeout at a key, under its owner's name. -/
def item (due : Token → Option (Nat × T)) (owner : Token → Option I) (k : Token) : Option (Item I T) :=
  (owner k).bind fun id => (due k).map fun d => ⟨id, d.1, d.2⟩

theorem item_eq_some {due : Token → Option (Nat × T)} {owner : Token → Option I} {k : Token} {x : Item I T} :
    item due owner k = some x ↔ owner k = some x.id ∧ due k = some (x.tick, x.state) := by
  unfold item
  cases ho : owner k with
  | none => simp
  | some id =>
    cases hd : due k with
    | none => simp
    | some d =>
      obtain ⟨id', tick, state⟩ := x
      simp [Prod.ext_iff]

/-- Board `b`, with its keys owned by `owner` and named by the handles of `handle`. -/
structure Shows (b : Board T) (owner : Token → Option I) (handle : I → Option Timeout) (w : Lists I T) : Prop where
  slot : w.slot = b.slot
  tick : w.tick = b.tick
  list : ∀ s, (w.list s).map some = (b.list s).map (item b.due owner)
  post : w.post.map some = b.post.map (item b.due owner)
  named : ∀ k id, owner k = some id → ∃ d, b.due k = some d ∧ handle id = some ⟨k, d.1⟩
  owned : ∀ k d, b.due k = some d → ∃ id, owner k = some id

namespace Shows

variable {b : Board T} {owner : Token → Option I} {handle : I → Option Timeout} {w : Lists I T}

/-- No two keys have one owner. -/
theorem inj (h : Shows b owner handle w) {k k' : Token} {id : I} (hk : owner k = some id) (hk' : owner k' = some id) : k' = k := by
  obtain ⟨d, -, hd⟩ := h.named k id hk
  obtain ⟨d', -, hd'⟩ := h.named k' id hk'
  rw [hd] at hd'
  injection hd' with he
  injection he with he
  exact he.symm

theorem mem_iff (h : Shows b owner handle w) (x : Item I T) :
    w.Mem x ↔ ∃ k, owner k = some x.id ∧ b.due k = some (x.tick, x.state) := by
  constructor
  · intro hm
    obtain ⟨s, hs⟩ := hm
    have hs' : some x ∈ (b.list s).map (item b.due owner) := by
      rw [← h.list s]
      exact List.mem_map_of_mem hs
    obtain ⟨k, -, hk⟩ := List.mem_map.mp hs'
    exact ⟨k, item_eq_some.mp hk⟩
  · intro hx
    obtain ⟨k, hk⟩ := hx
    have hs : some x ∈ (w.list (b.slot x.tick)).map some := by
      rw [h.list]
      exact List.mem_map.mpr ⟨k, b.mem_home hk.2, item_eq_some.mpr hk⟩
    obtain ⟨y, hy, he⟩ := List.mem_map.mp hs
    cases he
    exact ⟨_, hy⟩

/-- A name has one timeout. -/
theorem mem_unique (h : Shows b owner handle w) {x y : Item I T} (hx : w.Mem x) (hy : w.Mem y) (he : x.id = y.id) : x = y := by
  obtain ⟨k, hk, hd⟩ := (h.mem_iff x).mp hx
  obtain ⟨k', hk', hd'⟩ := (h.mem_iff y).mp hy
  obtain rfl := h.inj (he ▸ hk) hk'
  rw [hd] at hd'
  obtain ⟨id, tick, state⟩ := x
  cases hd'
  cases he
  rfl

theorem look (h : Shows b owner handle w) : Shows b.look owner handle w :=
  ⟨h.slot, h.tick, h.list, h.post, h.named, h.owned⟩

/-- What the lists show under the cursor. -/
theorem post_cons (h : Shows b owner handle w) {k : Token} {ks : List Token} {d : Nat × T} (hp : b.post = k :: ks)
    (hd : b.due k = some d) : ∃ id xs, owner k = some id ∧ w.post = ⟨id, d.1, d.2⟩ :: xs ∧
      xs.map some = ks.map (item b.due owner) := by
  obtain ⟨id, hk⟩ := h.owned k d hd
  have hpost := h.post
  have hitem : item b.due owner k = some ⟨id, d.1, d.2⟩ := item_eq_some.mpr ⟨hk, hd⟩
  rw [hp, List.map_cons, hitem] at hpost
  cases hw : w.post with
  | nil => rw [hw] at hpost; cases hpost
  | cons y ys =>
    rw [hw, List.map_cons, List.cons_eq_cons] at hpost
    obtain ⟨he, hys⟩ := hpost
    cases he
    exact ⟨id, ys, hk, rfl, hys⟩

theorem post_nil (h : Shows b owner handle w) : b.post = [] ↔ w.post = [] := by
  have := congrArg List.length h.post
  rw [List.length_map, List.length_map] at this
  rw [← List.length_eq_zero_iff, ← List.length_eq_zero_iff, this]

end Shows

/-! ## Insertions and removals show -/

section Changes

variable {due : Token → Option (Nat × T)} {owner : Token → Option I}

/-- A write at another key shows nowhere else. -/
theorem map_item_update {k : Token} {ks : List Token} (hk : k ∉ ks) (d : Option (Nat × T)) (o : Option I) :
    ks.map (item (update due k d) (update owner k o)) = ks.map (item due owner) := by
  refine List.map_congr_left fun x hx => ?_
  have hne : x ≠ k := ne_of_mem_of_not_mem hx hk
  simp only [item, Function.update_of_ne hne]

variable [DecidableEq I]

/-- Taking a key out of a list takes its owner out of what the list shows. -/
theorem map_item_filter {k : Token} {id : I} (hk : owner k = some id) (hinj : ∀ k', owner k' = some id → k' = k) :
    ∀ {ks : List Token} {xs : List (Item I T)}, xs.map some = ks.map (item due owner) →
      (xs.filter fun x => x.id ≠ id).map some = (ks.filter (· ≠ k)).map (item (update due k none) (update owner k none)) := by
  intro ks
  induction ks with
  | nil =>
    intro xs h
    obtain rfl := List.map_eq_nil_iff.mp h
    rfl
  | cons k' ks ih =>
    intro xs h
    cases xs with
    | nil => cases h
    | cons x xs =>
      rw [List.map_cons, List.map_cons, List.cons_eq_cons] at h
      have hx := (item_eq_some.mp h.1.symm).1
      by_cases e : k' = k
      · subst e
        rw [hk, Option.some.injEq] at hx
        rw [List.filter_cons_of_neg (by simp [hx]), List.filter_cons_of_neg (by simp)]
        exact ih h.2
      · have hid : x.id ≠ id := fun he => e (hinj k' (he ▸ hx))
        rw [List.filter_cons_of_pos (by simpa using hid), List.filter_cons_of_pos (by simpa using e)]
        rw [List.map_cons, List.map_cons, ih h.2, h.1]
        simp only [item, Function.update_of_ne e]

end Changes

namespace Shows

variable [DecidableEq I] {b : Board T} {owner : Token → Option I} {handle : I → Option Timeout} {w : Lists I T}

theorem insert (h : Shows b owner handle w) {k : Token} {id : I} (tick : Nat) (state : T) (hk : b.due k = none)
    (hid : handle id = none) :
    Shows (b.insert k tick state hk) (update owner k (some id)) (update handle id (some ⟨k, tick⟩)) (w.insert ⟨id, tick, state⟩) := by
  have hkl : ∀ s, k ∉ b.list s := by
    intro s hm
    obtain ⟨d, hd, -⟩ := b.due_of_mem hm
    rw [hk] at hd
    cases hd
  have hother : ∀ k' id', owner k' = some id' → k' ≠ k ∧ id' ≠ id := by
    intro k' id' ho
    obtain ⟨d, hd, hh⟩ := h.named k' id' ho
    refine ⟨?_, ?_⟩ <;> rintro rfl
    · rw [hk] at hd
      cases hd
    · rw [hid] at hh
      cases hh
  constructor
  · exact h.slot
  · exact h.tick
  · intro s
    show (update w.list (w.slot tick) _ s).map some = (update b.list (b.slot tick) _ s).map (item (update b.due k _) _)
    rw [h.slot]
    by_cases e : s = b.slot tick
    · subst e
      rw [Function.update_self, Function.update_self, List.map_cons, List.map_cons, map_item_update (hkl _), h.list]
      simp [item]
    · rw [Function.update_of_ne e, Function.update_of_ne e, map_item_update (hkl s)]
      exact h.list s
  · show w.post.map some = b.post.map (item (update b.due k _) _)
    have hkp : k ∉ b.post := fun hm => hkl _ (by rw [b.split]; exact List.mem_append_right _ hm)
    rw [map_item_update hkp]
    exact h.post
  · intro k' id' ho
    show ∃ d, update b.due k _ k' = some d ∧ update handle id _ id' = some ⟨k', d.1⟩
    by_cases e : k' = k
    · subst e
      rw [Function.update_self, Option.some.injEq] at ho
      subst ho
      exact ⟨(tick, state), by simp, by simp⟩
    · rw [Function.update_of_ne e] at ho ⊢
      rw [Function.update_of_ne (hother k' id' ho).2]
      exact h.named k' id' ho
  · intro k' d hd
    change update b.due k _ k' = some d at hd
    by_cases e : k' = k
    · exact ⟨id, by rw [e, Function.update_self]⟩
    · rw [Function.update_of_ne e] at hd ⊢
      exact h.owned k' d hd

theorem remove (h : Shows b owner handle w) {k : Token} {id : I} (hk : owner k = some id) :
    Shows (b.remove k) (update owner k none) handle (w.remove id) := by
  have hinj : ∀ k', owner k' = some id → k' = k := fun k' hk' => h.inj hk hk'
  refine ⟨h.slot, h.tick, fun s => map_item_filter hk hinj (h.list s), map_item_filter hk hinj h.post, ?_, ?_⟩
  · intro k' id' ho
    show ∃ d, update b.due k none k' = some d ∧ _
    by_cases e : k' = k
    · rw [e, Function.update_self] at ho
      cases ho
    · rw [Function.update_of_ne e] at ho ⊢
      exact h.named k' id' ho
  · intro k' d hd
    obtain ⟨hne, hd⟩ := Board.due_of_remove hd
    rw [Function.update_of_ne hne]
    exact h.owned k' d hd

/-- A round of the board that hands out nothing is one of the lists. -/
theorem round_none (h : Shows b owner handle w) {c : Board T} (hr : b.round = (c, none)) :
    ∃ v, w.round = (v, none) ∧ Shows c owner handle v := by
  rcases Board.round_none hr with ⟨hp, rfl⟩ | ⟨k, ks, d, hp, hd, hlt, rfl⟩
  · refine ⟨w.advance, ?_, h.slot, congrArg (· + 1) h.tick, h.list, ?_, h.named, h.owned⟩
    · rw [Lists.round, h.post_nil.mp hp]
    · show (w.list (w.slot (w.tick + 1))).map some = _
      rw [h.slot, h.tick]
      exact h.list _
  · obtain ⟨id, xs, -, hw, hxs⟩ := h.post_cons hp hd
    refine ⟨{ w with post := xs }, ?_, h.slot, h.tick, h.list, ?_, h.named, h.owned⟩
    · have hn : ¬ d.1 ≤ w.tick := by rw [h.tick]; omega
      rw [Lists.round, hw]
      simp only [if_neg hn]
    · show xs.map some = (b.post.drop 1).map _
      rw [hp]
      exact hxs

/-- A round that hands out a timeout hands out the one that the lists show. -/
theorem round_some (h : Shows b owner handle w) {c : Board T} {k : Token} {d : Nat × T} (hr : b.round = (c, some (k, d))) :
    ∃ id, owner k = some id ∧ w.round = (w.remove id, some ⟨id, d.1, d.2⟩) ∧
      Shows c (update owner k none) handle (w.remove id) := by
  obtain ⟨ks, hp, hd, hle, rfl⟩ := Board.round_some hr
  obtain ⟨id, xs, hk, hw, -⟩ := h.post_cons hp hd
  refine ⟨id, hk, ?_, h.look.remove hk⟩
  rw [← h.tick] at hle
  rw [Lists.round, hw]
  simp only [if_pos hle]

end Shows

/-! ## Polls show -/

/-- Who owns the keys once `out` has been handed out. -/
def taken (owner : Token → Option I) (out : Option (Token × Nat × T)) : Token → Option I :=
  match out with
  | none => owner
  | some f => update owner f.1 none

section Polls

variable [DecidableEq I] {owner : Token → Option I} {handle : I → Option Timeout} {target : Nat}

/-- A poll of the board is one of the lists. -/
theorem Shows.polls {b c : Board T} {out : Option (Token × Nat × T)} (hp : Board.Polls target b c out) :
    ∀ {w : Lists I T}, Shows b owner handle w → ∃ u o, Lists.Polls target w u o ∧
      o.map (·.state) = out.map (·.2.2) ∧ Shows c (taken owner out) handle u := by
  induction hp with
  | done b hlt =>
    intro w h
    exact ⟨w, none, .done w (by rw [h.tick]; exact hlt), rfl, h⟩
  | more hle hmax hr _ ih =>
    intro w h
    obtain ⟨v, hv, hs⟩ := h.round_none hr
    obtain ⟨u, o, hps, ho, hu⟩ := ih hs
    refine ⟨u, o, .more (by rw [h.tick]; exact hle) ?_ hv hps, ho, hu⟩
    rw [h.tick, ne_eq w.post, ← h.post_nil]
    exact hmax
  | @fire b c f hle hr =>
    intro w h
    obtain ⟨k, d⟩ := f
    obtain ⟨id, -, hv, hs⟩ := h.round_some hr
    exact ⟨_, _, .fire (by rw [h.tick]; exact hle) hv, rfl, hs⟩

/-- A poll of the lists is one of every board that shows them. -/
theorem Shows.board_polls {w u : Lists I T} {o : Option (Item I T)} (hp : Lists.Polls target w u o) :
    ∀ {b : Board T} {owner : Token → Option I}, Shows b owner handle w → ∃ c out, Board.Polls target b c out := by
  induction hp with
  | done w hlt =>
    intro b owner h
    exact ⟨b, none, .done b (by rw [← h.tick]; exact hlt)⟩
  | more hle hmax hr _ ih =>
    intro b owner h
    rcases hb : b.round with ⟨c, out⟩
    cases out with
    | none =>
      obtain ⟨v, hv, hs⟩ := h.round_none hb
      rw [hr] at hv
      cases hv
      obtain ⟨d, out, hps⟩ := ih hs
      refine ⟨d, out, .more (by rw [← h.tick]; exact hle) ?_ hb hps⟩
      rw [← h.tick, ne_eq b.post, h.post_nil]
      exact hmax
    | some f =>
      obtain ⟨id, -, hv, -⟩ := h.round_some hb
      rw [hr] at hv
      cases hv
  | fire hle hr =>
    intro b owner h
    rcases hb : b.round with ⟨c, out⟩
    cases out with
    | none =>
      obtain ⟨v, hv, -⟩ := h.round_none hb
      rw [hr] at hv
      cases hv
    | some f => exact ⟨c, some f, .fire (by rw [← h.tick]; exact hle) hb⟩

end Polls

/-! ## A client shows its lists -/

def Sim (tickMs : Nat) (c : Client I T) (w : Lists I T) : Prop :=
  c.timer.tickMs = tickMs ∧ ∃ b, Rep c.timer b ∧ Shows b c.owner c.handle w

section Steps

variable [DecidableEq I] {tickMs : Nat} {c c' : Client I T} {w w' : Lists I T} {e e' : Op I T × Option T}

theorem client_init (I T : Type) (tickMs numSlots : Nat) :
    Sim tickMs ⟨Timer.new tickMs numSlots, fun _ => none, fun _ => none⟩
      (.init (Timer.new tickMs numSlots : Timer T).slotFor : Lists I T) :=
  ⟨rfl, _, new_rep tickMs numSlots, rfl, rfl, fun _ => rfl, rfl, (fun _ _ h => by cases h), (fun _ _ h => by cases h)⟩

/-- A step of the client is a step of the lists, with the same answer. -/
theorem client_step (h : Sim tickMs c w) (hs : ClientStep c e c') (he : StillPending c e) :
    ∃ w', ListStep tickMs w e w' ∧ Sim tickMs c' w' := by
  obtain ⟨rfl, b, hr, hsh⟩ := h
  cases hs with
  | setTimeoutAt t' id d state handle hid hcall =>
    obtain ⟨b', hr', hm, hms⟩ := move_of_call hr hcall
    cases hm with
    | set _ _ key tick hk hd hmax =>
      rw [← hsh.tick] at hmax hr' ⊢
      exact ⟨_, .setTimeoutAt w id d state tick hd hmax, hms, _, hr', hsh.insert _ state hk hid⟩
  | cancelTimeout t' id handle out hid hcall =>
    obtain ⟨handle', hid', hown⟩ := he
    rw [hid] at hid'
    cases hid'
    obtain ⟨d, hd, hnamed⟩ := hsh.named _ _ hown
    rw [hid, Option.some.injEq] at hnamed
    obtain ⟨b', hr', hm, hms⟩ := move_of_call hr hcall
    cases hm with
    | cancel _ state hdue =>
      have hmem : w.Mem ⟨id, handle.tick, state⟩ := (hsh.mem_iff _).mpr ⟨_, hown, hdue⟩
      exact ⟨_, .cancelTimeout w _ hmem, hms, _, hr', hsh.remove hown⟩
    | stale _ hne =>
      refine absurd ?_ (hne d.2)
      rw [hd, hnamed]
  | pollTo t' target out hcall =>
    obtain ⟨b', hr', hm, hms⟩ := move_of_call hr hcall
    cases hm with
    | poll _ _ _ hps =>
      obtain ⟨u, o, hp, ho, hu⟩ := hsh.polls hps
      rw [← hsh.tick] at hp
      have hout : o.map (·.state) = out.map fun f => f.2.state := by
        rw [ho]
        cases out <;> rfl
      have htaken : taken c.owner (out.map fire) = ownerAfter c.owner (.pollTo target out) := by
        cases out <;> rfl
      rw [htaken] at hu
      rw [← hout]
      exact ⟨u, .pollTo w u target o hp, hms, b', hr', hu⟩

/-- A call has one answer and one effect on the lists. -/
theorem listStep_unique (h : Sim tickMs c w) {w₁ w₂ : Lists I T} {e₁ e₂ : Op I T × Option T} (h₁ : ListStep tickMs w e₁ w₁)
    (h₂ : ListStep tickMs w e₂ w₂) (he : e₁.1 = e₂.1) : e₁ = e₂ ∧ w₁ = w₂ := by
  obtain ⟨-, b, -, hsh⟩ := h
  cases h₁ with
  | setTimeoutAt id d state tick hd _ =>
    cases h₂ with
    | setTimeoutAt id' d' state' tick' hd' _ =>
      cases he
      rw [hd] at hd'
      cases hd'
      exact ⟨rfl, rfl⟩
    | cancelTimeout => cases he
    | pollTo => cases he
  | cancelTimeout x hx =>
    cases h₂ with
    | cancelTimeout y hy =>
      injection he with he
      rw [hsh.mem_unique hx hy he]
      exact ⟨rfl, rfl⟩
    | setTimeoutAt => cases he
    | pollTo => cases he
  | pollTo u target out hp =>
    cases h₂ with
    | pollTo u' target' out' hp' =>
      cases he
      obtain ⟨rfl, rfl⟩ := hp.unique hp'
      exact ⟨rfl, rfl⟩
    | setTimeoutAt => cases he
    | cancelTimeout => cases he

/-- Where the lists can take a step, that call of the client gets that answer. -/
theorem follow (h : Sim tickMs c w) (hl : ListStep tickMs w e w') (hs : ClientStep c e' c') (he : e'.1 = e.1) :
    e' = e ∧ Sim tickMs c' w' := by
  have hpend : StillPending c e' := by
    unfold StillPending
    cases hl with
    | cancelTimeout x hx =>
      obtain ⟨-, b, -, hsh⟩ := h
      obtain ⟨k, hk, -⟩ := (hsh.mem_iff x).mp hx
      obtain ⟨d, -, hd⟩ := hsh.named k x.id hk
      rw [he]
      exact ⟨_, hd, hk⟩
    | setTimeoutAt => rw [he]; trivial
    | pollTo => rw [he]; trivial
  obtain ⟨w'', hl', hsim⟩ := client_step h hs hpend
  obtain ⟨rfl, rfl⟩ := listStep_unique h hl' hl he
  exact ⟨rfl, hsim⟩

/-- What the slab and the client's names must allow a call. -/
def Allows (c : Client I T) (o : Op I T) : Prop :=
  match o with
  | .setTimeoutAt id _ _ => c.handle id = none ∧ ∃ k, k ≠ EMPTY ∧ c.owner k = none
  | _ => True

/-- A step of the lists is one that the client can take. -/
theorem realize (h : Sim tickMs c w) (hl : ListStep tickMs w e w') (ha : Allows c e.1) :
    ∃ c', ClientStep c e c' ∧ Sim tickMs c' w' := by
  obtain ⟨e', c', hs, he⟩ : ∃ e' c', ClientStep c e' c' ∧ e'.1 = e.1 := by
    obtain ⟨rfl, b, hr, hsh⟩ := h
    cases hl with
    | setTimeoutAt id d state tick hd hmax =>
      obtain ⟨hid, k, hne, hk⟩ := ha
      have hkb : b.due k = none := by
        cases hdk : b.due k with
        | none => rfl
        | some x =>
          obtain ⟨id', ho⟩ := hsh.owned k x hdk
          rw [hk] at ho
          cases ho
      rw [hsh.tick, hr.tick] at hmax
      obtain ⟨t', ht', -, -⟩ := insert_rep hr (raise c.timer.tick tick) state hkb hne
      have hcall : c.timer.setTimeoutAt d state k = .ok (t', ⟨k, raise c.timer.tick tick⟩) := by
        rw [setTimeoutAt_eq state k hd (clampTick_ok.mpr ⟨hmax, rfl⟩)]
        exact ht'
      exact ⟨_, _, .setTimeoutAt c t' id d state _ hid (.setTimeoutAt _ _ d state k _ (hr.due_none.mp hkb) hne hcall), rfl⟩
    | cancelTimeout x hx =>
      obtain ⟨k, hk, hd⟩ := (hsh.mem_iff x).mp hx
      obtain ⟨d, -, hn⟩ := hsh.named k x.id hk
      obtain ⟨r, hc⟩ := hr.noMiss.cancel ⟨k, d.1⟩
      exact ⟨_, _, .cancelTimeout c r.1 x.id _ r.2 hn (.cancelTimeout _ _ _ _ hc), rfl⟩
    | pollTo u target o hp =>
      rw [hsh.tick, hr.tick] at hp
      obtain ⟨b', out, hps⟩ := hsh.board_polls hp
      obtain ⟨fuel, t', out', hl⟩ := pollLoop_of_polls hps c.timer hr
      exact ⟨_, _, .pollTo c t' target out' (.pollTo _ _ fuel target _ hl), rfl⟩
  obtain ⟨rfl, hsim⟩ := follow h hl hs he
  exact ⟨c', hs, hsim⟩

end Steps

end Sickle.Timers
