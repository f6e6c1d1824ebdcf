/-
  Sickle.Timers.Priority — the wheel is a priority queue.

  `Agenda` says what the wheel is for: the timeouts its client waits for, newest first, and
  the tick it has come to. A poll takes the timeout of the least tick, the newest of them,
  if it is due, and otherwise moves the tick past the target; no slot, list or cursor
  appears.

  `Keeps` relates the agenda to the lists of a wheel: each slot's list is the agenda's
  items of that slot, in the agenda's order, and what the cursor has still to pass holds
  every item due at the wheel's tick.

  - `wheel_is_a_priority_queue`: a client that sets no timeout at the current tick and
    cancels only what is pending sees the answers of its agenda, whatever the number of
    slots.
  - `slots_do_not_show`: so wheels of different sizes answer the same calls alike.
-/

import Mathlib.Data.List.MinMax
import Sickle.Lib.Simulation
import Sickle.Timers.Erase

namespace Sickle.Timers

open Function (update)
open Sickle.Lib

variable {I T : Type}

/-! ## The agenda -/

structure Agenda (I T : Type) where
  tick : Nat
  items : List (Item I T)
  unique : (items.map Item.id).Nodup

namespace Agenda

def empty : Agenda I T := ⟨0, [], List.nodup_nil⟩

def insert (a : Agenda I T) (x : Item I T) (hx : ∀ y ∈ a.items, y.id ≠ x.id) : Agenda I T where
  tick := a.tick
  items := x :: a.items
  unique := List.nodup_cons.mpr ⟨fun hm => (List.mem_map.mp hm).elim fun y hy => hx y hy.1 hy.2, a.unique⟩

/-- The agenda when the wheel has come to `tick`. -/
def goto (a : Agenda I T) (tick : Nat) : Agenda I T := { a with tick := tick }

variable [DecidableEq I]

def remove (a : Agenda I T) (id : I) : Agenda I T where
  tick := a.tick
  items := a.items.filter fun y => y.id ≠ id
  unique := a.unique.sublist (List.filter_sublist.map _)

def pollTo (a : Agenda I T) (target : Nat) : Agenda I T × Option (Item I T) :=
  let target := max target a.tick
  match a.items.argmin Item.tick with
  | none => (a.goto (target + 1), none)
  | some x => if x.tick ≤ target then ((a.goto x.tick).remove x.id, some x) else (a.goto (target + 1), none)

end Agenda

inductive AgendaStep [DecidableEq I] (tickMs : Nat) : Agenda I T → Op I T × Option T → Agenda I T → Prop
  | setTimeoutAt (a : Agenda I T) (id : I) (d : Duration) (state : T) (tick : Nat) (hid : ∀ y ∈ a.items, y.id ≠ id) :
      durationToTick d tickMs = .ok tick →
      AgendaStep tickMs a (.setTimeoutAt id d state, none) (a.insert ⟨id, raise a.tick tick, state⟩ hid)
  | cancelTimeout (a : Agenda I T) (x : Item I T) : x ∈ a.items →
      AgendaStep tickMs a (.cancelTimeout x.id, some x.state) (a.remove x.id)
  | pollTo (a b : Agenda I T) (target : Nat) (out : Option (Item I T)) : a.pollTo target = (b, out) →
      AgendaStep tickMs a (.pollTo target, out.map (·.state)) b

def agenda (I T : Type) [DecidableEq I] (tickMs : Nat) : Lts (Agenda I T) (Op I T × Option T) :=
  ⟨fun a => a = .empty, AgendaStep tickMs⟩

/-- No timeout is set at the wheel's current tick, and none is cancelled that is not
    pending. -/
def Proper (c : Client I T) (e : Op I T × Option T) : Prop :=
  StillPending c e ∧ match e.1 with
    | .setTimeoutAt _ d _ => durationToTick d c.timer.tickMs ≠ .ok c.timer.tick
    | _ => True

/-! ## What the first of the least is -/

theorem argmin_of_filter {α : Type*} {f : α → Nat} {m : Nat} {x : α} {ys : List α} : ∀ {xs : List α}, (∀ y ∈ xs, m ≤ f y) →
    (xs.filter fun y => f y = m) = x :: ys → xs.argmin f = some x := by
  intro xs
  induction xs with
  | nil => intro _ h; cases h
  | cons a l ih =>
    intro hm h
    rw [List.argmin_cons]
    by_cases ha : f a = m
    · rw [List.filter_cons_of_pos (by simpa using ha)] at h
      obtain ⟨rfl, -⟩ := List.cons_eq_cons.mp h
      cases hl : l.argmin f with
      | none => rfl
      | some c =>
        have := hm c (List.mem_cons_of_mem _ (List.argmin_mem hl))
        exact if_neg (by omega)
    · rw [List.filter_cons_of_neg (by simpa using ha)] at h
      rw [ih (fun y hy => hm y (List.mem_cons_of_mem _ hy)) h]
      have hx : x ∈ l.filter fun y => f y = m := h ▸ List.mem_cons_self
      have hx := (List.mem_filter.mp hx).2
      have := hm a List.mem_cons_self
      simp only [decide_eq_true_eq] at hx
      exact if_pos (by omega)

/-! ## Lists in the agenda's order -/

structure Keeps (w : Lists I T) (a : Agenda I T) : Prop where
  tick : a.tick = w.tick
  ahead : ∀ x ∈ a.items, w.tick ≤ x.tick
  list : ∀ s, w.list s = a.items.filter fun x => w.slot x.tick = s
  post : ∀ x ∈ w.post, x ∈ a.items
  here : (w.post.filter fun x => x.tick = w.tick) = a.items.filter fun x => x.tick = w.tick

namespace Keeps

variable {w u : Lists I T} {a : Agenda I T}

theorem init (slot : Nat → Nat) : Keeps (.init slot : Lists I T) .empty where
  tick := rfl
  ahead _ h := nomatch h
  list _ := rfl
  post _ h := nomatch h
  here := rfl

theorem mem_iff (h : Keeps w a) (x : Item I T) : w.Mem x ↔ x ∈ a.items := by
  constructor
  · rintro ⟨s, hs⟩
    rw [h.list] at hs
    exact (List.mem_filter.mp hs).1
  · intro hx
    refine ⟨w.slot x.tick, ?_⟩
    rw [h.list]
    exact List.mem_filter.mpr ⟨hx, by simp⟩

/-- A timeout set after the wheel's tick goes behind the cursor. -/
theorem insert (h : Keeps w a) {x : Item I T} (hx : ∀ y ∈ a.items, y.id ≠ x.id) (hlt : w.tick < x.tick) :
    Keeps (w.insert x) (a.insert x hx) := by
  constructor
  · exact h.tick
  · intro y hy
    rcases List.mem_cons.mp hy with rfl | hy
    · exact Nat.le_of_lt hlt
    · exact h.ahead y hy
  · intro s
    show update w.list (w.slot x.tick) (x :: w.list (w.slot x.tick)) s = (x :: a.items).filter fun y => w.slot y.tick = s
    by_cases e : w.slot x.tick = s
    · subst e
      rw [Function.update_self, List.filter_cons_of_pos (by simp), h.list]
    · rw [Function.update_of_ne (Ne.symm e), List.filter_cons_of_neg (by simpa using e), h.list]
  · exact fun y hy => List.mem_cons_of_mem _ (h.post y hy)
  · show (w.post.filter fun y => y.tick = w.tick) = (x :: a.items).filter fun y => y.tick = w.tick
    rw [List.filter_cons_of_neg (by simp only [decide_eq_true_eq]; omega), h.here]

theorem remove [DecidableEq I] (h : Keeps w a) (id : I) : Keeps (w.remove id) (a.remove id) := by
  have hcomm : ∀ (p : Item I T → Bool) (xs : List (Item I T)),
      ((xs.filter p).filter fun y => y.id ≠ id) = (xs.filter fun y => y.id ≠ id).filter p := by
    intro p xs
    rw [List.filter_filter, List.filter_filter]
    exact List.filter_congr fun x _ => Bool.and_comm _ _
  constructor
  · exact h.tick
  · exact fun x hx => h.ahead x (List.mem_filter.mp hx).1
  · intro s
    show ((w.list s).filter fun y => y.id ≠ id) = (a.items.filter fun y => y.id ≠ id).filter fun x => w.slot x.tick = s
    rw [h.list, hcomm]
  · intro x hx
    obtain ⟨hx, hne⟩ := List.mem_filter.mp hx
    exact List.mem_filter.mpr ⟨h.post x hx, hne⟩
  · show (w.post.filter fun y => y.id ≠ id).filter (fun x => x.tick = w.tick) =
      (a.items.filter fun y => y.id ≠ id).filter fun x => x.tick = w.tick
    rw [← hcomm, ← hcomm, h.here]

/-- Past the end of the list nothing is due at the tick left behind. -/
theorem advance (h : Keeps w a) (hp : w.post = []) : Keeps w.advance (a.goto (w.tick + 1)) := by
  have hhere := h.here
  rw [hp, List.filter_nil] at hhere
  constructor
  · rfl
  · intro x hx
    have hle := h.ahead x hx
    have hne : x.tick ≠ w.tick := by
      intro e
      have := List.filter_eq_nil_iff.mp hhere.symm x hx
      simp [e] at this
    show w.tick + 1 ≤ x.tick
    omega
  · exact h.list
  · intro x hx
    change x ∈ w.list _ at hx
    rw [h.list] at hx
    exact (List.mem_filter.mp hx).1
  · show ((w.list (w.slot (w.tick + 1))).filter fun x => x.tick = w.tick + 1) = a.items.filter fun x => x.tick = w.tick + 1
    rw [h.list, List.filter_filter]
    refine List.filter_congr fun x _ => ?_
    by_cases e : x.tick = w.tick + 1 <;> simp [e]

/-- What the cursor steps over is due in a later revolution. -/
theorem pass (h : Keeps w a) {y : Item I T} {ys : List (Item I T)} (hp : w.post = y :: ys) (hlt : w.tick < y.tick) :
    Keeps { w with post := ys } a := by
  refine ⟨h.tick, h.ahead, h.list, fun x hx => h.post x (hp ▸ List.mem_cons_of_mem _ hx), ?_⟩
  have hhere := h.here
  rw [hp, List.filter_cons_of_neg (by simp only [decide_eq_true_eq]; omega)] at hhere
  exact hhere

/-- What is due under the cursor is the newest of the least. -/
theorem first (h : Keeps w a) {y : Item I T} {ys : List (Item I T)} (hp : w.post = y :: ys) (hle : y.tick ≤ w.tick) :
    y.tick = w.tick ∧ a.items.argmin Item.tick = some y := by
  have hy : y ∈ a.items := h.post y (by rw [hp]; exact List.mem_cons_self)
  have heq : y.tick = w.tick := Nat.le_antisymm hle (h.ahead y hy)
  have hhere := h.here
  rw [hp, List.filter_cons_of_pos (by simpa using heq)] at hhere
  exact ⟨heq, argmin_of_filter h.ahead hhere.symm⟩

variable [DecidableEq I] {target : Nat} {out : Option (Item I T)}

/-- What a poll of the lists comes to on the agenda. -/
def Polled (a : Agenda I T) (target : Nat) (u : Lists I T) (out : Option (Item I T)) : Prop :=
  match out with
  | none => (∀ x ∈ a.items, target < x.tick) ∧ Keeps u (a.goto (target + 1))
  | some x => x.tick ≤ target ∧ a.items.argmin Item.tick = some x ∧ Keeps u ((a.goto x.tick).remove x.id)

theorem polls (hp : Lists.Polls target w u out) : ∀ {a}, Keeps w a → w.tick ≤ target + 1 → Polled a target u out := by
  induction hp with
  | done w hlt =>
    intro a h hle
    have heq : w.tick = target + 1 := by omega
    refine ⟨fun x hx => ?_, heq.symm, h.ahead, h.list, h.post, h.here⟩
    have := h.ahead x hx
    omega
  | @more w v u out hle _ hr _ ih =>
    intro a h _
    rcases Lists.round_none hr with ⟨hpost, rfl⟩ | ⟨y, ys, hpost, hlt, rfl⟩
    · have hpolled := ih (h.advance hpost) (Nat.succ_le_succ hle)
      cases out <;> exact hpolled
    · exact ih (h.pass hpost hlt) (Nat.le_succ_of_le hle)
  | @fire w v x hle hr =>
    intro a h _
    obtain ⟨ys, hpost, hdue, rfl⟩ := Lists.round_some hr
    obtain ⟨heq, hfirst⟩ := h.first hpost hdue
    refine ⟨by omega, hfirst, Keeps.remove (a := a.goto x.tick) ⟨heq, h.ahead, h.list, h.post, h.here⟩ x.id⟩

theorem pollTo (h : Keeps w a) (hp : Lists.Polls (if target < w.tick then w.tick else target) w u out) :
    ∃ b, a.pollTo target = (b, out) ∧ Keeps u b := by
  have hmax : (if target < w.tick then w.tick else target) = max target a.tick := by
    rw [h.tick]
    split <;> omega
  rw [hmax] at hp
  have hpoll := polls hp h (by rw [h.tick]; omega)
  unfold Polled at hpoll
  unfold Agenda.pollTo
  cases out with
  | some x =>
    obtain ⟨hdue, hfirst, hk⟩ := hpoll
    simp only [hfirst, if_pos hdue]
    exact ⟨_, rfl, hk⟩
  | none =>
    obtain ⟨hlate, hk⟩ := hpoll
    cases hfirst : a.items.argmin Item.tick with
    | none => exact ⟨_, rfl, hk⟩
    | some x =>
      simp only [if_neg (Nat.not_le_of_lt (hlate x (List.argmin_mem hfirst)))]
      exact ⟨_, rfl, hk⟩

end Keeps

/-! ## The client's answers -/

section Answers

variable [DecidableEq I] {tickMs : Nat}

/-- A client and its agenda. -/
def Serves (tickMs : Nat) (c : Client I T) (a : Agenda I T) : Prop := ∃ w, Sim tickMs c w ∧ Keeps w a

theorem Serves.step {c c' : Client I T} {a : Agenda I T} {e : Op I T × Option T} (h : Serves tickMs c a) (hs : ClientStep c e c')
    (hC : Proper c e) : ∃ a', AgendaStep tickMs a e a' ∧ Serves tickMs c' a' := by
  obtain ⟨w, hsim, hk⟩ := h
  obtain ⟨hpend, hnow⟩ := hC
  obtain ⟨w', hl, hsim'⟩ := client_step hsim hs hpend
  obtain ⟨htick, b, hr, hsh⟩ := hsim
  cases hl with
  | setTimeoutAt id d state tick hd hmax =>
    have hid : ∀ y ∈ a.items, y.id ≠ id := by
      rintro y hy rfl
      obtain ⟨k, hk, -⟩ := (hsh.mem_iff y).mp ((hk.mem_iff y).mpr hy)
      obtain ⟨d, -, hh⟩ := hsh.named _ _ hk
      cases hs with
      | setTimeoutAt _ _ _ _ _ hnone => rw [hnone] at hh; cases hh
    have hlt : w.tick < raise w.tick tick := by
      have hne : tick ≠ w.tick := by
        rintro rfl
        rw [htick, ← hr.tick, ← hsh.tick] at hnow
        exact hnow hd
      have := raise_ge w.tick tick
      have := mt (raise_eq_iff w.tick tick).mp hne
      omega
    have hins := hk.insert (x := ⟨id, raise w.tick tick, state⟩) hid hlt
    rw [← hk.tick] at hins hsim'
    exact ⟨_, .setTimeoutAt a id d state tick hid hd, _, hsim', hins⟩
  | cancelTimeout x hx => exact ⟨_, .cancelTimeout a x ((hk.mem_iff x).mp hx), _, hsim', hk.remove x.id⟩
  | pollTo _ target out hp =>
    obtain ⟨a', hpoll, hk'⟩ := hk.pollTo hp
    exact ⟨a', .pollTo a a' target out hpoll, _, hsim', hk'⟩

theorem serves (I T : Type) [DecidableEq I] (tickMs numSlots : Nat) :
    Simulates ((client I T tickMs numSlots).restrict Proper) (agenda I T tickMs) (Serves tickMs) where
  init := by
    rintro c rfl
    exact ⟨_, rfl, _, client_init I T tickMs numSlots, .init _⟩
  step _ _ _ _ h hs := h.step hs.1 hs.2

theorem agenda_functional (I T : Type) [DecidableEq I] (tickMs : Nat) : Functional (agenda I T tickMs) Prod.fst where
  init := by
    rintro a b rfl rfl
    rfl
  step := by
    intro a e e' b b' h h' he
    cases h with
    | setTimeoutAt id d state tick _ hd =>
      cases h' with
      | setTimeoutAt id' d' state' tick' _ hd' =>
        cases he
        rw [hd] at hd'
        cases hd'
        exact ⟨rfl, rfl⟩
      | cancelTimeout => cases he
      | pollTo => cases he
    | cancelTimeout x hx =>
      cases h' with
      | cancelTimeout y hy =>
        injection he with he
        obtain rfl := List.inj_on_of_nodup_map a.unique hx hy he
        exact ⟨rfl, rfl⟩
      | setTimeoutAt => cases he
      | pollTo => cases he
    | pollTo _ target out hp =>
      cases h' with
      | pollTo _ target' out' hp' =>
        cases he
        rw [hp] at hp'
        cases hp'
        exact ⟨rfl, rfl⟩
      | setTimeoutAt => cases he
      | cancelTimeout => cases he

omit [DecidableEq I] in
theorem Serves.items {c : Client I T} {a : Agenda I T} (h : Serves tickMs c a) :
    a.tick = c.timer.tick ∧ ∀ x, x ∈ a.items ↔ ∃ k e, c.owner k = some x.id ∧ c.timer.entries k = some e ∧
      e.links.tick = x.tick ∧ e.state = x.state := by
  obtain ⟨w, ⟨-, b, hr, hsh⟩, hk⟩ := h
  refine ⟨by rw [hk.tick, hsh.tick, hr.tick], fun x => ?_⟩
  rw [← hk.mem_iff, hsh.mem_iff]
  refine exists_congr fun k => ?_
  constructor
  · rintro ⟨ho, hd⟩
    obtain ⟨e, he, hd'⟩ := hr.entry_of_due hd
    exact ⟨e, ho, he, hd'⟩
  · rintro ⟨e, ho, he, ht, hst⟩
    refine ⟨ho, ?_⟩
    rw [hr.due_of_entry he, ht, hst]

variable {numSlots numSlots' : Nat}

/-- A client that sets no timeout at the wheel's current tick and cancels only pending ones
    is answered as its agenda answers: a poll hands out the newest of the earliest timeouts
    that are due, and none if none is. -/
theorem wheel_is_a_priority_queue {τ : List (Op I T × Option T)} {c : Client I T}
    (h : Run ((client I T tickMs numSlots).restrict Proper) τ c) : ∃ a, Run (agenda I T tickMs) τ a ∧ a.tick = c.timer.tick ∧
      ∀ x, x ∈ a.items ↔ ∃ k e, c.owner k = some x.id ∧ c.timer.entries k = some e ∧ e.links.tick = x.tick ∧ e.state = x.state := by
  obtain ⟨a, ha, hs⟩ := (serves I T tickMs numSlots).run h
  exact ⟨a, ha, hs.items⟩

theorem one_le_max : 1 ≤ U64_MAX := by decide

theorem nine_le_max : 9 ≤ U64_MAX := by decide

/-- Two timeouts of 1 ms and one of 9 ms: on a wheel of eight slots they share a list. -/
def threeTimeouts : List (Op Nat Nat × Option Nat) :=
  [(.setTimeoutAt 0 (.fromMillis 1 one_le_max) 10, none), (.setTimeoutAt 1 (.fromMillis 9 nine_le_max) 11, none),
    (.setTimeoutAt 2 (.fromMillis 1 one_le_max) 12, none), (.pollTo 5, some 12), (.pollTo 5, some 10), (.pollTo 1, none)]

theorem run_threeTimeouts : ∃ c, Run ((client Nat Nat 1 8).restrict Proper) threeTimeouts c := by
  have h0 : Run ((client Nat Nat 1 8).restrict Proper) []
      ⟨⟨1, fun _ => none, fun _ => ⟨TICK_MAX, EMPTY⟩, 0, EMPTY, 7⟩, fun _ => none, fun _ => none⟩ := by
    refine .init ?_
    show _ = _
    rw [new_eight]
  have h1 := h0.step ⟨.setTimeoutAt _ _ 0 (.fromMillis 1 (by decide)) 10 _ rfl (.setTimeoutAt _ _ _ 10 ⟨0⟩ _ rfl (by decide)
    ((setTimeoutAt_eq 10 ⟨0⟩ (show durationToTick _ _ = .ok 1 from rfl) rfl).trans rfl)), trivial, by decide⟩
  have h2 := h1.step ⟨.setTimeoutAt _ _ 1 (.fromMillis 9 (by decide)) 11 _ rfl (.setTimeoutAt _ _ _ 11 ⟨1⟩ _ rfl (by decide)
    ((setTimeoutAt_eq 11 ⟨1⟩ (show durationToTick _ _ = .ok 9 from rfl) rfl).trans rfl)), trivial, by decide⟩
  have h3 := h2.step ⟨.setTimeoutAt _ _ 2 (.fromMillis 1 (by decide)) 12 _ rfl (.setTimeoutAt _ _ _ 12 ⟨2⟩ _ rfl (by decide)
    ((setTimeoutAt_eq 12 ⟨2⟩ (show durationToTick _ _ = .ok 1 from rfl) rfl).trans rfl)), trivial, by decide⟩
  have h4 := h3.step ⟨.pollTo _ _ 5 _ (.pollTo _ _ 3 5 (some (⟨2⟩, ⟨12, ⟨1, EMPTY, ⟨1⟩⟩⟩)) rfl), trivial, trivial⟩
  have h5 := h4.step ⟨.pollTo _ _ 5 _ (.pollTo _ _ 3 5 (some (⟨0⟩, ⟨10, ⟨1, ⟨1⟩, EMPTY⟩⟩)) rfl), trivial, trivial⟩
  have h6 := h5.step ⟨.pollTo _ _ 1 _ (.pollTo _ _ 2 1 none rfl), trivial, trivial⟩
  exact ⟨_, h6⟩

theorem wheel_is_a_priority_queue_three : ∃ a, Run (agenda Nat Nat 1) threeTimeouts a := by
  obtain ⟨c, h⟩ := run_threeTimeouts
  obtain ⟨a, ha, -⟩ := wheel_is_a_priority_queue h
  exact ⟨a, ha⟩

/-- Wheels of different sizes answer the same calls alike. -/
theorem slots_do_not_show {τ τ' : List (Op I T × Option T)} {c c' : Client I T}
    (h : Run ((client I T tickMs numSlots).restrict Proper) τ c) (h' : Run ((client I T tickMs numSlots').restrict Proper) τ' c')
    (he : τ.map Prod.fst = τ'.map Prod.fst) : τ = τ' :=
  (agenda_functional I T tickMs).alike (serves I T tickMs numSlots) (serves I T tickMs numSlots') h h' he

theorem slots_do_not_show_eight_one : ∃ c c', Run ((client Nat Nat 1 8).restrict Proper) threeTimeouts c ∧
    Run ((client Nat Nat 1 1).restrict Proper) threeTimeouts c' ∧ threeTimeouts = threeTimeouts := by
  obtain ⟨c, h⟩ := run_threeTimeouts
  have h0 : Run ((client Nat Nat 1 1).restrict Proper) []
      ⟨⟨1, fun _ => none, fun _ => ⟨TICK_MAX, EMPTY⟩, 0, EMPTY, 0⟩, fun _ => none, fun _ => none⟩ := by
    refine .init ?_
    have hpow : Nat.nextPowerOfTwo 1 = 1 := by decide +kernel
    show _ = (⟨Timer.new 1 1, _, _⟩ : Client Nat Nat)
    simp only [Timer.new, hpow]
  have h1 := h0.step ⟨.setTimeoutAt _ _ 0 (.fromMillis 1 (by decide)) 10 _ rfl (.setTimeoutAt _ _ _ 10 ⟨0⟩ _ rfl (by decide)
    ((setTimeoutAt_eq 10 ⟨0⟩ (show durationToTick _ _ = .ok 1 from rfl) rfl).trans rfl)), trivial, by decide⟩
  have h2 := h1.step ⟨.setTimeoutAt _ _ 1 (.fromMillis 9 (by decide)) 11 _ rfl (.setTimeoutAt _ _ _ 11 ⟨1⟩ _ rfl (by decide)
    ((setTimeoutAt_eq 11 ⟨1⟩ (show durationToTick _ _ = .ok 9 from rfl) rfl).trans rfl)), trivial, by decide⟩
  have h3 := h2.step ⟨.setTimeoutAt _ _ 2 (.fromMillis 1 (by decide)) 12 _ rfl (.setTimeoutAt _ _ _ 12 ⟨2⟩ _ rfl (by decide)
    ((setTimeoutAt_eq 12 ⟨2⟩ (show durationToTick _ _ = .ok 1 from rfl) rfl).trans rfl)), trivial, by decide⟩
  have h4 := h3.step ⟨.pollTo _ _ 5 _ (.pollTo _ _ 3 5 (some (⟨2⟩, ⟨12, ⟨1, EMPTY, ⟨1⟩⟩⟩)) rfl), trivial, trivial⟩
  have h5 := h4.step ⟨.pollTo _ _ 5 _ (.pollTo _ _ 3 5 (some (⟨0⟩, ⟨10, ⟨1, ⟨1⟩, EMPTY⟩⟩)) rfl), trivial, trivial⟩
  have h6 := h5.step ⟨.pollTo _ _ 1 _ (.pollTo _ _ 2 1 none rfl), trivial, trivial⟩
  exact ⟨c, _, h, h6, slots_do_not_show h h6 rfl⟩

end Answers

end Sickle.Timers
