/-
  Sickle.Timers.Board — the wheel as its lists.

  A board is what the links and the slab of `Sickle.Timers.Wheel` stand for: which keys
  are pending, with which tick and state (`due`), the list of each slot, and where the
  cursor stands in the list of the current slot (`pre` is behind it, `post` from it on).
  A slot's list holds exactly the pending keys that hash to it, each once; the structure
  carries that, so every operation below gives a board again.

  One round of polling (`round`) moves to the next tick when the cursor has passed the
  whole list, and otherwise hands out the timeout under the cursor or steps over it.
  `Polls` is a whole `poll_to`: rounds until a timeout fires or the tick passes the
  target.
  - `Polls.tick_le` / `Polls.none_tick`: how far the tick goes.
  - `polls_total`: every poll of a target below the last tick ends.
-/

import Mathlib.Data.List.Basic
import Sickle.Timers.Wheel

namespace Sickle.Timers

open Function (update)

variable {T : Type}

structure Board (T : Type) where
  slot : Nat → Nat
  tick : Nat
  due : Token → Option (Nat × T)
  list : Nat → List Token
  pre : List Token
  post : List Token
  /-- The cached lower bound of each slot. -/
  bound : Nat → Nat
  nodup : ∀ s, (list s).Nodup
  mem_iff : ∀ s k, k ∈ list s ↔ ∃ d, due k = some d ∧ slot d.1 = s
  split : list (slot tick) = pre ++ post

namespace Board

/-- The list of the current slot. -/
def here (b : Board T) : List Token := b.list (b.slot b.tick)

theorem here_nodup (b : Board T) : (b.pre ++ b.post).Nodup := b.split ▸ b.nodup _

theorem due_of_mem (b : Board T) {s : Nat} {k : Token} (h : k ∈ b.list s) : ∃ d, b.due k = some d ∧ b.slot d.1 = s :=
  (b.mem_iff s k).mp h

theorem mem_home (b : Board T) {k : Token} {d : Nat × T} (h : b.due k = some d) : k ∈ b.list (b.slot d.1) :=
  (b.mem_iff _ k).mpr ⟨d, h, rfl⟩

theorem due_of_mem_post (b : Board T) {k : Token} (h : k ∈ b.post) : ∃ d, b.due k = some d ∧ b.slot d.1 = b.slot b.tick :=
  b.due_of_mem (by rw [b.split]; exact List.mem_append_right _ h)

def init (slot : Nat → Nat) : Board T where
  slot := slot
  tick := 0
  due _ := none
  list _ := []
  pre := []
  post := []
  bound _ := TICK_MAX
  nodup _ := List.nodup_nil
  mem_iff _ _ := ⟨fun h => absurd h List.not_mem_nil, fun ⟨_, h, _⟩ => nomatch h⟩
  split := rfl

/-- A new timeout goes to the front of its slot's list; in the current slot that is
    behind the cursor. -/
def insert (b : Board T) (k : Token) (tick : Nat) (state : T) (hk : b.due k = none) : Board T where
  slot := b.slot
  tick := b.tick
  due := update b.due k (some (tick, state))
  list := update b.list (b.slot tick) (k :: b.list (b.slot tick))
  pre := if b.slot tick = b.slot b.tick then k :: b.pre else b.pre
  post := b.post
  bound := update b.bound (b.slot tick) (min tick (b.bound (b.slot tick)))
  nodup s := by
    by_cases e : s = b.slot tick
    · subst e
      rw [Function.update_self]
      refine List.nodup_cons.mpr ⟨fun hm => ?_, b.nodup _⟩
      obtain ⟨d, hd, -⟩ := b.due_of_mem hm
      rw [hk] at hd; cases hd
    · rw [Function.update_of_ne e]; exact b.nodup s
  mem_iff s x := by
    by_cases ex : x = k
    · subst ex
      have hx : ∀ s, x ∉ b.list s := fun s hm => by
        obtain ⟨d, hd, -⟩ := b.due_of_mem hm
        rw [hk] at hd; cases hd
      by_cases e : s = b.slot tick
      · subst e; simp
      · simp [Function.update_of_ne e, hx, Ne.symm e]
    · rw [Function.update_of_ne ex]
      by_cases e : s = b.slot tick
      · subst e; simp [ex, b.mem_iff]
      · rw [Function.update_of_ne e]; exact b.mem_iff s x
  split := by
    by_cases e : b.slot tick = b.slot b.tick
    · rw [if_pos e, e, Function.update_self, b.split, List.cons_append]
    · rw [if_neg e, Function.update_of_ne (Ne.symm e), b.split]

/-- A timeout is taken out of its list, and from the cursor's place there. -/
def remove (b : Board T) (k : Token) : Board T where
  slot := b.slot
  tick := b.tick
  due := update b.due k none
  list s := (b.list s).filter (· ≠ k)
  pre := b.pre.filter (· ≠ k)
  post := b.post.filter (· ≠ k)
  bound := b.bound
  nodup s := (b.nodup s).filter _
  mem_iff s x := by
    by_cases e : x = k
    · subst e; simp
    · simp [e, b.mem_iff]
  split := by rw [b.split, List.filter_append]

/-- What is left when a key is taken out. -/
theorem due_of_update {due : Token → Option (Nat × T)} {k k' : Token} {d : Nat × T} (h : update due k none k' = some d) :
    k' ≠ k ∧ due k' = some d := by
  by_cases e : k' = k
  · rw [e, Function.update_self] at h
    cases h
  · rw [Function.update_of_ne e] at h
    exact ⟨e, h⟩

theorem due_of_remove {b : Board T} {k k' : Token} {d : Nat × T} (h : (b.remove k).due k' = some d) :
    k' ≠ k ∧ b.due k' = some d :=
  due_of_update h

theorem due_of_insert {b : Board T} {k k' : Token} {tick : Nat} {state : T} {d : Nat × T} {hk : b.due k = none}
    (h : (b.insert k tick state hk).due k' = some d) : (k' = k ∧ d = (tick, state)) ∨ b.due k' = some d := by
  change update b.due k (some (tick, state)) k' = some d at h
  by_cases e : k' = k
  · rw [e, Function.update_self] at h
    cases h
    exact .inl ⟨e, rfl⟩
  · rw [Function.update_of_ne e] at h
    exact .inr h

/-- The bound of the current slot once the cursor has looked at the head of its list. -/
def look (b : Board T) : Board T :=
  { b with bound := if b.pre = [] then update b.bound (b.slot b.tick) TICK_MAX else b.bound }

/-- The next tick, with the cursor on the head of its slot. -/
def advance (b : Board T) : Board T :=
  { b with
    tick := b.tick + 1
    pre := []
    post := b.list (b.slot (b.tick + 1))
    bound := if b.list (b.slot (b.tick + 1)) = [] then update b.bound (b.slot (b.tick + 1)) TICK_MAX else b.bound
    split := rfl }

/-- The cursor steps over the timeout of tick `d` it stands on. -/
def pass (b : Board T) (d : Nat) : Board T :=
  { b with
    pre := b.pre ++ b.post.take 1
    post := b.post.drop 1
    bound := update b.look.bound (b.slot b.tick) (min (b.look.bound (b.slot b.tick)) d)
    split := by rw [List.append_assoc, List.take_append_drop]; exact b.split }

/-- One round of `poll_to`, and the timeout it hands out. -/
def round (b : Board T) : Board T × Option (Token × Nat × T) :=
  match b.post with
  | [] => (b.advance, none)
  | x :: _ =>
    match b.due x with
    | none => (b, none)
    | some d => if d.1 ≤ b.tick then (b.look.remove x, some (x, d)) else (b.pass d.1, none)

theorem round_nil {b : Board T} (h : b.post = []) : b.round = (b.advance, none) := by
  unfold round; rw [h]

theorem round_cons {b : Board T} {x : Token} {xs : List Token} {d : Nat × T} (h : b.post = x :: xs)
    (hd : b.due x = some d) :
    b.round = if d.1 ≤ b.tick then (b.look.remove x, some (x, d)) else (b.pass d.1, none) := by
  unfold round; rw [h]; simp only [hd]

/-- `poll_to` with its target already raised to the wheel's tick. -/
inductive Polls (target : Nat) : Board T → Board T → Option (Token × Nat × T) → Prop
  | done (b : Board T) : target < b.tick → Polls target b b none
  | more {b c d : Board T} {out : Option (Token × Nat × T)} : b.tick ≤ target → b.tick ≠ U64_MAX ∨ b.post ≠ [] →
      b.round = (c, none) → Polls target c d out → Polls target b d out
  | fire {b c : Board T} {f : Token × Nat × T} : b.tick ≤ target → b.round = (c, some f) → Polls target b c (some f)

/-! ## What a round does -/

/-- A round with nothing to hand out is an `advance` or a `pass`. -/
theorem round_none {b c : Board T} (h : b.round = (c, none)) :
    (b.post = [] ∧ c = b.advance) ∨
      ∃ x xs d, b.post = x :: xs ∧ b.due x = some d ∧ b.tick < d.1 ∧ c = b.pass d.1 := by
  cases hp : b.post with
  | nil => rw [round_nil hp] at h; cases h; exact .inl ⟨rfl, rfl⟩
  | cons x xs =>
    obtain ⟨d, hd, -⟩ := b.due_of_mem_post (hp ▸ List.mem_cons_self ..)
    rw [round_cons hp hd] at h
    split at h
    · cases h
    · rename_i hlt; cases h; exact .inr ⟨x, xs, d, rfl, hd, Nat.lt_of_not_le hlt, rfl⟩

/-- A round that hands out a timeout takes the one under the cursor. -/
theorem round_some {b c : Board T} {k : Token} {d : Nat × T} (h : b.round = (c, some (k, d))) :
    ∃ xs, b.post = k :: xs ∧ b.due k = some d ∧ d.1 ≤ b.tick ∧ c = b.look.remove k := by
  cases hp : b.post with
  | nil => rw [round_nil hp] at h; cases h
  | cons x xs =>
    obtain ⟨d', hd, -⟩ := b.due_of_mem_post (hp ▸ List.mem_cons_self ..)
    rw [round_cons hp hd] at h
    split at h
    · rename_i hle; cases h; exact ⟨xs, rfl, hd, hle, rfl⟩
    · cases h

/-- Whatever rounds keep, a poll that hands out nothing keeps. -/
theorem Polls.induct {target : Nat} {P : Board T → Prop}
    (hadv : ∀ b : Board T, P b → b.tick ≤ target → b.post = [] → b.tick ≠ U64_MAX → P b.advance)
    (hpass : ∀ (b : Board T) x xs d, P b → b.tick ≤ target → b.post = x :: xs → b.due x = some d → b.tick < d.1 →
      P (b.pass d.1))
    {b c : Board T} {out : Option (Token × Nat × T)} (h : Polls target b c out) (hb : P b) :
    (out = none ∧ P c ∧ target < c.tick) ∨
      ∃ (a : Board T) (k : Token) (d : Nat × T) (xs : List Token), P a ∧ a.tick ≤ target ∧ a.post = k :: xs ∧ a.due k = some d ∧
        d.1 ≤ a.tick ∧ c = a.look.remove k ∧ out = some (k, d) := by
  induction h with
  | done b hlt => exact .inl ⟨rfl, hb, hlt⟩
  | more hle hmax hr _ ih =>
    apply ih
    rcases round_none hr with ⟨hp, rfl⟩ | ⟨x, xs, d, hp, hd, hlt, rfl⟩
    · exact hadv _ hb hle hp (hmax.resolve_right fun hne => hne hp)
    · exact hpass _ x xs d hb hle hp hd hlt
  | @fire b c f hle hr =>
    obtain ⟨k, d⟩ := f
    obtain ⟨xs, hp, hd, hdle, rfl⟩ := round_some hr
    exact .inr ⟨b, k, d, xs, hb, hle, hp, hd, hdle, rfl, rfl⟩

/-! ## How far a poll goes -/

/-- The tick never passes the target by more than one. -/
theorem Polls.tick_le {target : Nat} {b c : Board T} {out : Option (Token × Nat × T)} (h : Polls target b c out)
    (hb : b.tick ≤ target + 1) : b.tick ≤ c.tick ∧ c.tick ≤ target + 1 ∧ (out ≠ none → c.tick ≤ target) := by
  rcases h.induct (P := fun x => b.tick ≤ x.tick ∧ x.tick ≤ target + 1)
    (fun x hx hle _ _ => ⟨Nat.le_succ_of_le hx.1, Nat.succ_le_succ hle⟩)
    (fun x _ _ _ hx _ _ _ _ => hx) ⟨Nat.le_refl _, hb⟩ with ⟨rfl, hc, -⟩ | ⟨a, k, d, xs, ha, hle, -, -, -, rfl, rfl⟩
  · exact ⟨hc.1, hc.2, fun h => absurd rfl h⟩
  · exact ⟨ha.1, ha.2, fun _ => hle⟩

theorem Polls.none_tick {target : Nat} {b c : Board T} (h : Polls target b c none) (hb : b.tick ≤ target + 1) :
    c.tick = target + 1 := by
  have hle := (h.tick_le hb).2.1
  rcases h.induct (P := fun _ => True) (fun _ _ _ _ _ => trivial) (fun _ _ _ _ _ _ _ _ _ => trivial) trivial with
    ⟨-, -, hlt⟩ | ⟨_, _, _, _, -, -, -, -, -, -, hout⟩
  · omega
  · cases hout

theorem Polls.some_due {target : Nat} {b c : Board T} {k : Token} {d : Nat × T} (h : Polls target b c (some (k, d))) :
    d.1 ≤ target := by
  rcases h.induct (P := fun _ => True) (fun _ _ _ _ _ => trivial) (fun _ _ _ _ _ _ _ _ _ => trivial) trivial with
    ⟨hout, -, -⟩ | ⟨a, _, _, _, -, hle, -, -, hd, -, hout⟩
  · cases hout
  · cases hout; exact Nat.le_trans hd hle

/-- A poll takes out what it hands out, and nothing else. -/
theorem Polls.due {target : Nat} {b c : Board T} {out : Option (Token × Nat × T)} (h : Polls target b c out) :
    (out = none ∧ c.due = b.due) ∨ ∃ k d, out = some (k, d) ∧ b.due k = some d ∧ c.due = update b.due k none := by
  rcases h.induct (P := fun x => x.due = b.due) (fun _ hx _ _ _ => hx) (fun _ _ _ _ hx _ _ _ _ => hx) rfl with
    ⟨rfl, hc, -⟩ | ⟨a, k, d, xs, ha, -, -, hd, -, rfl, rfl⟩
  · exact .inl ⟨rfl, hc⟩
  · refine .inr ⟨k, d, rfl, ha ▸ hd, ?_⟩
    show update a.due k none = _
    rw [ha]

/-- Every poll of a target below the last tick ends: the ticks to go shrink with each
    `advance`, and the rest of the list with each `pass`. -/
theorem polls_total {target : Nat} (ht : target < U64_MAX) : ∀ (n m : Nat) (b : Board T), target + 1 - b.tick ≤ n →
    b.post.length ≤ m → ∃ c out, Polls target b c out := by
  intro n
  induction n with
  | zero => intro m b hn _; exact ⟨b, none, .done b (by omega)⟩
  | succ n ihn =>
    intro m
    induction m with
    | zero =>
      intro b hn hm
      by_cases hle : b.tick ≤ target
      · have hp : b.post = [] := List.eq_nil_of_length_eq_zero (by omega)
        obtain ⟨c, out, h⟩ := ihn b.advance.post.length b.advance
          (by show target + 1 - (b.tick + 1) ≤ n; omega) (Nat.le_refl _)
        exact ⟨c, out, .more hle (.inl (by omega)) (round_nil hp) h⟩
      · exact ⟨b, none, .done b (by omega)⟩
    | succ m ihm =>
      intro b hn hm
      by_cases hle : b.tick ≤ target
      · cases hp : b.post with
        | nil => exact ihm b hn (by rw [hp]; exact Nat.zero_le _)
        | cons x xs =>
          obtain ⟨d, hd, -⟩ := b.due_of_mem_post (hp ▸ List.mem_cons_self ..)
          have hr := round_cons hp hd
          by_cases hdle : d.1 ≤ b.tick
          · rw [if_pos hdle] at hr; exact ⟨_, _, .fire hle hr⟩
          · rw [if_neg hdle] at hr
            have hlen : (b.pass d.1).post.length ≤ m := by
              show (b.post.drop 1).length ≤ m
              rw [List.length_drop]; omega
            obtain ⟨c, out, h⟩ := ihm (b.pass d.1) hn hlen
            exact ⟨c, out, .more hle (.inr (by rw [hp]; exact List.cons_ne_nil x xs)) hr h⟩
      · exact ⟨b, none, .done b (by omega)⟩

end Board

end Sickle.Timers
