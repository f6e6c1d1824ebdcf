/-
  Sickle.Timers.Handles — what becomes of a timeout, and what its handle cancels.

  A timeout is known by the call that set it, the `n`-th of the run. It pends (`Pends`)
  until a later call hands out its key: a poll, or a `cancel_timeout` that returns a
  state.

  - `wheel_invariant`: in every reachable timer the lists are threaded through the slab
    (`Threaded`), no call looks up a key that is not there (`NoMiss`), and every timeout
    ever set is in its slot's list until it is handed out, once (`KeptOnce`).

  A handle is a slab key and a tick, the slab gives a key again once it is free, and
  `cancel_timeout` compares the ticks only. A timeout that fired at the wheel's tick
  leaves its key to one set right after it for the same tick, which the old handle then
  cancels: `a_fired_handle_cancels_another`.
  - `cancels_own_iff`: a handle cancels its own timeout or none, exactly when its own
    still pends or none pends that has an equal handle.
-/

import Mathlib.Data.Nat.Find
import Sickle.Timers.Calls

namespace Sickle.Timers

open Function (update)
open Sickle.Lib Sickle.Lib.Dll

variable {T : Type}

/-- The key and the state that a call hands out. -/
def Call.handsOut (c : Call T) : Option (Token × T) :=
  match c with
  | .cancelTimeout h (some state) => some (h.token, state)
  | .pollTo _ (some fired) => some (fired.1, fired.2.state)
  | _ => none

/-- Call `n` set a timeout with this state and handle, and no later call handed it out. -/
structure Pends (τ : List (Call T)) (n : Nat) (state : T) (h : Timeout) : Prop where
  set : ∃ d, τ[n]? = some (.setTimeoutAt d state h)
  kept : ∀ m c x, n < m → τ[m]? = some c → c.handsOut ≠ some (h.token, x)

/-! ## One call more -/

namespace Pends

variable {τ : List (Call T)} {n : Nat} {state : T} {h : Timeout} {c : Call T}

theorem lt (hp : Pends τ n state h) : n < τ.length := by
  obtain ⟨d, hd⟩ := hp.set
  exact getElem?_lt hd

/-- A timeout still pends unless the call hands it out. -/
theorem keep (hp : Pends τ n state h) (hc : ∀ x, c.handsOut ≠ some (h.token, x)) : Pends (τ ++ [c]) n state h := by
  obtain ⟨d, hd⟩ := hp.set
  refine ⟨⟨d, getElem?_old hd⟩, fun m c' x hm hc' => ?_⟩
  rcases getElem?_concat hc' with hc' | ⟨-, rfl⟩
  · exact hp.kept m c' x hm hc'
  · exact hc x

/-- A timeout just set pends. -/
theorem fresh (τ : List (Call T)) (d : Duration) (state : T) (h : Timeout) :
    Pends (τ ++ [.setTimeoutAt d state h]) τ.length state h := by
  refine ⟨⟨d, List.getElem?_concat_length ..⟩, fun m c x hm hc => ?_⟩
  have := getElem?_lt hc
  rw [List.length_append, List.length_singleton] at this
  omega

/-- What pends after a call was pending and is not handed out, or has just been set. -/
theorem cases (hp : Pends (τ ++ [c]) n state h) :
    (Pends τ n state h ∧ ∀ x, c.handsOut ≠ some (h.token, x)) ∨ (n = τ.length ∧ ∃ d, c = .setTimeoutAt d state h) := by
  obtain ⟨d, hd⟩ := hp.set
  rcases getElem?_concat hd with hd | ⟨rfl, rfl⟩
  · refine .inl ⟨⟨⟨d, hd⟩, fun m c' x hm hc' => hp.kept m c' x hm (getElem?_old hc')⟩, fun x => ?_⟩
    exact hp.kept τ.length c x (getElem?_lt hd) (List.getElem?_concat_length ..)
  · exact .inr ⟨rfl, d, rfl⟩

end Pends

/-! ## The slab holds what pends -/

/-- The pending timeouts of the board are those of the history, each set by one call. -/
structure History (τ : List (Call T)) (b : Board T) : Prop where
  due : ∀ k tick state, b.due k = some (tick, state) ↔ ∃ n, Pends τ n state ⟨k, tick⟩
  one : ∀ n m state state' h h', Pends τ n state h → Pends τ m state' h' → h.token = h'.token → n = m

namespace History

variable {τ : List (Call T)} {b : Board T}

theorem init (slot : Nat → Nat) : History [] (Board.init slot : Board T) := by
  have none : ∀ n (state : T) h, ¬ Pends [] n state h := by
    intro n state h hp
    have := hp.lt
    simp at this
  exact ⟨fun k tick state => ⟨(fun h => nomatch h), fun ⟨n, hp⟩ => absurd hp (none n state _)⟩,
    fun n _ state _ h _ hp => absurd hp (none n state h)⟩

/-- A call that neither sets a timeout nor hands one out. -/
theorem stay (h : History τ b) {c : Call T} {b' : Board T} (hc : c.handsOut = none)
    (hset : ∀ d state handle, c ≠ .setTimeoutAt d state handle) (hb : b'.due = b.due) : History (τ ++ [c]) b' := by
  have old : ∀ {n state handle}, Pends (τ ++ [c]) n state handle → Pends τ n state handle := by
    intro n state handle hp
    rcases hp.cases with ⟨hp, -⟩ | ⟨-, d, hd⟩
    · exact hp
    · exact absurd hd (hset d state handle)
  constructor
  · intro k tick state
    rw [hb, h.due]
    constructor
    · intro hx
      obtain ⟨n, hp⟩ := hx
      exact ⟨n, hp.keep fun x => by rw [hc]; simp⟩
    · intro hx
      obtain ⟨n, hp⟩ := hx
      exact ⟨n, old hp⟩
  · intro n m state state' handle handle' hp hp' ht
    exact h.one n m state state' handle handle' (old hp) (old hp') ht

/-- A call that hands out the timeout at `k`. -/
theorem take (h : History τ b) {c : Call T} {b' : Board T} {k : Token} {state₀ : T} (hc : c.handsOut = some (k, state₀))
    (hb : b'.due = update b.due k none) : History (τ ++ [c]) b' := by
  have old : ∀ {n state handle}, Pends (τ ++ [c]) n state handle → Pends τ n state handle ∧ handle.token ≠ k := by
    intro n state handle hp
    rcases hp.cases with ⟨hp, hk⟩ | ⟨-, d, hd⟩
    · exact ⟨hp, fun e => hk state₀ (by rw [hc, e])⟩
    · rw [hd] at hc
      cases hc
  constructor
  · intro k' tick state
    rw [hb]
    by_cases e : k' = k
    · subst e
      rw [Function.update_self]
      exact ⟨(fun hx => nomatch hx), fun ⟨n, hp⟩ => absurd rfl (old hp).2⟩
    · rw [Function.update_of_ne e, h.due]
      constructor
      · intro hx
        obtain ⟨n, hp⟩ := hx
        refine ⟨n, hp.keep fun x hx => e ?_⟩
        rw [hc] at hx
        cases hx
        rfl
      · intro hx
        obtain ⟨n, hp⟩ := hx
        exact ⟨n, (old hp).1⟩
  · intro n m state state' handle handle' hp hp' ht
    exact h.one n m state state' handle handle' (old hp).1 (old hp').1 ht

/-- A timeout is set at a key that is free. -/
theorem insert (h : History τ b) {d : Duration} {state₀ : T} {k : Token} {tick₀ : Nat} {b' : Board T} (hk : b.due k = none)
    (hb : b'.due = update b.due k (some (tick₀, state₀))) : History (τ ++ [.setTimeoutAt d state₀ ⟨k, tick₀⟩]) b' := by
  have free : ∀ n state handle, Pends τ n state handle → handle.token ≠ k := by
    intro n state handle hp e
    have := (h.due handle.token handle.tick state).mpr ⟨n, hp⟩
    rw [e, hk] at this
    cases this
  constructor
  · intro k' tick state
    rw [hb]
    by_cases e : k' = k
    · subst e
      rw [Function.update_self]
      constructor
      · intro hx
        cases hx
        exact ⟨τ.length, .fresh ..⟩
      · intro hx
        obtain ⟨n, hp⟩ := hx
        rcases hp.cases with ⟨hp, -⟩ | ⟨-, d', hd⟩
        · exact absurd rfl (free n state _ hp)
        · cases hd
          rfl
    · rw [Function.update_of_ne e, h.due]
      constructor
      · intro hx
        obtain ⟨n, hp⟩ := hx
        exact ⟨n, hp.keep fun x => by simp [Call.handsOut]⟩
      · intro hx
        obtain ⟨n, hp⟩ := hx
        rcases hp.cases with ⟨hp, -⟩ | ⟨-, d', hd⟩
        · exact ⟨n, hp⟩
        · cases hd
          exact absurd rfl e
  · intro n m state state' handle handle' hp hp' ht
    rcases hp.cases with ⟨hp, -⟩ | ⟨rfl, d', hd⟩ <;> rcases hp'.cases with ⟨hp', -⟩ | ⟨rfl, d'', hd'⟩
    · exact h.one n m state state' handle handle' hp hp' ht
    · cases hd'
      exact absurd ht (free n state handle hp)
    · cases hd
      exact absurd ht.symm (free m state' handle' hp')
    · rfl

theorem move (h : History τ b) {tickMs : Nat} {c : Call T} {b' : Board T} (hm : Move tickMs b c b') : History (τ ++ [c]) b' := by
  cases hm with
  | set d state key tick hk _ _ => exact h.insert hk rfl
  | cancel handle state _ => exact h.take (k := handle.token) rfl rfl
  | stale handle _ => exact h.stay rfl (by simp) rfl
  | poll _ target out hps =>
    rcases hps.due with ⟨hout, hd⟩ | ⟨k, x, hout, -, hd⟩
    · rw [Option.map_eq_none_iff] at hout
      subst hout
      exact h.stay rfl (by simp) hd
    · obtain ⟨f, rfl, hf⟩ := Option.map_eq_some_iff.mp hout
      cases hf
      exact h.take rfl hd

/-- What is in the slab under `k`. -/
theorem entry {t : Timer T} (h : History τ b) (hr : Rep t b) {k : Token} {e : Entry T} (he : t.entries k = some e) :
    ∃ n, Pends τ n e.state ⟨k, e.links.tick⟩ :=
  (h.due k e.links.tick e.state).mp (hr.due_of_entry he)

theorem live {t : Timer T} (h : History τ b) (hr : Rep t b) {n : Nat} {state : T} {handle : Timeout}
    (hp : Pends τ n state handle) : ∃ e, t.entries handle.token = some e ∧ e.links.tick = handle.tick ∧ e.state = state :=
  hr.entry_of_due ((h.due handle.token handle.tick state).mpr ⟨n, hp⟩)

end History

theorem history_inv {τ : List (Call T)} {t : Timer T} (h : Run (calls T) τ t) : ∃ b, Rep t b ∧ History τ b :=
  rep_inv (C := fun _ _ => True) (P := History) History.init (fun _ _ _ _ _ _ h _ hm => h.move hm) h.free

/-! ## The wheel in every reachable state -/

/-- `list` are the lists of the slots: every entry of the slab is in exactly one, that of
    its tick; a list is threaded through the slab from the slot's head, with the links of
    each entry to its neighbours and EMPTY at both ends; the cursor is EMPTY or in the
    list of the wheel's tick. -/
structure Threaded (t : Timer T) (list : Nat → List Token) : Prop where
  home : ∀ k e, t.entries k = some e → ∀ s, k ∈ list s ↔ s = t.slotFor e.links.tick
  live : ∀ s k, k ∈ list s → k ≠ EMPTY ∧ ∃ e, t.entries k = some e
  nodup : ∀ s, (list s).Nodup
  head : ∀ s, (t.wheel s).head = (list s).headD EMPTY
  seg : ∀ s, Seg (lk t.entries) EMPTY (list s) EMPTY
  cursor : t.next = EMPTY ∨ t.next ∈ list (t.slotFor t.tick)

/-- No operation looks up a key that the slab does not hold. -/
structure NoMiss (t : Timer T) : Prop where
  insert : ∀ tick state key, t.entries key = none → key ≠ EMPTY → ∃ r, t.insert tick state key = .ok r
  unlink : ∀ k e, t.entries k = some e → ∃ r, t.unlink e.links k = .ok r
  cancel : ∀ h, ∃ r, t.cancelTimeout h = .ok r
  poll : ∀ fuel target, t.pollTo fuel target ≠ .error .badKey
  next : ∃ tick, t.nextTick = .ok tick

theorem Rep.threaded {t : Timer T} {b : Board T} (h : Rep t b) : Threaded t b.list where
  home k e he s := by
    rw [b.mem_iff, h.due_of_entry he, ← h.slot]
    constructor
    · intro hx
      obtain ⟨d, hd, rfl⟩ := hx
      cases hd
      rfl
    · intro hs
      exact ⟨_, rfl, hs.symm⟩
  live s k hm := by
    obtain ⟨d, hd, -⟩ := b.due_of_mem hm
    exact ⟨h.ne_empty hd, h.entry_of_mem hm⟩
  nodup := b.nodup
  head := h.head
  seg := h.seg
  cursor := by
    rw [h.next, ← h.slot, ← h.tick, b.split]
    rcases headD_mem_or EMPTY b.post with he | hm
    · exact .inl he
    · exact .inr (List.mem_append_right _ hm)

theorem pollLoop_ne_badKey {target : Nat} : ∀ {fuel : Nat} {t : Timer T} {b : Board T}, Rep t b →
    t.pollLoop fuel target ≠ .error .badKey := by
  intro fuel
  induction fuel with
  | zero => intro t b _ hl; cases hl
  | succ fuel ih =>
    intro t b h hl
    rw [Timer.pollLoop] at hl
    split at hl
    · by_cases hmax : b.tick ≠ U64_MAX ∨ b.post ≠ []
      · obtain ⟨t1, o, h1, h2, -, -⟩ := pollRound_rep h hmax
        rw [h1] at hl
        cases o with
        | some f => cases hl
        | none => exact ih h2 hl
      · -- the wheel's tick overflows
        obtain ⟨hm, hp⟩ := not_or.mp hmax
        rw [not_not] at hm hp
        rw [h.overflow hp (by rw [← h.tick]; exact hm)] at hl
        cases hl
    · cases hl

theorem Rep.noMiss {t : Timer T} {b : Board T} (h : Rep t b) : NoMiss t where
  insert tick state key hk hne := by
    obtain ⟨t', ht, -⟩ := insert_rep h tick state (h.due_none.mpr hk) hne
    exact ⟨_, ht⟩
  unlink k e he := by
    obtain ⟨t1, -, ht, -⟩ := take_rep h he
    exact ⟨_, ht⟩
  cancel handle := by
    obtain ⟨t', b', out, hc, -⟩ := cancelTimeout_total h handle
    exact ⟨_, hc⟩
  poll fuel target := pollLoop_ne_badKey h
  next := by
    obtain ⟨s, hs⟩ := nextTick_rep h
    exact ⟨_, hs⟩

/-- Call `m` hands out the timeout of call `n`. -/
structure Taken (τ : List (Call T)) (n m : Nat) (state : T) (h : Timeout) : Prop where
  pends : Pends (τ.take m) n state h
  out : ∃ c, τ[m]? = some c ∧ c.handsOut = some (h.token, state)

/-- Every timeout set is in the list of its slot until it is handed out, once; and all
    that is handed out was set. -/
structure KeptOnce (τ : List (Call T)) (t : Timer T) (list : Nat → List Token) : Prop where
  kept : ∀ n d state h, τ[n]? = some (.setTimeoutAt d state h) →
    (Pends τ n state h ∧ h.token ∈ list (t.slotFor h.tick) ∧
      ∃ e, t.entries h.token = some e ∧ e.links.tick = h.tick ∧ e.state = state) ∨
    ∃ m, Taken τ n m state h ∧ ∀ m', Taken τ n m' state h → m' = m
  given : ∀ m c k state, τ[m]? = some c → c.handsOut = some (k, state) → ∃ n tick, Taken τ n m state ⟨k, tick⟩

/-- What a call hands out pends. -/
theorem handsOut_pends {τ : List (Call T)} {t t' : Timer T} {c : Call T} (h : Run (calls T) τ t) (hs : CallStep t c t')
    {k : Token} {state : T} (hc : c.handsOut = some (k, state)) : ∃ n tick, Pends τ n state ⟨k, tick⟩ := by
  obtain ⟨b, hr, hb⟩ := history_inv h
  obtain ⟨b', -, hm, -⟩ := move_of_call hr hs
  cases hm with
  | set => cases hc
  | cancel handle state' hd =>
    cases hc
    obtain ⟨n, hp⟩ := (hb.due _ _ _).mp hd
    exact ⟨n, _, hp⟩
  | stale => cases hc
  | poll _ target out hps =>
    rcases hps.due with ⟨hout, -⟩ | ⟨k', d, hout, hd, -⟩
    · rw [Option.map_eq_none_iff] at hout
      subst hout
      cases hc
    · obtain ⟨f, rfl, hf⟩ := Option.map_eq_some_iff.mp hout
      cases hf
      cases hc
      obtain ⟨n, hp⟩ := (hb.due _ _ _).mp hd
      exact ⟨n, _, hp⟩

theorem taken_of_handsOut {τ : List (Call T)} {t : Timer T} (h : Run (calls T) τ t) {m : Nat} {c : Call T} {k : Token}
    {state : T} (hm : τ[m]? = some c) (hc : c.handsOut = some (k, state)) : ∃ n tick, Taken τ n m state ⟨k, tick⟩ := by
  obtain ⟨t₁, t₂, h₁, hs⟩ := h.split hm
  obtain ⟨n, tick, hp⟩ := handsOut_pends h₁ hs hc
  exact ⟨n, tick, hp, c, hm, hc⟩

theorem Taken.lt {τ : List (Call T)} {n m : Nat} {state : T} {h : Timeout} (ht : Taken τ n m state h) : n < m := by
  have := ht.pends.lt
  rw [List.length_take] at this
  omega

/-- A timeout is handed out once: after that it does not pend. -/
theorem Taken.unique {τ : List (Call T)} {n m m' : Nat} {state : T} {h : Timeout} (ht : Taken τ n m state h)
    (ht' : Taken τ n m' state h) : m' = m := by
  have before : ∀ {i j}, Taken τ n i state h → Taken τ n j state h → ¬ i < j := by
    intro i j hi hj hlt
    obtain ⟨c, hc, hout⟩ := hi.out
    refine hj.pends.kept i c state hi.lt ?_ hout
    rw [List.getElem?_take_of_lt hlt]
    exact hc
  have h1 := before ht ht'
  have h2 := before ht' ht
  omega

/-- A timeout that does not pend any more was handed out by the first call to hand out
    its key. -/
theorem taken_of_not_pends {τ : List (Call T)} {t : Timer T} (h : Run (calls T) τ t) {n : Nat} {d : Duration} {state : T}
    {handle : Timeout} (hn : τ[n]? = some (.setTimeoutAt d state handle)) (hp : ¬ Pends τ n state handle) :
    ∃ m, Taken τ n m state handle := by
  have hex : ∃ m, n < m ∧ ∃ c x, τ[m]? = some c ∧ c.handsOut = some (handle.token, x) := by
    by_contra hno
    refine hp ⟨⟨d, hn⟩, fun m c x hm hc hx => hno ⟨m, hm, c, x, hc, hx⟩⟩
  classical
  set m := Nat.find hex with hm_def
  obtain ⟨hlt, c, x, hc, hx⟩ : n < m ∧ ∃ c x, τ[m]? = some c ∧ c.handsOut = some (handle.token, x) := Nat.find_spec hex
  obtain ⟨t₁, t₂, h₁, hs⟩ := h.split hc
  have hpends : Pends (τ.take m) n state handle := by
    refine ⟨⟨d, ?_⟩, fun i c' x' hi hc' hx' => ?_⟩
    · rw [List.getElem?_take_of_lt hlt]
      exact hn
    · have him := getElem?_lt hc'
      rw [List.length_take] at him
      have hlt' : i < m := by omega
      rw [List.getElem?_take_of_lt hlt'] at hc'
      exact Nat.find_min hex hlt' ⟨hi, c', x', hc', hx'⟩
  obtain ⟨n', tick, hp'⟩ := handsOut_pends h₁ hs hx
  obtain ⟨b, -, hb⟩ := history_inv h₁
  obtain rfl := hb.one _ _ _ _ _ _ hpends hp' rfl
  obtain ⟨d', hd'⟩ := hp'.set
  rw [List.getElem?_take_of_lt hlt, hn, Option.some.injEq] at hd'
  injection hd' with _ hstate _
  subst hstate
  exact ⟨m, hpends, c, hc, hx⟩

/-- A timeout of 1 ms fired at tick 1, and another set right after it. -/
theorem run_reused : ∃ t : Timer Nat, Run (calls Nat) [.setTimeoutAt (.fromMillis 1 (by decide)) 1 ⟨⟨0⟩, 1⟩, .pollTo 0 none,
      .pollTo 1 (some (⟨0⟩, ⟨1, ⟨1, EMPTY, EMPTY⟩⟩)), .setTimeoutAt (.fromMillis 1 (by decide)) 2 ⟨⟨0⟩, 1⟩] t ∧
    ∃ t', CallStep t (.cancelTimeout ⟨⟨0⟩, 1⟩ (some 2)) t' := by
  have h1 := run_new_eight.step (.setTimeoutAt _ _ (.fromMillis 1 (by decide)) 1 ⟨0⟩ _ rfl (by decide)
    ((setTimeoutAt_eq 1 ⟨0⟩ (show durationToTick _ _ = .ok 1 from rfl) rfl).trans rfl))
  have h2 := h1.step (.pollTo _ _ 2 0 none rfl)
  have h3 := h2.step (.pollTo _ _ 2 1 _ rfl)
  have h4 := h3.step (.setTimeoutAt _ _ (.fromMillis 1 (by decide)) 2 ⟨0⟩ _ rfl (by decide)
    ((setTimeoutAt_eq 2 ⟨0⟩ (show durationToTick _ _ = .ok 1 from rfl) rfl).trans rfl))
  exact ⟨_, h4, _, .cancelTimeout _ _ ⟨⟨0⟩, 1⟩ (some 2) rfl⟩

/-- In every reachable timer the slots' lists are threaded through the slab, no operation
    looks up a key that is not there, and each timeout is in its list until it is handed
    out, once. -/
theorem wheel_invariant {τ : List (Call T)} {t : Timer T} (h : Run (calls T) τ t) :
    ∃ list, Threaded t list ∧ NoMiss t ∧ KeptOnce τ t list := by
  obtain ⟨b, hr, hb⟩ := history_inv h
  refine ⟨b.list, hr.threaded, hr.noMiss, fun n d state handle hn => ?_, fun m c k state hm hc => taken_of_handsOut h hm hc⟩
  by_cases hp : Pends τ n state handle
  · obtain ⟨e, he, ht, hs⟩ := hb.live hr hp
    refine .inl ⟨hp, ?_, e, he, ht, hs⟩
    rw [← ht]
    exact (hr.threaded.home _ e he _).mpr rfl
  · obtain ⟨m, hm⟩ := taken_of_not_pends h hn hp
    exact .inr ⟨m, hm, fun m' hm' => hm.unique hm'⟩

theorem wheel_invariant_reused_key : ∃ (τ : List (Call Nat)) (t : Timer Nat) (list : Nat → List Token), τ.length = 4 ∧
    Threaded t list ∧ NoMiss t ∧ KeptOnce τ t list := by
  obtain ⟨t, h, -⟩ := run_reused
  obtain ⟨list, hl⟩ := wheel_invariant h
  exact ⟨_, t, list, rfl, hl⟩

/-! ## What a handle cancels -/

/-- The answer `out` of `cancel_timeout` to the handle of call `n`, as it should be: the
    state of that call and no other, and nothing, with the timer as it was, once the
    timeout has fired or was cancelled. -/
structure CancelsOwn (τ : List (Call T)) (n : Nat) (state : T) (h : Timeout) (t t' : Timer T) (out : Option T) : Prop where
  own : ∀ x, out = some x → Pends τ n state h ∧ x = state
  stale : ¬ Pends τ n state h → out = none ∧ t' = t

/-- A handle cancels its own timeout or none exactly when its own still pends, or no
    other pending timeout was given an equal handle. -/
theorem cancels_own_iff {τ : List (Call T)} {t t' : Timer T} {n : Nat} {d : Duration} {state : T} {h : Timeout} {out : Option T}
    (hr : Run (calls T) τ t) (hn : τ[n]? = some (.setTimeoutAt d state h)) (hc : CallStep t (.cancelTimeout h out) t') :
    CancelsOwn τ n state h t t' out ↔ Pends τ n state h ∨ ∀ m x, m ≠ n → ¬ Pends τ m x h := by
  obtain ⟨b, hrep, hb⟩ := history_inv hr
  cases hc with
  | cancelTimeout _ _ _ hc =>
    constructor
    · intro hown
      by_cases hp : Pends τ n state h
      · exact .inl hp
      · right
        intro m x _ hm
        obtain ⟨e, he, ht, -⟩ := hb.live hrep hm
        obtain ⟨t₂, hc₂, -⟩ := cancelTimeout_live hrep he ht
        obtain ⟨rfl, -⟩ := hown.stale hp
        rw [hc] at hc₂
        cases hc₂
    · intro hcond
      by_cases hp : Pends τ n state h
      · obtain ⟨e, he, ht, rfl⟩ := hb.live hrep hp
        obtain ⟨t₂, hc₂, -⟩ := cancelTimeout_live hrep he ht
        rw [hc] at hc₂
        cases hc₂
        exact ⟨fun x hx => ⟨hp, (Option.some.inj hx).symm⟩, fun hn => absurd hp hn⟩
      · -- nothing that pends has this key and this tick
        have hstale : ∀ e, t.entries h.token = some e → e.links.tick ≠ h.tick := by
          intro e he ht
          obtain ⟨m, hm⟩ := hb.entry hrep he
          have hm' : Pends τ m e.state h := by
            rw [ht] at hm
            exact hm
          refine hcond.resolve_left hp m e.state (fun hmn => hp ?_) hm'
          subst hmn
          obtain ⟨d', hd'⟩ := hm'.set
          rw [hn] at hd'
          cases hd'
          exact hm'
        have hnone := cancelTimeout_stale hstale
        rw [hc] at hnone
        cases hnone
        exact ⟨(fun x hx => by cases hx), fun _ => ⟨rfl, rfl⟩⟩

theorem cancels_own_iff_fired : ∃ (τ : List (Call Nat)) (t t' : Timer Nat),
    CancelsOwn τ 3 2 ⟨⟨0⟩, 1⟩ t t' (some 2) ↔ Pends τ 3 2 ⟨⟨0⟩, 1⟩ ∨ ∀ m x, m ≠ 3 → ¬ Pends τ m x ⟨⟨0⟩, 1⟩ := by
  obtain ⟨t, h, t', hc⟩ := run_reused
  exact ⟨_, t, t', cancels_own_iff h rfl hc⟩

/-- A timeout of 1 ms fires at tick 1; another of 1 ms is set, and gets the same key and
    tick; the first one's handle cancels it. -/
theorem a_fired_handle_cancels_another : ¬ ∀ (τ : List (Call Nat)) (t t' : Timer Nat) (n : Nat) (d : Duration) (state : Nat)
    (h : Timeout) (out : Option Nat), Run (calls Nat) τ t → τ[n]? = some (.setTimeoutAt d state h) →
    CallStep t (.cancelTimeout h out) t' → CancelsOwn τ n state h t t' out := by
  intro hall
  obtain ⟨t, h, t', hc⟩ := run_reused
  have hown := (hall _ t t' 0 _ 1 ⟨⟨0⟩, 1⟩ (some 2) h rfl hc).own 2 rfl
  exact absurd hown.2 (by decide)

end Sickle.Timers
