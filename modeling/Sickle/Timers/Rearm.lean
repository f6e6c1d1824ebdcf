/-
  Sickle.Timers.Rearm — a pending timeout has a wakeup.

  The cached bound of a slot is below every pending tick of it, but for the timeouts that
  a drain has still to look at (`Passed`): a cursor on the head of a slot's list forgets
  the bound and finds it again on its way. A poll that returns nothing has passed every
  list it came to, so once a drain is over the bounds hold for all (`Bounded`), and the
  next tick is at or below every pending tick the wheel has not passed (`nextTick_le`).

  - `no_lost_timer_wakeup`: outside a drain and outside a call, each such timeout has
    `wakeup_state` at or below its tick, or the thread is about to make the timer
    readable, or the timer is readable.

  A `set_readiness` is one step here: it takes effect in one exchange of the node's word.
-/

import Sickle.Timers.Wakeup

namespace Sickle.Timers

open Function (update)
open Sickle.Lib

variable {T : Type}

/-! ## Drains -/

def drains (now : Bool) (a : Act T) : Bool :=
  match a with
  | .poll _ fired => fired.isSome
  | _ => now

/-- The last poll has returned a timeout: the owner polls again. -/
def draining (τ : List (Act T)) : Bool := τ.foldl drains false

theorem draining_concat (τ : List (Act T)) (a : Act T) : draining (τ ++ [a]) = drains (draining τ) a := by
  simp [draining]

/-! ## The bounds of a board -/

/-- The bounds hold for what the cursor has not still to pass. -/
def Passed (b : Board T) : Prop := ∀ k d, b.due k = some d → k ∉ b.post → b.bound (b.slot d.1) ≤ d.1

def Bounded (b : Board T) : Prop := ∀ k d, b.due k = some d → b.bound (b.slot d.1) ≤ d.1

theorem Bounded.passed {b : Board T} (h : Bounded b) : Passed b := fun k d hk _ => h k d hk

theorem Passed.bounded {b : Board T} (h : Passed b) (hp : b.post = []) : Bounded b := by
  intro k d hk
  refine h k d hk ?_
  rw [hp]
  exact List.not_mem_nil

theorem insert_bound {b : Board T} {k : Token} {tick : Nat} {state : T} (hk : b.due k = none) {k' : Token} {d : Nat × T}
    (hd : (b.insert k tick state hk).due k' = some d) (h : b.due k' = some d → b.bound (b.slot d.1) ≤ d.1) :
    (b.insert k tick state hk).bound (b.slot d.1) ≤ d.1 := by
  show update b.bound (b.slot tick) (min tick (b.bound (b.slot tick))) (b.slot d.1) ≤ d.1
  rcases Board.due_of_insert hd with ⟨-, rfl⟩ | hd
  · rw [Function.update_self]
    exact Nat.min_le_left ..
  · have hle := h hd
    by_cases es : b.slot d.1 = b.slot tick
    · rw [es] at hle ⊢
      rw [Function.update_self]
      omega
    · rw [Function.update_of_ne es]
      exact hle

namespace Bounded

variable {b : Board T}

theorem insert (h : Bounded b) {k : Token} {tick : Nat} {state : T} (hk : b.due k = none) : Bounded (b.insert k tick state hk) :=
  fun k' d hd => insert_bound hk hd (h k' d)

theorem remove (h : Bounded b) (k : Token) : Bounded (b.remove k) :=
  fun k' d hd => h k' d (Board.due_of_remove hd).2

/-- A new slot under the cursor loses its bound only when its list is empty. -/
theorem advance (h : Bounded b) : Bounded b.advance := by
  intro k d hd
  have hle := h k d hd
  show (if b.list (b.slot (b.tick + 1)) = [] then update b.bound (b.slot (b.tick + 1)) TICK_MAX else b.bound) (b.slot d.1) ≤ d.1
  split
  · rename_i hnil
    have hne : b.slot d.1 ≠ b.slot (b.tick + 1) := by
      intro e
      have hm := b.mem_home hd
      rw [e, hnil] at hm
      cases hm
    rw [Function.update_of_ne hne]
    exact hle
  · exact hle

end Bounded

namespace Passed

variable {b : Board T}

theorem insert (h : Passed b) {k : Token} {tick : Nat} {state : T} (hk : b.due k = none) : Passed (b.insert k tick state hk) :=
  fun k' d hd hp => insert_bound hk hd fun hd => h k' d hd hp

theorem remove (h : Passed b) (k : Token) : Passed (b.remove k) := by
  intro k' d hd hp
  obtain ⟨hne, hd⟩ := Board.due_of_remove hd
  refine h k' d hd fun hm => hp ?_
  exact List.mem_filter.mpr ⟨hm, by simpa using hne⟩

/-- A cursor on the head of the list has passed none of it. -/
theorem look (h : Passed b) : Passed b.look := by
  intro k d hd hp
  have hle := h k d hd hp
  show (if b.pre = [] then update b.bound (b.slot b.tick) TICK_MAX else b.bound) (b.slot d.1) ≤ d.1
  split
  · rename_i hpre
    have hne : b.slot d.1 ≠ b.slot b.tick := by
      intro e
      have hm := b.mem_home hd
      rw [e, b.split, hpre, List.nil_append] at hm
      exact hp hm
    rw [Function.update_of_ne hne]
    exact hle
  · exact hle

theorem pass (h : Passed b) {x : Token} {xs : List Token} {d : Nat × T} (hp : b.post = x :: xs) (hx : b.due x = some d) :
    Passed (b.pass d.1) := by
  intro k a ha hk
  change k ∉ b.post.drop 1 at hk
  rw [hp] at hk
  show update b.look.bound (b.slot b.tick) (min (b.look.bound (b.slot b.tick)) d.1) (b.slot a.1) ≤ a.1
  by_cases e : k = x
  · subst e
    change b.due k = some a at ha
    rw [hx] at ha
    cases ha
    obtain ⟨d', hd', hs⟩ := b.due_of_mem_post (hp ▸ List.mem_cons_self ..)
    rw [hx] at hd'
    cases hd'
    rw [hs, Function.update_self]
    exact Nat.min_le_right ..
  · have hkp : k ∉ b.post := by
      rw [hp]
      exact fun hm => (List.mem_cons.mp hm).elim e hk
    have hle := h.look k a ha hkp
    by_cases es : b.slot a.1 = b.slot b.tick
    · change b.look.bound (b.slot a.1) ≤ a.1 at hle
      rw [es] at hle ⊢
      rw [Function.update_self]
      omega
    · rw [Function.update_of_ne es]
      exact hle

/-- A poll that returns nothing leaves no timeout unaccounted for. -/
theorem polls (h : Passed b) {target : Nat} {c : Board T} {out : Option (Token × Nat × T)} (hp : Board.Polls target b c out)
    (ht : b.tick ≤ target) : Passed c ∧ (out = none → Bounded c) := by
  have h0 : Passed b ∧ (target < b.tick → Bounded b) := ⟨h, fun hlt => absurd ht (by omega)⟩
  rcases hp.induct (P := fun x => Passed x ∧ (target < x.tick → Bounded x))
    (fun x hx _ hpost _ => ⟨(hx.1.bounded hpost).advance.passed, fun _ => (hx.1.bounded hpost).advance⟩)
    (fun x y ys d hx hle hpost hd _ => ⟨hx.1.pass hpost hd, fun hlt => absurd hle (Nat.not_le.mpr hlt)⟩) h0 with
    ⟨rfl, hc, hlt⟩ | ⟨a, k, d, xs, ha, -, -, -, -, rfl, rfl⟩
  · exact ⟨hc.1, fun _ => hc.2 hlt⟩
  · exact ⟨ha.1.look.remove k, fun hn => by cases hn⟩

end Passed

/-- The next tick is at or below every pending one that the wheel has not passed. -/
theorem nextTick_le {t : Timer T} {b : Board T} (hr : Rep t b) (hb : Bounded b) {tick : Nat} (hn : t.nextTick = .ok (some tick))
    {k : Token} {d : Nat × T} (hd : b.due k = some d) (hle : t.tick ≤ d.1) : tick ≤ d.1 := by
  have hmin : t.minNextTick = some tick → tick ≤ d.1 := by
    intro hm
    have hmem : (t.wheel (t.slotFor d.1)).nextTick ∈ (List.range (t.mask + 1)).map fun i => (t.wheel i).nextTick := by
      refine List.mem_map.mpr ⟨_, List.mem_range.mpr ?_, rfl⟩
      exact Nat.lt_succ_of_le Nat.and_le_right
    have h1 := (List.min?_eq_some_iff.mp hm).2 _ hmem
    have h2 := hb k d hd
    rw [← hr.bound, hr.slot] at h2
    omega
  unfold Timer.nextTick at hn
  split at hn
  · split at hn
    · cases hn
    · split at hn
      · cases hn
        exact hle
      · injection hn with hn
        exact hmin hn
  · injection hn with hn
    exact hmin hn

/-! ## What is owed to a pending timeout -/

/-- A timeout of tick `k` has a wakeup. -/
def Covered (i : Inner) (k : Nat) : Prop := i.wakeupState ≤ k ∨ i.thread = .setReadiness ∨ i.readable = true

/-- It has one, or the owner is about to see to it. -/
def Owed (o : OwnerPc) (i : Inner) (k : Nat) : Prop :=
  match o with
  | .idle => Covered i k
  | .load tick => Covered i k ∨ tick ≤ k
  | .exchange _ tick => Covered i k ∨ tick ≤ k
  | .clear => True
  | .dropped => True

theorem Owed.mono {o : OwnerPc} {i j : Inner} {k : Nat} (h : Owed o i k) (hij : Covered i k → Covered j k) : Owed o j k := by
  cases o with
  | idle => exact hij h
  | load => exact h.imp_left hij
  | exchange => exact h.imp_left hij
  | clear => trivial
  | dropped => trivial

/-- The loop of `schedule_readiness` leaves when the word is low enough. -/
theorem owed_spin {i : Inner} {tick k : Nat} (h : Covered i k ∨ tick ≤ k) : Owed (Sys.spin i.wakeupState tick) i k := by
  unfold Sys.spin
  split
  · rename_i hle
    exact h.elim id fun hk => .inl (Nat.le_trans hle hk)
  · exact h

theorem spin_exchange {curr tick a b : Nat} (h : Sys.spin curr tick = .exchange a b) : b < a := by
  unfold Sys.spin at h
  split at h
  · cases h
  · cases h
    omega

/-- `drained`: outside a drain the bounds hold, and every timeout that the wheel has not
    passed is owed a wakeup. -/
structure Armed (τ : List (Act T)) (s : Sys T) (b : Board T) : Prop where
  rep : Rep s.timer b
  passed : Passed b
  drained : draining τ = false → Bounded b ∧
    ∀ i, s.inner = some i → ∀ k d, b.due k = some d → b.tick ≤ d.1 → Owed s.owner i d.1
  spins : ∀ curr tick, s.owner = .exchange curr tick → tick < curr

namespace Armed

variable {τ : List (Act T)} {s : Sys T} {b : Board T} {a : Act T}

/-- A step that leaves the timer and moves the shared words. -/
theorem shared (h : Armed τ s b) (ha : drains (draining τ) a = draining τ) {j : Inner} {o : OwnerPc}
    (ho : Bounded b → ∀ k d, b.due k = some d → b.tick ≤ d.1 → (∀ i, s.inner = some i → Owed s.owner i d.1) → Owed o j d.1)
    (hspin : ∀ curr tick, o = .exchange curr tick → tick < curr) :
    Armed (τ ++ [a]) { s with inner := some j, owner := o } b := by
  refine ⟨h.rep, h.passed, fun hd => ?_, hspin⟩
  rw [draining_concat, ha] at hd
  obtain ⟨hb, howed⟩ := h.drained hd
  refine ⟨hb, fun i hi k d hk hle => ?_⟩
  cases hi
  exact ho hb k d hk hle fun i hi => howed i hi k d hk hle

/-- A step of the thread that takes no wakeup away. -/
theorem thread (h : Armed τ s b) (ha : drains (draining τ) a = draining τ) {i j : Inner} (hi : s.inner = some i)
    (hij : ∀ k, Covered i k → Covered j k) : Armed (τ ++ [a]) { s with inner := some j } b :=
  h.shared ha (fun _ _ d _ _ ho => (ho i hi).mono (hij d.1)) h.spins

theorem cancel (h : Armed τ s b) {tickMs : Nat} {t' : Timer T} {b' : Board T} {handle : Timeout} {out : Option T} (hr : Rep t' b')
    (hm : Move tickMs b (.cancelTimeout handle out) b') (ha : drains (draining τ) a = draining τ) :
    Armed (τ ++ [a]) { s with timer := t' } b' := by
  cases hm with
  | stale _ _ =>
    refine ⟨hr, h.passed, fun hd => ?_, h.spins⟩
    rw [draining_concat, ha] at hd
    exact h.drained hd
  | cancel _ state _ =>
    refine ⟨hr, h.passed.remove _, fun hd => ?_, h.spins⟩
    rw [draining_concat, ha] at hd
    obtain ⟨hb, ho⟩ := h.drained hd
    exact ⟨hb.remove _, fun i hi k d hk hle => ho i hi k d (Board.due_of_remove hk).2 hle⟩

/-- A timeout that is set is scheduled next. -/
theorem set (h : Armed τ s b) (hidle : s.owner = .idle) {tickMs : Nat} {t' : Timer T} {b' : Board T} {d : Duration} {state : T}
    {handle : Timeout} (hr : Rep t' b') (hm : Move tickMs b (.setTimeoutAt d state handle) b')
    (ha : drains (draining τ) a = draining τ) :
    Armed (τ ++ [a]) { s with timer := t', owner := s.schedule handle.tick } b' := by
  cases hm with
  | set _ _ key tick hk _ _ =>
    refine ⟨hr, h.passed.insert hk, fun hd => ?_, fun curr tk ho => ?_⟩
    · rw [draining_concat, ha] at hd
      obtain ⟨hb, ho⟩ := h.drained hd
      refine ⟨hb.insert hk, fun i hi k x hx hle => ?_⟩
      change s.inner = some i at hi
      have hsched : s.schedule (raise b.tick tick) = .load (raise b.tick tick) := by
        rw [Sys.schedule, hi]
        rfl
      show Owed (s.schedule _) i x.1
      rw [hsched]
      rcases Board.due_of_insert hx with ⟨-, rfl⟩ | hx
      · exact .inr (Nat.le_refl _)
      · have := ho i hi k x hx hle
        rw [hidle] at this
        exact .inl this
    · change s.schedule _ = _ at ho
      unfold Sys.schedule at ho
      split at ho <;> cases ho

/-- A poll that returns nothing ends the drain, and goes on to clear and reschedule. -/
theorem poll (h : Armed τ s b) {tickMs target : Nat} {t' : Timer T} {b' : Board T}
    {out : Option (Token × Entry T)} (hr : Rep t' b') (hm : Move tickMs b (.pollTo target out) b') (elapsed : Duration) :
    Armed (τ ++ [.poll elapsed out])
      { s with timer := t', owner := if out.isNone ∧ s.inner.isSome then .clear else .idle } b' := by
  cases hm with
  | poll _ _ _ hps =>
    obtain ⟨hpass, hbound⟩ := h.passed.polls hps (by split <;> omega)
    refine ⟨hr, hpass, fun hd => ?_, fun curr tick ho => ?_⟩
    · rw [draining_concat] at hd
      have hout : out = none := by simpa [drains] using hd
      subst hout
      refine ⟨hbound rfl, fun i hi k d _ _ => ?_⟩
      change s.inner = some i at hi
      rw [hi]
      trivial
    · change (if _ then _ else _) = _ at ho
      split at ho <;> cases ho

/-- The owner reads the next tick. -/
theorem next (h : Armed τ s b) (ha : drains (draining τ) a = draining τ) {next : Option Nat} (hn : s.timer.nextTick = .ok next)
    (j : Inner) : Armed (τ ++ [a]) { s with inner := some j, owner := Sys.reschedule next } b := by
  obtain ⟨x, hx⟩ := nextTick_rep h.rep
  rw [hn] at hx
  cases hx
  refine h.shared ha (fun hb k d hk hle _ => .inr ?_) fun curr tick ho => by cases ho
  refine nextTick_le h.rep hb hn hk ?_
  rw [← h.rep.tick]
  exact hle

end Armed

theorem armed_step {τ : List (Act T)} {s s' : Sys T} {a : Act T} {b : Board T} (h : Armed τ s b) (hs : SysStep s a s') :
    ∃ b', Armed (τ ++ [a]) s' b' := by
  cases hs with
  | setTimeout t' elapsed delay start state handle hidle _ hcall =>
    obtain ⟨b', hr, hm, -⟩ := move_of_call h.rep hcall
    exact ⟨b', h.set hidle hr hm rfl⟩
  | cancelTimeout t' handle out hidle hcall =>
    obtain ⟨b', hr, hm, -⟩ := move_of_call h.rep hcall
    exact ⟨b', h.cancel hr hm rfl⟩
  | pollFired t' elapsed target f hidle _ hcall =>
    obtain ⟨b', hr, hm, -⟩ := move_of_call h.rep hcall
    have := h.poll hr hm elapsed
    refine ⟨b', ?_⟩
    rw [hidle]
    exact this
  | pollIdle t' elapsed target hidle _ hcall =>
    obtain ⟨b', hr, hm, -⟩ := move_of_call h.rep hcall
    have := h.poll hr hm elapsed
    refine ⟨b', ?_⟩
    simpa using this
  | clear i next ho hi hn => exact ⟨b, h.next rfl hn _⟩
  | register next hidle hi hn => exact ⟨b, h.next rfl hn _⟩
  | drop i hidle hi => exact ⟨b, h.shared rfl (fun _ _ _ _ _ _ => trivial) fun _ _ ho => by cases ho⟩
  | load i tick ho hi =>
    refine ⟨b, ?_⟩
    have hn := h.shared (a := .load) rfl (fun _ k d _ _ howed => by have := howed i hi; rw [ho] at this; exact owed_spin this)
      fun _ _ => spin_exchange
    rwa [← hi] at hn
  | store i curr tick ho hi hcurr =>
    refine ⟨b, h.shared rfl (fun _ k d _ _ howed => ?_) fun _ _ he => by cases he⟩
    have hlt := h.spins curr tick ho
    have hk := howed i hi
    rw [ho] at hk
    rcases hk with (hle | hset | hread) | hle
    · exact .inl (by show tick ≤ d.1; omega)
    · exact .inr (.inl hset)
    · exact .inr (.inr hread)
    · exact .inl hle
  | retry i curr tick ho hi _ =>
    refine ⟨b, ?_⟩
    have hn := h.shared (a := .retry) rfl (fun _ k d _ _ howed => by have := howed i hi; rw [ho] at this; exact owed_spin this)
      fun _ _ => spin_exchange
    rwa [← hi] at hn
  | threadLoad i hi hpc =>
    exact ⟨b, h.thread rfl hi fun k hc => by simpa [Covered, hpc] using hc⟩
  | threadReturn i hi hpc =>
    exact ⟨b, h.thread rfl hi fun k hc => by simpa [Covered, hpc] using hc⟩
  | threadPark i v now elapsed hi hpc _ _ _ =>
    exact ⟨b, h.thread rfl hi fun k hc => by simpa [Covered, hpc] using hc⟩
  | threadDue i v now elapsed hi hpc _ _ _ =>
    exact ⟨b, h.thread rfl hi fun k hc => by simpa [Covered, hpc] using hc⟩
  | threadPanic i v fault elapsed hi hpc _ _ =>
    exact ⟨b, h.thread rfl hi fun k hc => by simpa [Covered, hpc] using hc⟩
  | threadExchange i v hi hpc _ => exact ⟨b, h.thread rfl hi fun k _ => .inr (.inl rfl)⟩
  | threadRetry i v hi hpc _ =>
    exact ⟨b, h.thread rfl hi fun k hc => by simpa [Covered, hpc] using hc⟩
  | threadReadable i hi hpc => exact ⟨b, h.thread rfl hi fun k _ => .inr (.inr rfl)⟩

/-- Outside a drain and outside a call, each pending timeout that the wheel has not passed
    has a wakeup. -/
theorem no_lost_timer_wakeup {τ : List (Act T)} {s : Sys T} {i : Inner} {k : Token} {e : Entry T} (h : Run (system T) τ s)
    (hidle : s.owner = .idle) (hd : draining τ = false) (hi : s.inner = some i) (he : s.timer.entries k = some e)
    (hk : s.timer.tick ≤ e.links.tick) :
    i.wakeupState ≤ e.links.tick ∨ i.thread = .setReadiness ∨ i.readable = true := by
  obtain ⟨b, hb⟩ : ∃ b, Armed τ s b := by
    refine Run.inv_trace (P := fun τ s => ∃ b, Armed τ s b) ?_ ?_ h
    · intro s hx
      obtain ⟨tickMs, numSlots, rfl⟩ := hx
      exact ⟨_, new_rep tickMs numSlots, (fun _ _ h => by cases h), fun _ => ⟨(fun _ _ h => by cases h), fun i hi => by cases hi⟩,
        fun _ _ ho => by cases ho⟩
    · intro τ s a s' _ ih hs
      obtain ⟨b, hb⟩ := ih
      exact armed_step hb hs
  have howed := (hb.drained hd).2 i hi k _ (hb.rep.due_of_entry he) (by rw [hb.rep.tick]; exact hk)
  rw [hidle] at howed
  exact howed

/-- A timer of 1 ms ticks, registered, then a timeout after 1 ms: the owner stores tick 1
    and the thread takes it out and makes the timer readable. -/
theorem no_lost_timer_wakeup_one_timeout : ∃ (τ : List (Act Unit)) (s : Sys Unit) (i : Inner), Run (system Unit) τ s ∧
    i.wakeupState = U64_MAX ∧ (i.wakeupState ≤ 1 ∨ i.thread = .setReadiness ∨ i.readable = true) := by
  have h0 : Run (system Unit) [] ⟨⟨1, fun _ => none, fun _ => ⟨TICK_MAX, EMPTY⟩, 0, EMPTY, 7⟩, none, .idle⟩ :=
    .init ⟨1, 8, by rw [new_eight]⟩
  have h1 := h0.step (.register _ (some TICK_MAX) rfl rfl rfl)
  have h2 := h1.step (.load _ _ TICK_MAX rfl rfl)
  have h3 := h2.step (.setTimeout _ _ (.fromMillis 0 (Nat.zero_le _)) (.fromMillis 1 (by decide)) _ () ⟨⟨0⟩, 1⟩ rfl rfl
    (.setTimeoutAt _ _ _ () ⟨0⟩ _ rfl (by decide)
      ((setTimeoutAt_eq () ⟨0⟩ (show durationToTick _ _ = .ok 1 from rfl) rfl).trans rfl)))
  have h4 := h3.step (.load _ _ 1 rfl rfl)
  have h5 := h4.step (.store _ _ TICK_MAX 1 rfl rfl rfl)
  have h6 := h5.step (.threadLoad _ _ rfl rfl)
  have h7 := h6.step (.threadDue _ _ 1 1 (.fromMillis 1 (by decide)) rfl rfl (by decide) rfl (by decide))
  have h8 := h7.step (.threadExchange _ _ 1 rfl rfl rfl)
  exact ⟨_, _, _, h8, rfl, no_lost_timer_wakeup (k := ⟨0⟩) (e := ⟨(), ⟨1, EMPTY, EMPTY⟩⟩) h8 rfl rfl rfl rfl (by decide)⟩

end Sickle.Timers
