/-
  Sickle.Poll.Lock — one thread at a time inside `Poll::poll2` (`Poll::poll1`).

  `lock_state` packs a lock bit and twice the number of waiting threads. Any number of
  threads (indexed by `ι`) call `poll1`; each atomic operation on `lock_state`, each
  acquisition and release of the mutex, the start and the end of a wait on the condition
  variable, `notify_one` and `poll2` as a whole are one step each, in any order.

  A wait ends by a notification, by its timeout, or spuriously, and then takes the mutex
  again. `notify_one` ends the wait of some thread if any is still waiting; it may also be
  spent on one that has just timed out or woken spuriously and is not back yet. What a
  wait took of its timeout is free.

  A waiter is a thread, so their number never reaches 2^63 and `checked_add(2)` does not
  overflow (`lock_state_le`); the word is a natural number.

  - `one_poller`: at most one thread is inside `poll2`, and the word is twice the number
    of threads counted in it, plus 1 exactly when some thread holds the lock bit.
  - `no_stranded_poller`: while the lock bit is clear and some thread waits unnotified,
    some thread has still to notify, or has been woken and has still to look at the word.
-/

import Mathlib.Data.Fintype.Card
import Sickle.Lib.Census
import Sickle.Lib.Run

namespace Sickle.Poll

open Function (update)
open Sickle.Lib

/-- Why a wait ended. -/
inductive Wake where
  | notified
  | timedOut
  | spurious
  deriving DecidableEq, Repr

/-- Where a thread is in `poll1`, with its `curr` and `timeout`. `woken` is `none` until
    its first wait is over, which is where `inc` is false. -/
inductive LockPc where
  | idle
  /-- Before the `compare_exchange(0, 1)`. -/
  | start (timeout : Option Nat)
  | lock (curr : Nat) (timeout : Option Nat)
  /-- Before the exchange that sets the lock bit. -/
  | acquire (woken : Option Wake) (curr : Nat) (timeout : Option Nat)
  /-- Before the `fetch_sub(2)`. -/
  | giveBack
  /-- Before the exchange that adds 2. -/
  | increment (curr : Nat) (timeout : Option Nat)
  | sleep (timeout : Option Nat)
  | waiting (woken : Option Wake) (timeout : Option Nat)
  | load (woken : Wake) (timeout : Option Nat)
  /-- The lock bit is set, the mutex still held. -/
  | unlock (timeout : Option Nat)
  | polling (timeout : Option Nat)
  /-- Before the `fetch_and(!1)`. -/
  | release
  | notifyLock
  | notify
  | notifyUnlock
  /-- Before the return of `Ok(0)`, the mutex still held. -/
  | leave
  | ret
  deriving DecidableEq, Repr

namespace LockPc

/-- Has set `inc` and not given it back. -/
def counted (p : LockPc) : Bool :=
  match p with
  | .acquire woken _ _ => woken.isSome
  | .giveBack | .sleep _ | .waiting _ _ | .load _ _ => true
  | _ => false

/-- Between acquiring and releasing the lock bit. -/
def locked (p : LockPc) : Bool :=
  match p with
  | .unlock _ | .polling _ | .release => true
  | _ => false

def hasMutex (p : LockPc) : Bool :=
  match p with
  | .acquire _ _ _ | .giveBack | .increment _ _ | .sleep _ | .load _ _ | .unlock _ | .notify | .notifyUnlock | .leave => true
  | _ => false

/-- Waiting, or about to, with no notification yet. -/
def unnotified (p : LockPc) : Bool :=
  match p with
  | .sleep _ | .waiting none _ => true
  | _ => false

/-- Has cleared the lock bit and has still to call `notify_one`. -/
def notifying (p : LockPc) : Bool :=
  match p with
  | .notifyLock | .notify => true
  | _ => false

/-- Notified or timed out, with the exchange or the load of the word still to come. -/
def reexamining (p : LockPc) : Bool :=
  match p with
  | .waiting (some w) _ | .load w _ | .acquire (some w) _ _ => w ≠ .spurious
  | _ => false

/-- The top of the loop, with `curr` in hand. -/
def top (woken : Option Wake) (curr : Nat) (timeout : Option Nat) : LockPc :=
  if curr &&& 1 = 0 then .acquire woken curr timeout
  else if timeout = some 0 then (if woken.isSome then .giveBack else .leave)
  else if woken.isSome then .sleep timeout
  else .increment curr timeout

/-- What a thread that got the lock bit stores in the word. -/
def acquireNext (woken : Option Wake) (curr : Nat) : Nat := if woken.isSome then (curr ||| 1) - 2 else curr ||| 1

/-- The timeout after a wait that took `elapsed`. -/
def remaining (timeout : Option Nat) (elapsed : Nat) : Option Nat :=
  timeout.map fun t => if t ≤ elapsed then 0 else t - elapsed

end LockPc

structure Locker (ι : Type) where
  lockState : Nat
  mutex : Option ι
  pc : ι → LockPc

inductive LockEv (ι : Type) where
  | called (i : ι) (timeout : Option Nat)
  | returned (i : ι)
  | enters (i : ι)
  | leaves (i : ι)
  | quiet

/-- `lock_state & !1`. -/
def clearLockBit (w : Nat) : Nat := w - (w &&& 1)

variable {ι : Type} [DecidableEq ι]

inductive LockStep : Locker ι → LockEv ι → Locker ι → Prop
  | call (s : Locker ι) (i : ι) (timeout : Option Nat) : s.pc i = .idle →
      LockStep s (.called i timeout) { s with pc := update s.pc i (.start timeout) }
  | fast (s : Locker ι) (i : ι) (timeout : Option Nat) : s.pc i = .start timeout → s.lockState = 0 →
      LockStep s (.enters i) { s with lockState := 1, pc := update s.pc i (.polling timeout) }
  | slow (s : Locker ι) (i : ι) (timeout : Option Nat) : s.pc i = .start timeout → s.lockState ≠ 0 →
      LockStep s .quiet { s with pc := update s.pc i (.lock s.lockState timeout) }
  | lock (s : Locker ι) (i : ι) (curr : Nat) (timeout : Option Nat) : s.pc i = .lock curr timeout → s.mutex = none →
      LockStep s .quiet { s with mutex := some i, pc := update s.pc i (.top none curr timeout) }
  | acquire (s : Locker ι) (i : ι) (woken : Option Wake) (curr : Nat) (timeout : Option Nat) :
      s.pc i = .acquire woken curr timeout → s.lockState = curr →
      LockStep s .quiet { s with lockState := LockPc.acquireNext woken curr, pc := update s.pc i (.unlock timeout) }
  | acquireRetry (s : Locker ι) (i : ι) (woken : Option Wake) (curr : Nat) (timeout : Option Nat) :
      s.pc i = .acquire woken curr timeout → s.lockState ≠ curr →
      LockStep s .quiet { s with pc := update s.pc i (.top woken s.lockState timeout) }
  | giveBack (s : Locker ι) (i : ι) : s.pc i = .giveBack →
      LockStep s .quiet { s with lockState := s.lockState - 2, pc := update s.pc i .leave }
  | leave (s : Locker ι) (i : ι) : s.pc i = .leave →
      LockStep s .quiet { s with mutex := none, pc := update s.pc i .ret }
  | increment (s : Locker ι) (i : ι) (curr : Nat) (timeout : Option Nat) : s.pc i = .increment curr timeout →
      s.lockState = curr → LockStep s .quiet { s with lockState := curr + 2, pc := update s.pc i (.sleep timeout) }
  | incrementRetry (s : Locker ι) (i : ι) (curr : Nat) (timeout : Option Nat) : s.pc i = .increment curr timeout →
      s.lockState ≠ curr → LockStep s .quiet { s with pc := update s.pc i (.top none s.lockState timeout) }
  -- the condition variable
  | sleep (s : Locker ι) (i : ι) (timeout : Option Nat) : s.pc i = .sleep timeout →
      LockStep s .quiet { s with mutex := none, pc := update s.pc i (.waiting none timeout) }
  | timeOut (s : Locker ι) (i : ι) (t : Nat) : s.pc i = .waiting none (some t) →
      LockStep s .quiet { s with pc := update s.pc i (.waiting (some .timedOut) (some t)) }
  | spurious (s : Locker ι) (i : ι) (timeout : Option Nat) : s.pc i = .waiting none timeout →
      LockStep s .quiet { s with pc := update s.pc i (.waiting (some .spurious) timeout) }
  | wake (s : Locker ι) (i : ι) (w : Wake) (timeout : Option Nat) (elapsed : Nat) : s.pc i = .waiting (some w) timeout →
      s.mutex = none →
      LockStep s .quiet { s with mutex := some i, pc := update s.pc i (.load w (LockPc.remaining timeout elapsed)) }
  | load (s : Locker ι) (i : ι) (w : Wake) (timeout : Option Nat) : s.pc i = .load w timeout →
      LockStep s .quiet { s with pc := update s.pc i (.top (some w) s.lockState timeout) }
  -- with the lock bit
  | unlock (s : Locker ι) (i : ι) (timeout : Option Nat) : s.pc i = .unlock timeout →
      LockStep s (.enters i) { s with mutex := none, pc := update s.pc i (.polling timeout) }
  | polled (s : Locker ι) (i : ι) (timeout : Option Nat) : s.pc i = .polling timeout →
      LockStep s (.leaves i) { s with pc := update s.pc i .release }
  | release (s : Locker ι) (i : ι) : s.pc i = .release → LockStep s .quiet { s with
      lockState := clearLockBit s.lockState
      pc := update s.pc i (if s.lockState = 1 then .ret else .notifyLock) }
  | notifyLock (s : Locker ι) (i : ι) : s.pc i = .notifyLock → s.mutex = none →
      LockStep s .quiet { s with mutex := some i, pc := update s.pc i .notify }
  | notify (s : Locker ι) (i j : ι) (woken : Option Wake) (timeout : Option Nat) : s.pc i = .notify →
      s.pc j = .waiting woken timeout → woken ≠ some .notified → LockStep s .quiet { s with
        pc := update (update s.pc j (.waiting (some .notified) timeout)) i .notifyUnlock }
  | notifyNone (s : Locker ι) (i : ι) : s.pc i = .notify → (∀ j timeout, s.pc j ≠ .waiting none timeout) →
      LockStep s .quiet { s with pc := update s.pc i .notifyUnlock }
  | notifyUnlock (s : Locker ι) (i : ι) : s.pc i = .notifyUnlock →
      LockStep s .quiet { s with mutex := none, pc := update s.pc i .ret }
  | returned (s : Locker ι) (i : ι) : s.pc i = .ret → LockStep s (.returned i) { s with pc := update s.pc i .idle }

/-- A new `Poll`, and threads that have not called it. -/
def locker (ι : Type) [DecidableEq ι] : Lts (Locker ι) (LockEv ι) := ⟨fun s => s = ⟨0, none, fun _ => .idle⟩, LockStep⟩

/-! ## The word and its bit -/

theorem clearLockBit_eq (w : Nat) : clearLockBit w = w - w % 2 := by
  unfold clearLockBit
  rw [Nat.and_one_is_mod]

theorem or_one {w : Nat} (h : w % 2 = 0) : w ||| 1 = w + 1 := by
  have hw : w = 2 * (w / 2) := by omega
  rw [hw]
  exact (Nat.two_pow_add_eq_or_of_lt (i := 1) (b := 1) (by omega) (w / 2)).symm

theorem acquireNext_eq {woken : Option Wake} {curr : Nat} (h : curr % 2 = 0) :
    LockPc.acquireNext woken curr = if woken.isSome then curr + 1 - 2 else curr + 1 := by
  unfold LockPc.acquireNext
  rw [or_one h]

/-- What a thread in the loop knows of its `curr`. -/
def LockPc.Ok (p : LockPc) : Prop :=
  match p with
  | .acquire woken curr _ => curr % 2 = 0 ∧ (woken.isSome → 2 ≤ curr)
  | .increment curr _ => curr % 2 = 1
  | _ => True

theorem top_ok {woken : Option Wake} {curr : Nat} {timeout : Option Nat} (h : woken.isSome → 2 ≤ curr) :
    (LockPc.top woken curr timeout).Ok := by
  unfold LockPc.top
  rw [Nat.and_one_is_mod]
  split
  · rename_i he
    exact ⟨he, h⟩
  · rename_i ho
    split
    · split <;> trivial
    · split
      · trivial
      · exact Nat.mod_two_ne_zero.mp ho

theorem top_counted (woken : Option Wake) (curr : Nat) (timeout : Option Nat) :
    (LockPc.top woken curr timeout).counted = woken.isSome ∧ (LockPc.top woken curr timeout).locked = false := by
  unfold LockPc.top
  cases woken <;> split <;> (try split) <;> exact ⟨rfl, rfl⟩

/-- A thread that finds the lock bit clear goes for it, whatever its timeout. -/
theorem top_even {woken : Option Wake} {curr : Nat} (timeout : Option Nat) (h : curr % 2 = 0) :
    LockPc.top woken curr timeout = .acquire woken curr timeout := by
  unfold LockPc.top
  rw [Nat.and_one_is_mod, if_pos h]

/-! ## Who is counted -/

/-- `W` are the threads counted in the word, `L` those with the lock bit. -/
structure Counts (s : Locker ι) (W L : Finset ι) : Prop where
  waiters : Census LockPc.counted s.pc W
  owners : Census LockPc.locked s.pc L
  word : s.lockState = 2 * W.card + L.card
  one : L.card ≤ 1
  ok : ∀ i, (s.pc i).Ok

namespace Counts

variable {s : Locker ι} {W L : Finset ι}

omit [DecidableEq ι] in
theorem counted_le (h : Counts s W L) {i : ι} (hi : (s.pc i).counted = true) : 2 ≤ s.lockState := by
  have := h.waiters.card_pos hi
  have := h.word
  omega

omit [DecidableEq ι] in
theorem locked_word (h : Counts s W L) {i : ι} (hi : (s.pc i).locked = true) : L.card = 1 := by
  have := h.owners.card_pos hi
  have := h.one
  omega

theorem update_ok (h : Counts s W L) {i : ι} {x : LockPc} (hx : x.Ok) : ∀ j, (update s.pc i x j).Ok :=
  (Function.forall_update_iff s.pc fun _ => LockPc.Ok).mpr ⟨hx, fun j _ => h.ok j⟩

theorem move (h : Counts s W L) {i : ι} {x : LockPc} {m : Option ι} (hc : x.counted = (s.pc i).counted)
    (hl : x.locked = (s.pc i).locked) (hx : x.Ok) : Counts { s with mutex := m, pc := update s.pc i x } W L :=
  ⟨h.waiters.stay hc, h.owners.stay hl, h.word, h.one, h.update_ok hx⟩

/-- The top of the loop, with the word just read in hand. -/
theorem toTop (h : Counts s W L) {i : ι} {woken : Option Wake} {timeout : Option Nat} {m : Option ι}
    (hc : (s.pc i).counted = woken.isSome) (hl : (s.pc i).locked = false) :
    Counts { s with mutex := m, pc := update s.pc i (.top woken s.lockState timeout) } W L := by
  obtain ⟨h1, h2⟩ := top_counted woken s.lockState timeout
  exact h.move (h1.trans hc.symm) (h2.trans hl.symm) (top_ok fun hw => h.counted_le (hc.trans hw))

/-- The lock bit is clear, so nobody has it. -/
theorem acquire (h : Counts s W L) {i : ι} {woken : Option Wake} {timeout : Option Nat}
    (hi : s.pc i = .acquire woken s.lockState timeout) : ∃ W' L', Counts { s with
      lockState := LockPc.acquireNext woken s.lockState
      pc := update s.pc i (.unlock timeout) } W' L' := by
  have hok := h.ok i
  rw [hi] at hok
  obtain ⟨heven, hle⟩ := hok
  have hword := h.word
  have hone := h.one
  obtain ⟨L', hL, hcard⟩ := h.owners.enter (x := .unlock timeout) (by rw [hi]; rfl) rfl
  cases woken with
  | none =>
    refine ⟨W, L', h.waiters.stay (by rw [hi]; rfl), hL, ?_, by omega, h.update_ok trivial⟩
    show LockPc.acquireNext none s.lockState = _
    rw [acquireNext_eq heven]
    simp only [Option.isSome_none, Bool.false_eq_true, if_false]
    omega
  | some w =>
    obtain ⟨W', hW, hwcard⟩ := h.waiters.leave (i := i) (x := .unlock timeout) (by rw [hi]; rfl) rfl
    refine ⟨W', L', hW, hL, ?_, by omega, h.update_ok trivial⟩
    show LockPc.acquireNext (some w) s.lockState = _
    rw [acquireNext_eq heven]
    simp only [Option.isSome_some, if_true]
    omega

theorem fast (h : Counts s W L) {i : ι} {timeout : Option Nat} (hi : s.pc i = .start timeout) (h0 : s.lockState = 0) :
    ∃ W' L', Counts { s with lockState := 1, pc := update s.pc i (.polling timeout) } W' L' := by
  have hword := h.word
  obtain ⟨L', hL, hcard⟩ := h.owners.enter (x := .polling timeout) (by rw [hi]; rfl) rfl
  refine ⟨W, L', h.waiters.stay (by rw [hi]; rfl), hL, ?_, by omega, h.update_ok trivial⟩
  show 1 = 2 * W.card + L'.card
  omega

theorem giveBack (h : Counts s W L) {i : ι} (hi : s.pc i = .giveBack) :
    ∃ W' L', Counts { s with lockState := s.lockState - 2, pc := update s.pc i .leave } W' L' := by
  have hword := h.word
  obtain ⟨W', hW, hcard⟩ := h.waiters.leave (x := .leave) (by rw [hi]; rfl) rfl
  refine ⟨W', L, hW, h.owners.stay (by rw [hi]; rfl), ?_, h.one, h.update_ok trivial⟩
  show s.lockState - 2 = 2 * W'.card + L.card
  omega

theorem increment (h : Counts s W L) {i : ι} {timeout : Option Nat} (hi : s.pc i = .increment s.lockState timeout) :
    ∃ W' L', Counts { s with lockState := s.lockState + 2, pc := update s.pc i (.sleep timeout) } W' L' := by
  have hword := h.word
  obtain ⟨W', hW, hcard⟩ := h.waiters.enter (x := .sleep timeout) (by rw [hi]; rfl) rfl
  refine ⟨W', L, hW, h.owners.stay (by rw [hi]; rfl), ?_, h.one, h.update_ok trivial⟩
  show s.lockState + 2 = 2 * W'.card + L.card
  omega

theorem release (h : Counts s W L) {i : ι} {x : LockPc} (hi : s.pc i = .release) (hc : x.counted = false)
    (hl : x.locked = false) (hx : x.Ok) :
    ∃ W' L', Counts { s with lockState := clearLockBit s.lockState, pc := update s.pc i x } W' L' := by
  have hword := h.word
  have hL1 := h.locked_word (i := i) (by rw [hi]; rfl)
  obtain ⟨L', hL, hcard⟩ := h.owners.leave (x := x) (by rw [hi]; rfl) hl
  refine ⟨W, L', h.waiters.stay (by rw [hi]; exact hc), hL, ?_, by omega, h.update_ok hx⟩
  show clearLockBit s.lockState = 2 * W.card + L'.card
  rw [clearLockBit_eq]
  omega

end Counts

theorem counts_step {s s' : Locker ι} {e : LockEv ι} {W L : Finset ι} (h : Counts s W L) (hs : LockStep s e s') :
    ∃ W' L', Counts s' W' L' := by
  cases hs with
  | call i timeout hi => exact ⟨W, L, h.move (by rw [hi]; rfl) (by rw [hi]; rfl) trivial⟩
  | fast i timeout hi h0 => exact h.fast hi h0
  | slow i timeout hi _ => exact ⟨W, L, h.move (by rw [hi]; rfl) (by rw [hi]; rfl) trivial⟩
  | lock i curr timeout hi _ =>
    obtain ⟨h1, h2⟩ := top_counted none curr timeout
    exact ⟨W, L, h.move (by rw [hi]; exact h1) (by rw [hi]; exact h2) (top_ok fun hn => by cases hn)⟩
  | acquire i woken curr timeout hi hcurr =>
    subst hcurr
    exact h.acquire hi
  | acquireRetry i woken curr timeout hi _ => exact ⟨W, L, h.toTop (by rw [hi]; rfl) (by rw [hi]; rfl)⟩
  | giveBack i hi => exact h.giveBack hi
  | leave i hi => exact ⟨W, L, h.move (by rw [hi]; rfl) (by rw [hi]; rfl) trivial⟩
  | increment i curr timeout hi hcurr =>
    subst hcurr
    exact h.increment hi
  | incrementRetry i curr timeout hi _ => exact ⟨W, L, h.toTop (by rw [hi]; rfl) (by rw [hi]; rfl)⟩
  | sleep i timeout hi => exact ⟨W, L, h.move (by rw [hi]; rfl) (by rw [hi]; rfl) trivial⟩
  | timeOut i t hi => exact ⟨W, L, h.move (by rw [hi]; rfl) (by rw [hi]; rfl) trivial⟩
  | spurious i timeout hi => exact ⟨W, L, h.move (by rw [hi]; rfl) (by rw [hi]; rfl) trivial⟩
  | wake i w timeout elapsed hi _ => exact ⟨W, L, h.move (by rw [hi]; rfl) (by rw [hi]; rfl) trivial⟩
  | load i w timeout hi => exact ⟨W, L, h.toTop (by rw [hi]; rfl) (by rw [hi]; rfl)⟩
  | unlock i timeout hi => exact ⟨W, L, h.move (by rw [hi]; rfl) (by rw [hi]; rfl) trivial⟩
  | polled i timeout hi => exact ⟨W, L, h.move (by rw [hi]; rfl) (by rw [hi]; rfl) trivial⟩
  | release i hi =>
    split
    · exact h.release hi rfl rfl trivial
    · exact h.release hi rfl rfl trivial
  | notifyLock i hi _ => exact ⟨W, L, h.move (by rw [hi]; rfl) (by rw [hi]; rfl) trivial⟩
  | notify i j woken timeout hi hj _ =>
    have hij : i ≠ j := by
      intro e
      subst e
      rw [hi] at hj
      cases hj
    have h1 : Counts { s with pc := update s.pc j (.waiting (some .notified) timeout) } W L :=
      h.move (by rw [hj]; rfl) (by rw [hj]; rfl) trivial
    have hi1 : ({ s with pc := update s.pc j (.waiting (some .notified) timeout) } : Locker ι).pc i = .notify := by
      show update s.pc j _ i = _
      rw [Function.update_of_ne hij]
      exact hi
    exact ⟨W, L, h1.move (by rw [hi1]; rfl) (by rw [hi1]; rfl) trivial⟩
  | notifyNone i hi _ => exact ⟨W, L, h.move (by rw [hi]; rfl) (by rw [hi]; rfl) trivial⟩
  | notifyUnlock i hi => exact ⟨W, L, h.move (by rw [hi]; rfl) (by rw [hi]; rfl) trivial⟩
  | returned i hi => exact ⟨W, L, h.move (by rw [hi]; rfl) (by rw [hi]; rfl) trivial⟩

theorem counts_inv {τ : List (LockEv ι)} {s : Locker ι} (h : Run (locker ι) τ s) : ∃ W L, Counts s W L := by
  refine Run.inv (P := fun s => ∃ W L, Counts s W L) ?_ ?_ h
  · intro s hi
    cases hi
    exact ⟨∅, ∅, .none fun _ => rfl, .none fun _ => rfl, rfl, Nat.zero_le _, fun _ => trivial⟩
  · intro s e s' hi hs
    obtain ⟨W, L, hc⟩ := hi
    exact counts_step hc hs

/-- At most one thread is inside `poll2`; `lock_state` is twice the number of threads that
    have set `inc` and not given it back, plus 1 exactly when some thread, and then one
    only, is between acquiring and releasing the lock bit; and neither subtraction of 2
    underflows. -/
theorem one_poller {τ : List (LockEv ι)} {s : Locker ι} (h : Run (locker ι) τ s) :
    (∀ i j timeout timeout', s.pc i = .polling timeout → s.pc j = .polling timeout' → i = j) ∧
      (∃ W : Finset ι, (∀ i, i ∈ W ↔ (s.pc i).counted = true) ∧
        ((s.lockState = 2 * W.card + 1 ∧ ∃ i, ∀ j, (s.pc j).locked = true ↔ j = i) ∨
          (s.lockState = 2 * W.card ∧ ∀ i, (s.pc i).locked = false))) ∧
      (∀ i w curr timeout, s.pc i = .acquire (some w) curr timeout → 2 ≤ curr ||| 1) ∧
      ∀ i, s.pc i = .giveBack → 2 ≤ s.lockState := by
  obtain ⟨W, L, hc⟩ := counts_inv h
  refine ⟨?_, ⟨W, hc.waiters, ?_⟩, ?_, ?_⟩
  · intro i j timeout timeout' hi hj
    exact hc.owners.unique hc.one (by rw [hi]; rfl) (by rw [hj]; rfl)
  · have hword := hc.word
    have hone := hc.one
    rcases Nat.eq_zero_or_pos L.card with h0 | hpos
    · right
      refine ⟨by omega, fun i => ?_⟩
      rw [Finset.card_eq_zero] at h0
      rw [Bool.eq_false_iff]
      intro hl
      have hm := (hc.owners i).mpr hl
      rw [h0] at hm
      cases hm
    · left
      obtain ⟨i, hi⟩ := Finset.card_eq_one.mp (show L.card = 1 by omega)
      refine ⟨by omega, i, fun j => ?_⟩
      rw [← hc.owners j, hi, Finset.mem_singleton]
  · intro i w curr timeout hi
    have hok := hc.ok i
    rw [hi] at hok
    rw [or_one hok.1]
    exact Nat.le_succ_of_le (hok.2 rfl)
  · intro i hi
    exact hc.counted_le (by rw [hi]; rfl)

/-- Thread 0 polls, thread 1 waits for it. -/
theorem run_twoPollers : ∃ τ s, Run (locker Nat) τ s ∧ s.lockState = 3 ∧ s.mutex = none ∧ s.pc 0 = .polling none ∧
    s.pc 1 = .waiting none none := by
  have h0 : Run (locker Nat) [] ⟨0, none, fun _ => .idle⟩ := .init rfl
  have h1 := h0.step (.call _ 0 none rfl)
  have h2 := h1.step (.fast _ 0 none rfl rfl)
  have h3 := h2.step (.call _ 1 none rfl)
  have h4 := h3.step (.slow _ 1 none rfl (by decide))
  have h5 := h4.step (.lock _ 1 1 none rfl rfl)
  have h6 := h5.step (.increment _ 1 1 none rfl rfl)
  have h7 := h6.step (.sleep _ 1 none rfl)
  exact ⟨_, _, h7, rfl, rfl, rfl, rfl⟩

theorem one_poller_two_threads : ∃ s : Locker Nat, s.lockState = 3 ∧
    ∃ W : Finset Nat, (∀ i, i ∈ W ↔ (s.pc i).counted = true) ∧
      ((s.lockState = 2 * W.card + 1 ∧ ∃ i, ∀ j, (s.pc j).locked = true ↔ j = i) ∨
        (s.lockState = 2 * W.card ∧ ∀ i, (s.pc i).locked = false)) := by
  obtain ⟨τ, s, h, hword, -⟩ := run_twoPollers
  exact ⟨s, hword, (one_poller h).2.1⟩

/-- With `n` threads the word stays below `2 * n + 2`. -/
theorem lock_state_le [Fintype ι] {τ : List (LockEv ι)} {s : Locker ι} (h : Run (locker ι) τ s) :
    s.lockState ≤ 2 * Fintype.card ι + 1 := by
  obtain ⟨W, L, hc⟩ := counts_inv h
  have hword := hc.word
  have hone := hc.one
  have hle := Finset.card_le_univ W
  omega

/-! ## The mutex -/

def Mutexed (s : Locker ι) : Prop := ∀ i, (s.pc i).hasMutex = true → s.mutex = some i

namespace Mutexed

variable {s : Locker ι}

theorem move (h : Mutexed s) {i : ι} {x : LockPc} {w : Nat} (hx : x.hasMutex = true → (s.pc i).hasMutex = true) :
    Mutexed { s with lockState := w, pc := update s.pc i x } := by
  refine (Function.forall_update_iff s.pc fun j x => x.hasMutex = true → s.mutex = some j).mpr ⟨fun hi => ?_, fun j _ => h j⟩
  exact h i (hx hi)

theorem take (h : Mutexed s) (hm : s.mutex = none) (i : ι) (x : LockPc) :
    Mutexed { s with mutex := some i, pc := update s.pc i x } := by
  refine (Function.forall_update_iff s.pc fun j x => x.hasMutex = true → some i = some j).mpr ⟨fun _ => rfl, fun j _ hj => ?_⟩
  have := h j hj
  rw [hm] at this
  cases this

theorem drop (h : Mutexed s) {i : ι} {x : LockPc} (hi : (s.pc i).hasMutex = true) (hx : x.hasMutex = false) :
    Mutexed { s with mutex := none, pc := update s.pc i x } := by
  refine (Function.forall_update_iff s.pc fun j x => x.hasMutex = true → none = some j).mpr ⟨fun hj => ?_, fun j hne hj => ?_⟩
  · rw [hx] at hj
    cases hj
  · exact absurd (Option.some.inj ((h j hj).symm.trans (h i hi))) hne

end Mutexed

theorem mutexed_step {s s' : Locker ι} {e : LockEv ι} (h : Mutexed s) (hs : LockStep s e s') : Mutexed s' := by
  cases hs with
  | call i timeout hi => exact h.move (fun hx => by cases hx)
  | fast i timeout hi _ => exact h.move (fun hx => by cases hx)
  | slow i timeout hi _ => exact h.move (fun hx => by cases hx)
  | lock i curr timeout hi hm => exact h.take hm i _
  | acquire i woken curr timeout hi _ => exact h.move (fun _ => by rw [hi]; rfl)
  | acquireRetry i woken curr timeout hi _ => exact h.move (fun _ => by rw [hi]; rfl)
  | giveBack i hi => exact h.move (fun _ => by rw [hi]; rfl)
  | leave i hi => exact h.drop (by rw [hi]; rfl) rfl
  | increment i curr timeout hi _ => exact h.move (fun _ => by rw [hi]; rfl)
  | incrementRetry i curr timeout hi _ => exact h.move (fun _ => by rw [hi]; rfl)
  | sleep i timeout hi => exact h.drop (by rw [hi]; rfl) rfl
  | timeOut i t hi => exact h.move (fun hx => by cases hx)
  | spurious i timeout hi => exact h.move (fun hx => by cases hx)
  | wake i w timeout elapsed hi hm => exact h.take hm i _
  | load i w timeout hi => exact h.move (fun _ => by rw [hi]; rfl)
  | unlock i timeout hi => exact h.drop (by rw [hi]; rfl) rfl
  | polled i timeout hi => exact h.move (fun hx => by cases hx)
  | release i hi =>
    refine h.move fun hx => ?_
    split at hx <;> cases hx
  | notifyLock i hi hm => exact h.take hm i _
  | notify i j woken timeout hi hj _ =>
    have h1 : Mutexed { s with pc := update s.pc j (.waiting (some .notified) timeout) } := h.move (fun hx => by cases hx)
    refine h1.move fun _ => ?_
    show (update s.pc j _ i).hasMutex = true
    by_cases e : i = j
    · subst e
      rw [hi] at hj
      cases hj
    · rw [Function.update_of_ne e, hi]
      rfl
  | notifyNone i hi _ => exact h.move (fun _ => by rw [hi]; rfl)
  | notifyUnlock i hi => exact h.drop (by rw [hi]; rfl) rfl
  | returned i hi => exact h.move (fun hx => by cases hx)

/-! ## Nobody is stranded -/

theorem unnotified_cases {p : LockPc} (h : p.unnotified = true) :
    (∃ timeout, p = .sleep timeout) ∨ ∃ timeout, p = .waiting none timeout := by
  cases p with
  | sleep timeout => exact .inl ⟨timeout, rfl⟩
  | waiting woken timeout =>
    cases woken with
    | none => exact .inr ⟨timeout, rfl⟩
    | some w => cases h
  | _ => cases h

theorem unnotified_counted {p : LockPc} (h : p.unnotified = true) : p.counted = true := by
  rcases unnotified_cases h with ⟨timeout, rfl⟩ | ⟨timeout, rfl⟩ <;> rfl

/-- A thread does not wait before it is counted. -/
theorem top_none_unnotified (curr : Nat) (timeout : Option Nat) : (LockPc.top none curr timeout).unnotified = false := by
  unfold LockPc.top
  split <;> (try split) <;> rfl

/-- While the lock bit is clear and some thread waits, or is about to, unnotified. -/
def Watched (s : Locker ι) : Prop :=
  s.lockState % 2 = 0 → (∃ i, (s.pc i).unnotified = true) →
    (∃ i, (s.pc i).notifying = true) ∨ ∃ i, (s.pc i).reexamining = true

namespace Watched

variable {s : Locker ι}

omit [DecidableEq ι] in
/-- With the lock bit set there is nothing to watch. -/
theorem of_odd (h : s.lockState % 2 = 1) : Watched s := by
  intro h0
  omega

theorem some_update {g : LockPc → Bool} {i : ι} {x : LockPc} (hx : g (s.pc i) = true → g x = true)
    (h : ∃ j, g (s.pc j) = true) : ∃ j, g (update s.pc i x j) = true := by
  obtain ⟨j, hj⟩ := h
  by_cases e : j = i
  · subst e
    exact ⟨j, by rw [Function.update_self]; exact hx hj⟩
  · exact ⟨j, by rw [Function.update_of_ne e]; exact hj⟩

theorem update_some {g : LockPc → Bool} {i : ι} {x : LockPc} (hx : g x = true → g (s.pc i) = true)
    (h : ∃ j, g (update s.pc i x j) = true) : ∃ j, g (s.pc j) = true := by
  obtain ⟨j, hj⟩ := h
  by_cases e : j = i
  · subst e
    rw [Function.update_self] at hj
    exact ⟨j, hx hj⟩
  · rw [Function.update_of_ne e] at hj
    exact ⟨j, hj⟩

/-- A step that keeps the lock bit, whose thread was not watching or still is. -/
theorem move (h : Watched s) {i : ι} {x : LockPc} {w : Nat} {m : Option ι} (hw : w % 2 = s.lockState % 2)
    (hu : x.unnotified = true → (s.pc i).unnotified = true) (hn : (s.pc i).notifying = true → x.notifying = true)
    (hr : (s.pc i).reexamining = true → x.reexamining = true) : Watched ⟨w, m, update s.pc i x⟩ := by
  intro h0 hun
  rcases h (hw ▸ h0) (update_some hu hun) with hn' | hr'
  · exact .inl (some_update hn hn')
  · exact .inr (some_update hr hr')

/-- A step of a thread that was not watching, and does not wait. -/
theorem quiet (h : Watched s) {i : ι} {p x : LockPc} {w : Nat} {m : Option ι} (hi : s.pc i = p)
    (hp : p.notifying = false ∧ p.reexamining = false) (hx : x.unnotified = false) (hw : w % 2 = s.lockState % 2) :
    Watched ⟨w, m, update s.pc i x⟩ := by
  refine h.move hw (fun hu => ?_) (fun hn => ?_) (fun hr => ?_)
  · rw [hx] at hu
    cases hu
  · rw [hi, hp.1] at hn
    cases hn
  · rw [hi, hp.2] at hr
    cases hr

/-- The top of the loop with the word just read: a thread that does not go for the lock
    bit has seen it set. -/
theorem toTop (h : Watched s) {i : ι} {woken : Option Wake} {timeout : Option Nat} {m : Option ι}
    (hn : (s.pc i).notifying = false)
    (hr : (s.pc i).reexamining = true → (LockPc.acquire woken s.lockState timeout).reexamining = true) :
    Watched ⟨s.lockState, m, update s.pc i (.top woken s.lockState timeout)⟩ := by
  rcases Nat.mod_two_eq_zero_or_one s.lockState with heven | hodd
  · rw [top_even timeout heven]
    exact h.move rfl (fun hu => by cases hu) (fun hn' => by rw [hn] at hn'; cases hn') hr
  · exact of_odd hodd

end Watched

structure LockInv (s : Locker ι) : Prop where
  counts : ∃ W L, Counts s W L
  mutex : Mutexed s
  watched : Watched s

theorem watched_step {s s' : Locker ι} {e : LockEv ι} (h : LockInv s) (hs : LockStep s e s') : Watched s' := by
  obtain ⟨W, L, hc⟩ := h.counts
  have hword := hc.word
  have hw := h.watched
  cases hs with
  | call i timeout hi => exact hw.quiet hi ⟨rfl, rfl⟩ rfl rfl
  | fast i timeout hi _ => exact .of_odd rfl
  | slow i timeout hi _ => exact hw.quiet hi ⟨rfl, rfl⟩ rfl rfl
  | lock i curr timeout hi _ => exact hw.quiet hi ⟨rfl, rfl⟩ (top_none_unnotified curr timeout) rfl
  | acquire i woken curr timeout hi _ =>
    have hok := hc.ok i
    rw [hi] at hok
    refine .of_odd ?_
    show LockPc.acquireNext woken curr % 2 = 1
    rw [acquireNext_eq hok.1]
    split
    · have := hok.2 ‹_›
      have := hok.1
      omega
    · have := hok.1
      omega
  | acquireRetry i woken curr timeout hi _ =>
    refine hw.toTop (by rw [hi]; rfl) (fun hr => ?_)
    rw [hi] at hr
    cases woken <;> exact hr
  | giveBack i hi =>
    have hle := hc.counted_le (i := i) (by rw [hi]; rfl)
    exact hw.quiet hi ⟨rfl, rfl⟩ rfl (by omega)
  | leave i hi => exact hw.quiet hi ⟨rfl, rfl⟩ rfl rfl
  | increment i curr timeout hi _ =>
    have hok := hc.ok i
    rw [hi] at hok
    change curr % 2 = 1 at hok
    exact .of_odd (show (curr + 2) % 2 = 1 by omega)
  | incrementRetry i curr timeout hi _ =>
    exact hw.toTop (by rw [hi]; rfl) (fun hr => by rw [hi] at hr; cases hr)
  | sleep i timeout hi =>
    exact hw.move rfl (fun _ => by rw [hi]; rfl) (fun hn => by rw [hi] at hn; cases hn) (fun hr => by rw [hi] at hr; cases hr)
  | timeOut i t hi => exact hw.quiet hi ⟨rfl, rfl⟩ rfl rfl
  | spurious i timeout hi => exact hw.quiet hi ⟨rfl, rfl⟩ rfl rfl
  | wake i w timeout elapsed hi _ =>
    exact hw.move rfl (fun hu => by cases hu) (fun hn => by rw [hi] at hn; cases hn) (fun hr => by rw [hi] at hr; exact hr)
  | load i w timeout hi => exact hw.toTop (by rw [hi]; rfl) (fun hr => by rw [hi] at hr; exact hr)
  | unlock i timeout hi => exact hw.quiet hi ⟨rfl, rfl⟩ rfl rfl
  | polled i timeout hi => exact hw.quiet hi ⟨rfl, rfl⟩ rfl rfl
  | release i hi =>
    intro _ hun
    by_cases h1 : s.lockState = 1
    · -- nobody is counted, so nobody waits
      obtain ⟨j, hj⟩ := hun
      have hL := hc.locked_word (i := i) (by rw [hi]; rfl)
      have hne : j ≠ i := by
        intro e
        subst e
        change (update s.pc j _ j).unnotified = true at hj
        rw [Function.update_self, if_pos h1] at hj
        cases hj
      change (update s.pc i _ j).unnotified = true at hj
      rw [Function.update_of_ne hne] at hj
      have := hc.waiters.card_pos (unnotified_counted hj)
      omega
    · exact .inl ⟨i, by show (update s.pc i _ i).notifying = true; rw [Function.update_self, if_neg h1]; rfl⟩
  | notifyLock i hi _ =>
    exact hw.move rfl (fun hu => by cases hu) (fun _ => rfl) (fun hr => by rw [hi] at hr; cases hr)
  | notify i j woken timeout hi hj _ =>
    have hij : j ≠ i := by
      intro e
      subst e
      rw [hi] at hj
      cases hj
    intro _ _
    refine .inr ⟨j, ?_⟩
    show (update (update s.pc j _) i _ j).reexamining = true
    rw [Function.update_of_ne hij, Function.update_self]
    rfl
  | notifyNone i hi hnone =>
    intro _ hun
    obtain ⟨j, hj⟩ := hun
    change (update s.pc i _ j).unnotified = true at hj
    by_cases e : j = i
    · subst e
      rw [Function.update_self] at hj
      cases hj
    · -- nobody waits, and whoever is about to would have the mutex
      rw [Function.update_of_ne e] at hj
      rcases unnotified_cases hj with ⟨timeout, hs⟩ | ⟨timeout, hs⟩
      · have hm := h.mutex j (by rw [hs]; rfl)
        have hm' := h.mutex i (by rw [hi]; rfl)
        exact absurd (Option.some.inj (hm.symm.trans hm')) e
      · exact absurd hs (hnone j timeout)
  | notifyUnlock i hi => exact hw.quiet hi ⟨rfl, rfl⟩ rfl rfl
  | returned i hi => exact hw.quiet hi ⟨rfl, rfl⟩ rfl rfl

theorem lock_inv {τ : List (LockEv ι)} {s : Locker ι} (h : Run (locker ι) τ s) : LockInv s := by
  refine Run.inv (P := LockInv) ?_ ?_ h
  · intro s hi
    refine ⟨counts_inv (.init hi), fun i hm => ?_, fun _ hun => ?_⟩
    · cases hi
      cases hm
    · cases hi
      obtain ⟨i, hu⟩ := hun
      cases hu
  · intro s e s' hi hs
    obtain ⟨W, L, hc⟩ := hi.counts
    exact ⟨counts_step hc hs, mutexed_step hi.mutex hs, watched_step hi hs⟩

omit [DecidableEq ι] in
theorem reexamining_cases {p : LockPc} (h : p.reexamining = true) : ∃ w timeout, w ≠ .spurious ∧
    (p = .waiting (some w) timeout ∨ p = .load w timeout ∨ ∃ curr, p = .acquire (some w) curr timeout) := by
  cases p with
  | waiting woken timeout =>
    cases woken with
    | none => cases h
    | some w => exact ⟨w, timeout, of_decide_eq_true h, .inl rfl⟩
  | load w timeout => exact ⟨w, timeout, of_decide_eq_true h, .inr (.inl rfl)⟩
  | acquire woken curr timeout =>
    cases woken with
    | none => cases h
    | some w => exact ⟨w, timeout, of_decide_eq_true h, .inr (.inr ⟨curr, rfl⟩)⟩
  | _ => cases h

/-- While the lock bit is clear and some thread waits on the condition variable
    unnotified, some thread has cleared the lock bit and has still to call `notify_one`,
    or some waiter has been notified or has timed out and has still to look at
    `lock_state`: the mutex, the load or the exchange is ahead of it. -/
theorem no_stranded_poller {τ : List (LockEv ι)} {s : Locker ι} (h : Run (locker ι) τ s) (hbit : s.lockState &&& 1 = 0)
    {i : ι} {timeout : Option Nat} (hi : s.pc i = .waiting none timeout) :
    (∃ j, s.pc j = .notifyLock ∨ s.pc j = .notify) ∨
      ∃ j w t, w ≠ .spurious ∧
        (s.pc j = .waiting (some w) t ∨ s.pc j = .load w t ∨ ∃ curr, s.pc j = .acquire (some w) curr t) := by
  rw [Nat.and_one_is_mod] at hbit
  rcases (lock_inv h).watched hbit ⟨i, by rw [hi]; rfl⟩ with ⟨j, hj⟩ | ⟨j, hj⟩
  · left
    refine ⟨j, ?_⟩
    cases hp : s.pc j with
    | notifyLock => exact .inl rfl
    | notify => exact .inr rfl
    | _ => rw [hp] at hj; cases hj
  · exact .inr ⟨j, reexamining_cases hj⟩

/-- Thread 0 has released the lock bit with thread 1 waiting. -/
theorem no_stranded_poller_two_threads : ∃ (τ : List (LockEv Nat)) (s : Locker Nat), Run (locker Nat) τ s ∧
    s.lockState = 2 ∧ s.pc 1 = .waiting none none ∧
    ((∃ j, s.pc j = .notifyLock ∨ s.pc j = .notify) ∨
      ∃ j w t, w ≠ .spurious ∧
        (s.pc j = .waiting (some w) t ∨ s.pc j = .load w t ∨ ∃ curr, s.pc j = .acquire (some w) curr t)) := by
  obtain ⟨τ, ⟨w, m, pc⟩, h, rfl, rfl, h0, h1⟩ := run_twoPollers
  have h8 := h.step (.polled _ 0 none h0)
  have h9 := h8.step (.release _ 0 rfl)
  have hpc : update (update pc 0 .release) 0 .notifyLock 1 = .waiting none none := h1
  have hword : clearLockBit 3 = 2 := by decide
  have hbit : clearLockBit 3 &&& 1 = 0 := by decide
  exact ⟨_, _, h9, hword, hpc, @no_stranded_poller Nat _ _ _ h9 hbit 1 none hpc⟩

end Sickle.Poll
