/-
  Sickle.Poll.Pollers — any number of threads that poll are one poller.

  The queue has one consumer: `dequeue_node`, `prepare_for_sleep` and `clear_sleep_marker`
  are written for a thread that nobody else of their kind disturbs. `Poll::poll` may be
  called from any thread. Here the threads of `Sickle.Poll.Lock` run, while they are inside
  `poll2`, the steps of `Sickle.Poll.Sleep`, each with variables of its own; the memory,
  the pipe and the producers are shared.

  - `at_rest`: between two of its calls the poller of `Sickle.Poll.Sleep` is at rest.
  - `OneAtATime`: the shared memory, with the variables of the thread that is inside, is
    a state of that poller; `one_step`: each step is one of that poller's, or none.
  - `pollers_share_one_queue`: what the threads take, all together, is what was enqueued,
    in that order; and a thread that sleeps inside `select` is not forgotten.
-/

import Sickle.Poll.Closed
import Sickle.Poll.Lock
import Sickle.Poll.Sleep

namespace Sickle.Poll

open Function (update)
open Sickle.Lib

variable {κ ι ν : Type}

def LockPc.inside (p : LockPc) : Bool :=
  match p with
  | .polling _ => true
  | _ => false

/-- The variables of a thread inside `poll2`. `begun`: the call is past its first step. -/
structure Local (ν : Type) where
  cons : Cons ν
  own : Option (Enq ν)
  pc : PollPc ν
  begun : Bool

def Local.new : Local ν := ⟨.idle, none, .start, false⟩

section Views

variable [DecidableEq ι]

/-- The queue with these variables of its consumer. -/
def Queue.consumed (q : Queue ι ν) (cons : Cons ν) (own : Option (Enq ν)) : Queue ι ν :=
  { q with cons := cons, flight := update q.flight none own }

/-- The memory as a thread with these variables finds it. -/
def Poller.within (t : Poller ι ν) (l : Local ν) : Poller ι ν := { t with queue := t.queue.consumed l.cons l.own, pc := l.pc }

/-- The memory with nobody inside. -/
def Poller.outside (t : Poller ι ν) : Poller ι ν := t.within .new

def Poller.locals (t : Poller ι ν) : Local ν := ⟨t.queue.cons, t.queue.flight none, t.pc, true⟩

theorem consumed_consumed (q : Queue ι ν) (c c' : Cons ν) (o o' : Option (Enq ν)) :
    (q.consumed c o).consumed c' o' = q.consumed c' o' := by
  unfold Queue.consumed
  simp only [Function.update_idem]

theorem consumed_self (q : Queue ι ν) : q.consumed q.cons (q.flight none) = q := by
  unfold Queue.consumed
  rw [Function.update_eq_self]

theorem within_within (t : Poller ι ν) (l l' : Local ν) : (t.within l).within l' = t.within l' := by
  unfold Poller.within
  simp only [consumed_consumed]

theorem outside_locals (t : Poller ι ν) : t.outside.within t.locals = t := by
  unfold Poller.outside
  rw [within_within]
  unfold Poller.within Poller.locals
  simp only [consumed_self]

end Views

/-- Nobody is inside. -/
structure Poller.Rests (t : Poller ι ν) : Prop where
  cons : t.queue.cons = .idle
  own : t.queue.flight none = none
  pc : t.pc = .start

theorem Poller.Rests.outside [DecidableEq ι] {t : Poller ι ν} (h : t.Rests) : t.outside = t := by
  have hq := consumed_self t.queue
  rw [h.cons, h.own] at hq
  unfold Poller.outside within Local.new
  simp only [hq, ← h.pc]

/-- `locals` are those of each thread; `shared` is the memory, with nobody inside. -/
structure Pollers (κ ι ν : Type) where
  locker : Locker κ
  shared : Poller ι ν
  locals : κ → Local ν

inductive PollersEv (κ ι ν : Type) where
  | lock (e : LockEv κ)
  | thread (e : PollEv ι ν)
  | poller (i : κ) (e : PollEv ι ν)

/-- A step of a producer. -/
def Produces (e : PollEv ι ν) : Prop :=
  match e with
  | .queue (.returned _ _) => True
  | .queue e => Inner e
  | _ => False

variable [DecidableEq κ] [DecidableEq ι] [DecidableEq ν]

namespace Pollers

/-- What thread `i` finds. -/
def view (s : Pollers κ ι ν) (i : κ) : Poller ι ν := s.shared.within (s.locals i)

def put (s : Pollers κ ι ν) (i : κ) (t : Poller ι ν) : Pollers κ ι ν :=
  { s with shared := t.outside, locals := update s.locals i t.locals }

end Pollers

/-- `begins` is the first step of `poll2`, which goes by the timeout that is left; `goes`
    are the others. -/
inductive PollersStep (more : Nat) : Pollers κ ι ν → PollersEv κ ι ν → Pollers κ ι ν → Prop
  | lock (s : Pollers κ ι ν) (e : LockEv κ) (l : Locker κ) : LockStep s.locker e l → (∀ i, e ≠ .enters i ∧ e ≠ .leaves i) →
      PollersStep more s (.lock e) { s with locker := l }
  | enters (s : Pollers κ ι ν) (i : κ) (l : Locker κ) : LockStep s.locker (.enters i) l →
      PollersStep more s (.lock (.enters i)) { s with locker := l, locals := update s.locals i .new }
  | leaves (s : Pollers κ ι ν) (i : κ) (l : Locker κ) : LockStep s.locker (.leaves i) l → (s.locals i).pc = .start →
      (s.locals i).begun = true → PollersStep more s (.lock (.leaves i)) { s with locker := l }
  | thread (s : Pollers κ ι ν) (e : PollEv ι ν) (t : Poller ι ν) : PollStep more s.shared e t → Produces e →
      PollersStep more s (.thread e) { s with shared := t }
  | begins (s : Pollers κ ι ν) (i : κ) (timeout : Option Nat) (e : PollEv ι ν) (t : Poller ι ν) :
      s.locker.pc i = .polling timeout → (s.locals i).begun = false → PollStep more (s.view i) e t →
      t.pc = (if timeout = some 0 then .select false else .preparing) → PollersStep more s (.poller i e) (s.put i t)
  | goes (s : Pollers κ ι ν) (i : κ) (e : PollEv ι ν) (t : Poller ι ν) : (s.locker.pc i).inside = true →
      (s.locals i).pc ≠ .start → PollStep more (s.view i) e t → PollersStep more s (.poller i e) (s.put i t)

/-- A new `Poll` whose pipe holds `more + 1` bytes. -/
def pollers (κ ι ν : Type) [DecidableEq κ] [DecidableEq ι] [DecidableEq ν] (more : Nat) : Lts (Pollers κ ι ν) (PollersEv κ ι ν) :=
  ⟨fun s => s = ⟨⟨0, none, fun _ => .idle⟩, ⟨Queue.new ι ν, .start, 0, none⟩, fun _ => .new⟩, PollersStep more⟩

/-- The steps of the memory. -/
def memoryEvents (τ : List (PollersEv κ ι ν)) : List (PollEv ι ν) :=
  τ.filterMap fun e => match e with
    | .lock _ => none
    | .thread e => some e
    | .poller _ e => some e

/-! ## Who is inside -/

section Inside

omit [DecidableEq ι] [DecidableEq ν]

theorem inside_update {pc : κ → LockPc} {i : κ} {p x : LockPc} (hi : pc i = p) (hp : p.inside = false) (hx : x.inside = false)
    (j : κ) : (update pc i x j).inside = (pc j).inside := by
  by_cases e : j = i
  · subst e
    rw [Function.update_self, hx, hi, hp]
  · rw [Function.update_of_ne e]

theorem top_inside (woken : Option Wake) (curr : Nat) (timeout : Option Nat) : (LockPc.top woken curr timeout).inside = false := by
  unfold LockPc.top
  cases woken <;> split <;> (try split) <;> rfl

/-- Only by entering and by leaving does it change whether `j` is inside. -/
def insideAfter (e : LockEv κ) (j : κ) (b : Bool) : Bool :=
  match e with
  | .enters i => if j = i then true else b
  | .leaves i => if j = i then false else b
  | _ => b

theorem inside_step {s s' : Locker κ} {e : LockEv κ} (h : LockStep s e s') (j : κ) :
    (s'.pc j).inside = insideAfter e j (s.pc j).inside := by
  have moves : ∀ (i : κ) (x : LockPc), (update s.pc i x j).inside = if j = i then x.inside else (s.pc j).inside := by
    intro i x
    by_cases e : j = i
    · subst e
      rw [Function.update_self, if_pos rfl]
    · rw [Function.update_of_ne e, if_neg e]
  cases h with
  | call i timeout hi => exact inside_update hi rfl rfl j
  | fast i timeout hi => exact moves i _
  | slow i timeout hi => exact inside_update hi rfl rfl j
  | lock i curr timeout hi => exact inside_update hi rfl (top_inside ..) j
  | acquire i woken curr timeout hi => exact inside_update hi rfl rfl j
  | acquireRetry i woken curr timeout hi => exact inside_update hi rfl (top_inside ..) j
  | giveBack i hi => exact inside_update hi rfl rfl j
  | leave i hi => exact inside_update hi rfl rfl j
  | increment i curr timeout hi => exact inside_update hi rfl rfl j
  | incrementRetry i curr timeout hi => exact inside_update hi rfl (top_inside ..) j
  | sleep i timeout hi => exact inside_update hi rfl rfl j
  | timeOut i t hi => exact inside_update hi rfl rfl j
  | spurious i timeout hi => exact inside_update hi rfl rfl j
  | wake i w timeout elapsed hi => exact inside_update hi rfl rfl j
  | load i w timeout hi => exact inside_update hi rfl (top_inside ..) j
  | unlock i timeout hi => exact moves i _
  | polled i timeout hi => exact moves i _
  | release i hi =>
    refine inside_update hi rfl ?_ j
    split <;> rfl
  | notifyLock i hi => exact inside_update hi rfl rfl j
  | notify i k woken timeout hi hk hw =>
    have hne : i ≠ k := fun e => by rw [e, hk] at hi; cases hi
    refine (inside_update (p := .notify) ?_ rfl rfl j).trans (inside_update hk rfl rfl j)
    rw [Function.update_of_ne hne, hi]
  | notifyNone i hi => exact inside_update hi rfl rfl j
  | notifyUnlock i hi => exact inside_update hi rfl rfl j
  | returned i hi => exact inside_update hi rfl rfl j

omit [DecidableEq κ] in
theorem locked_of_inside {p : LockPc} (h : p.inside = true) : p.locked = true := by
  cases p <;> first | rfl | cases h

omit [DecidableEq κ] in
theorem one_inside {s : Locker κ} {W L : Finset κ} (h : Counts s W L) {i j : κ} (hi : (s.pc i).inside = true)
    (hj : (s.pc j).inside = true) : i = j :=
  h.owners.unique h.one (locked_of_inside hi) (locked_of_inside hj)

end Inside

/-! ## Between two polls -/

/-- Inside one of the consumer's operations. -/
def PollPc.calls (p : PollPc ν) : Bool :=
  match p with
  | .preparing | .clearing | .dequeuing _ _ | .requeuing _ _ _ => true
  | _ => false

theorem answered_idle {q q' : Queue ι ν} {r : Answer ν} (hs : QStep q (.answer r) q') : q'.cons = .idle := by
  cases hs <;> rfl

/-- Outside the consumer's operations it is idle. -/
theorem idle_step {more : Nat} {s s' : Poller ι ν} {e : PollEv ι ν} (h : s.pc.calls = false → s.queue.cons = .idle)
    (hs : PollStep more s e s') : s'.pc.calls = false → s'.queue.cons = .idle := by
  cases hs with
  | queue e q hq he => exact fun hp => (inner_idle hq he (h hp)).1
  | returned i w q hq =>
    intro hp
    cases hq
    exact h hp
  | prepared b q _ hq => exact fun _ => answered_idle hq
  | cleared q _ hq => exact fun _ => answered_idle hq
  | empty room u r q _ _ hq => exact fun _ => answered_idle hq
  | data room u p q _ hq => exact fun _ => answered_idle hq
  | requeued event room u q _ hq => exact fun _ => answered_idle hq
  | pollPrepare => exact fun hp => by cases hp
  | selectedFull => exact fun hp => by cases hp
  | readNoneFull => exact fun hp => by cases hp
  | dequeue => exact fun hp => by cases hp
  | requeue => exact fun hp => by cases hp
  | pollZero hpc => exact fun _ => h (by rw [hpc]; rfl)
  | selectedNotify b room hpc => exact fun _ => h (by rw [hpc]; rfl)
  | selected b room hpc => exact fun _ => h (by rw [hpc]; rfl)
  | interrupted b hpc => exact h
  | failed b hpc => exact fun _ => h (by rw [hpc]; rfl)
  | read room hpc _ => exact h
  | readNone room hpc _ => exact fun _ => h (by rw [hpc]; rfl)
  | full u hpc => exact fun _ => h (by rw [hpc]; rfl)
  | taken p room u event hpc => exact fun _ => h (by rw [hpc]; rfl)

theorem at_rest {more : Nat} {τ : List (PollEv ι ν)} {t : Poller ι ν} (h : Run (poller ι ν more) τ t) (hpc : t.pc = .start) :
    t.Rests := by
  have hidle := Run.inv (P := fun t : Poller ι ν => t.pc.calls = false → t.queue.cons = .idle)
    (fun t hi => by cases hi; exact fun _ => rfl) (fun _ _ _ hi hs => idle_step hi hs) h
  have hcons := hidle (by rw [hpc]; rfl)
  obtain ⟨rest, hinv⟩ := poll_inv h
  exact ⟨hcons, hinv.inv.cons.own_none (by rw [hcons]; simp) (by rw [hcons]; simp), hpc⟩

/-! ## A producer's step -/

/-- Whatever the consumer is at, a producer's step is the same. -/
theorem thread_within {q q' : Queue ι ν} {e : Ev ι ν} (hs : QStep q e q') (hc : q.cons = q'.cons) (hown : q.flight none = none)
    (c : Cons ν) (o : Option (Enq ν)) : QStep (q.consumed c o) e (q'.consumed c o) ∧ q'.flight none = none := by
  have thread : ∀ i, (q.consumed c o).flight (some i) = q.flight (some i) := fun i => by
    show update q.flight none o (some i) = q.flight (some i)
    exact Function.update_of_ne (by simp) ..
  have other : ∀ {a : Agent ι} {x : Enq ν}, q.flight a = some x → ∃ i, a = some i ∧ (q.consumed c o).flight (some i) = some x := by
    intro a x h
    cases a with
    | none => rw [hown] at h; cases h
    | some i => exact ⟨i, rfl, (thread i).trans h⟩
  have apart : ∀ i x, update (update q.flight (some i) x) none o = update (update q.flight none o) (some i) x := fun i x =>
    Function.update_comm (by simp) ..
  rcases thread_cases hs hc with ⟨a, p, rfl, h0, rfl⟩ | ⟨a, p, rfl, h0, rfl⟩ | ⟨a, p, rfl, h0, rfl⟩ | ⟨a, p, rfl, h0, hh, rfl⟩ |
    ⟨a, p, prev, rfl, h0, rfl⟩ | ⟨i, n, rfl, h0, hb, rfl⟩ | ⟨i, w, rfl, h0, rfl⟩
  · obtain ⟨i, rfl, h1⟩ := other h0
    exact ⟨by simpa only [Queue.consumed, apart] using QStep.store (q.consumed c o) _ p h1, by simp [hown]⟩
  · rcases h0 with h0 | ⟨prev, h0, hne, hh⟩
    · obtain ⟨i, rfl, h1⟩ := other h0
      exact ⟨by simpa only [Queue.consumed, apart] using QStep.load (q.consumed c o) _ p h1, by simp [hown]⟩
    · obtain ⟨i, rfl, h1⟩ := other h0
      exact ⟨by simpa only [Queue.consumed, apart] using QStep.retry (q.consumed c o) _ p prev h1 hne hh, by simp [hown]⟩
  · obtain ⟨i, rfl, h1⟩ := other h0
    exact ⟨by simpa only [Queue.consumed, apart] using QStep.closed (q.consumed c o) _ p h1, by simp [hown]⟩
  · obtain ⟨i, rfl, h1⟩ := other h0
    exact ⟨by simpa only [Queue.consumed, apart] using QStep.swap (q.consumed c o) _ p q.head h1 hh rfl, by simp [hown]⟩
  · obtain ⟨i, rfl, h1⟩ := other h0
    exact ⟨by simpa only [Queue.consumed, apart] using QStep.link (q.consumed c o) _ p prev h1, by simp [hown]⟩
  · exact ⟨by simpa only [Queue.consumed, apart] using QStep.enqueue (q.consumed c o) i n ((thread i).trans h0) hb, by simp [hown]⟩
  · obtain ⟨j, hj, h1⟩ := other h0
    cases hj
    exact ⟨by simpa only [Queue.consumed, apart] using QStep.returned (q.consumed c o) i w h1, by simp [hown]⟩

/-- A producer's step, whoever is inside; with nobody inside it leaves nobody inside. -/
theorem produce_within {more : Nat} {t t' : Poller ι ν} {e : PollEv ι ν} (hs : PollStep more t e t') (he : Produces e)
    (h : t.Rests) (l : Local ν) : PollStep more (t.within l) e (t'.within l) ∧ t'.Rests := by
  cases hs with
  | queue e q hq hin =>
    have hidle := (inner_idle hq hin h.cons).1
    obtain ⟨hq', hown⟩ := thread_within hq (h.cons.trans hidle.symm) h.own l.cons l.own
    exact ⟨.queue _ e _ hq' hin, hidle, hown, h.pc⟩
  | returned i w q hq =>
    have hidle : q.cons = t.queue.cons := by cases hq; rfl
    obtain ⟨hq', hown⟩ := thread_within hq hidle.symm h.own l.cons l.own
    exact ⟨.returned _ i w _ hq', hidle.trans h.cons, hown, h.pc⟩
  | _ => cases he

/-! ## One at a time -/

/-- `t` is the memory with the variables of the thread that is inside, if there is one. -/
structure OneAtATime (s : Pollers κ ι ν) (t : Poller ι ν) : Prop where
  counts : ∃ W L, Counts s.locker W L
  shared : s.shared = t.outside
  inside : ∀ i, (s.locker.pc i).inside = true → t = s.view i
  nobody : (∀ i, (s.locker.pc i).inside = false) → t = s.shared

omit [DecidableEq ν] in
theorem outside_rests (t : Poller ι ν) : t.outside.Rests where
  cons := rfl
  own := show update t.queue.flight none none none = none by simp
  pc := rfl

omit [DecidableEq κ] [DecidableEq ν] in
/-- Who is inside is the only one. -/
theorem OneAtATime.alone {s : Pollers κ ι ν} {t : Poller ι ν} (h : OneAtATime s t) {i j : κ}
    (hi : (s.locker.pc i).inside = true) (hj : (s.locker.pc j).inside = true) : i = j := by
  obtain ⟨W, L, hc⟩ := h.counts
  exact one_inside hc hi hj

/-- A step of the thread that is inside. -/
theorem OneAtATime.put {more : Nat} {s : Pollers κ ι ν} {t t' : Poller ι ν} {e : PollEv ι ν} {i : κ} (h : OneAtATime s t)
    (hi : (s.locker.pc i).inside = true) (hs : PollStep more (s.view i) e t') :
    PollStep more t e t' ∧ OneAtATime (s.put i t') t' := by
  refine ⟨(h.inside i hi).symm ▸ hs, h.counts, rfl, fun j hj => ?_, fun hno => ?_⟩
  · obtain rfl := h.alone hi hj
    show t' = t'.outside.within (update s.locals i t'.locals i)
    rw [Function.update_self, outside_locals]
  · rw [show (s.locker.pc i).inside = false from hno i] at hi
    cases hi

omit [DecidableEq ι] [DecidableEq ν] in
theorem entering {s s' : Locker κ} {i : κ} (h : LockStep s (.enters i) s') : (s.pc i).inside = false ∧ (s'.pc i).inside = true := by
  rw [inside_step h i]
  refine ⟨?_, if_pos rfl⟩
  cases h with
  | fast _ timeout hi => rw [hi]; rfl
  | unlock _ timeout hi => rw [hi]; rfl

omit [DecidableEq ι] [DecidableEq ν] in
theorem leaving {s s' : Locker κ} {i : κ} (h : LockStep s (.leaves i) s') : (s.pc i).inside = true := by
  cases h with
  | polled _ timeout hi => rw [hi]; rfl

/-- A step of the threads is one step of the poller, or none. -/
theorem one_step {more : Nat} {τ : List (PollersEv κ ι ν)} {s s' : Pollers κ ι ν} {e : PollersEv κ ι ν} {t : Poller ι ν}
    (hr : Run (poller ι ν more) (memoryEvents τ) t) (h : OneAtATime s t) (hs : PollersStep more s e s') :
    ∃ t', Run (poller ι ν more) (memoryEvents (τ ++ [e])) t' ∧ OneAtATime s' t' := by
  have hevents : memoryEvents (τ ++ [e]) = memoryEvents τ ++ memoryEvents [e] := List.filterMap_append ..
  rw [hevents]
  obtain ⟨W, L, hc⟩ := h.counts
  cases hs with
  | lock e l hl hquiet =>
    have hsame : ∀ j, (l.pc j).inside = (s.locker.pc j).inside := by
      intro j
      rw [inside_step hl j]
      cases e with
      | enters i => exact absurd rfl (hquiet i).1
      | leaves i => exact absurd rfl (hquiet i).2
      | _ => rfl
    refine ⟨t, (List.append_nil _).symm ▸ hr, counts_step hc hl, h.shared, fun i hi => ?_, fun hno => ?_⟩
    · exact h.inside i (hsame i ▸ hi)
    · exact h.nobody fun i => hsame i ▸ hno i
  | enters i l hl =>
    obtain ⟨hout, hin⟩ := entering hl
    obtain ⟨W', L', hc'⟩ := counts_step hc hl
    have hnobody : ∀ j, (s.locker.pc j).inside = false := by
      intro j
      by_contra hj
      have hj := Bool.not_eq_false _ ▸ hj
      have hj' : (l.pc j).inside = true := by
        rw [inside_step hl j]
        show (if j = i then true else _) = true
        rw [hj, ite_self]
      obtain rfl := one_inside hc' hj' hin
      rw [hout] at hj
      cases hj
    refine ⟨t, (List.append_nil _).symm ▸ hr, ⟨W', L', hc'⟩, h.shared, fun j hj => ?_, fun hno => ?_⟩
    · obtain rfl := one_inside hc' hj hin
      show t = s.shared.within (update s.locals j .new j)
      rw [Function.update_self, ← h.nobody hnobody]
      exact ((h.nobody hnobody).trans h.shared)
    · rw [hno i] at hin
      cases hin
  | leaves i l hl hpc hbegun =>
    have hi := leaving hl
    have hview := h.inside i hi
    have hrest : t.outside = t := (at_rest hr (hview ▸ hpc)).outside
    refine ⟨t, (List.append_nil _).symm ▸ hr, counts_step hc hl, h.shared, fun j hj => ?_, fun _ => (h.shared.trans hrest).symm⟩
    rw [inside_step hl j] at hj
    change (if j = i then false else _) = true at hj
    split at hj
    · cases hj
    · exact h.inside j hj
  | thread e t₁ ht he =>
    have hrests : s.shared.Rests := h.shared ▸ outside_rests t
    obtain ⟨-, hafter⟩ := produce_within ht he hrests .new
    by_cases hin : ∃ i, (s.locker.pc i).inside = true
    · obtain ⟨i, hi⟩ := hin
      obtain ⟨hstep, -⟩ := produce_within ht he hrests (s.locals i)
      refine ⟨t₁.within (s.locals i), hr.step ((h.inside i hi).symm ▸ hstep), h.counts, ?_, fun j hj => ?_, fun hno => ?_⟩
      · show t₁ = (t₁.within (s.locals i)).within .new
        rw [within_within]
        exact hafter.outside.symm
      · obtain rfl := h.alone hi hj
        rfl
      · rw [hno i] at hi
        cases hi
    · have hno : ∀ i, (s.locker.pc i).inside = false := fun i => Bool.eq_false_iff.mpr fun hi => hin ⟨i, hi⟩
      refine ⟨t₁, hr.step ((h.nobody hno).symm ▸ ht), h.counts, hafter.outside.symm, fun i hi => ?_, fun _ => rfl⟩
      exact absurd ⟨i, hi⟩ hin
  | begins i timeout e t₁ hi hnew ht hpc =>
    obtain ⟨hstep, hput⟩ := h.put (by rw [hi]; rfl) ht
    exact ⟨t₁, hr.step hstep, hput⟩
  | goes i e t₁ hi hpc ht =>
    obtain ⟨hstep, hput⟩ := h.put hi ht
    exact ⟨t₁, hr.step hstep, hput⟩

theorem one_run {more : Nat} {τ : List (PollersEv κ ι ν)} {s : Pollers κ ι ν} (h : Run (pollers κ ι ν more) τ s) :
    ∃ t, Run (poller ι ν more) (memoryEvents τ) t ∧ OneAtATime s t := by
  induction h with
  | init hi =>
    cases hi
    have hrests : Poller.Rests (⟨Queue.new ι ν, .start, 0, none⟩ : Poller ι ν) := ⟨rfl, rfl, rfl⟩
    refine ⟨_, .init rfl, ⟨∅, ∅, .none fun _ => rfl, .none fun _ => rfl, rfl, Nat.zero_le _, fun _ => trivial⟩, hrests.outside.symm,
      fun i hi => ?_, fun _ => rfl⟩
    cases hi
  | step _ hs ih =>
    obtain ⟨t, ht, hone⟩ := ih
    exact one_step ht hone hs

/-- Whatever the threads do, the memory goes through a run of one poller, which is at any
    time where the thread that is inside `poll2` is. So the nodes that the threads are
    handed, all together, are those that took their place in the queue, in that order;
    and while one of them is blocked in `select` after `prepare_for_sleep` returned true,
    none is left, or the pipe holds a byte, or the producer that replaced the sleep marker
    has still to link its node or to wake it. -/
theorem pollers_share_one_queue {more : Nat} {τ : List (PollersEv κ ι ν)} {s : Pollers κ ι ν} (h : Run (pollers κ ι ν more) τ s) :
    (∃ t, Run (poller ι ν more) (memoryEvents τ) t ∧ s.shared = t.outside ∧ ∀ i, (s.locker.pc i).inside = true → t = s.view i) ∧
      handedOut (queueEvents (memoryEvents τ)) <+: (swapped (queueEvents (memoryEvents τ))).map .node ∧
      ∀ i, (s.locker.pc i).inside = true → (s.locals i).pc = .select true →
        (swapped (queueEvents (memoryEvents τ))).map .node = handedOut (queueEvents (memoryEvents τ)) ∨ 0 < s.shared.bytes ∨
          ∃ j, s.shared.replacer = some j ∧ Waking s.shared.queue j := by
  obtain ⟨t, ht, hone⟩ := one_run h
  obtain ⟨rest, hinv⟩ := poll_inv ht
  refine ⟨⟨t, ht, hone.shared, hone.inside⟩, ⟨_, hinv.holds.symm⟩, fun i hi hpc => ?_⟩
  have hview := hone.inside i hi
  rcases (hinv.asleep (hview ▸ hpc)).covered with hn | hb | ⟨j, hj, hw⟩
  · left
    have hh := hinv.holds
    unfold Holds at hh
    rw [hn] at hh
    simpa using hh
  · right; left
    rw [hone.shared]
    exact hb
  · right; right
    rw [hone.shared]
    refine ⟨j, hj, ?_⟩
    have hsame : update t.queue.flight none (Local.new : Local ν).own (some j) = t.queue.flight (some j) :=
      Function.update_of_ne (by simp) ..
    unfold Waking
    rw [show t.outside.queue.flight (some j) = t.queue.flight (some j) from hsame]
    exact hw

/-- Thread 0 sleeps in `select`, with an empty queue, and thread 1 comes for the lock. -/
theorem pollers_share_one_queue_two : ∃ (τ : List (PollersEv Nat Unit Nat)) (s : Pollers Nat Unit Nat),
    Run (pollers Nat Unit Nat 0) τ s ∧ s.locker.pc 1 = .lock 1 none ∧ (s.locals 0).pc = .select true ∧
      ((swapped (queueEvents (memoryEvents τ))).map Ptr.node = handedOut (queueEvents (memoryEvents τ)) ∨ 0 < s.shared.bytes ∨
        ∃ j, s.shared.replacer = some j ∧ Waking s.shared.queue j) := by
  have h0 : Run (pollers Nat Unit Nat 0) [] _ := .init rfl
  have h1 := h0.step (.lock _ _ _ (.call _ 0 none rfl) (by simp))
  have h2 := h1.step (.enters _ 0 _ (.fast _ 0 none rfl rfl))
  have h3 := h2.step (.begins _ 0 none _ _ rfl rfl (.pollPrepare _ _ rfl (.prepare _ rfl)) rfl)
  have h4 := h3.step (.goes _ 0 _ _ rfl (by decide) (.queue _ _ _ (.prepareStore _ rfl rfl) trivial))
  have h5 := h4.step (.goes _ 0 _ _ rfl (by decide) (.prepared _ true _ rfl (.prepareSwap _ rfl rfl)))
  have h6 := h5.step (.lock _ _ _ (.call _ 1 none rfl) (by simp))
  have h7 := h6.step (.lock _ _ _ (.slow _ 1 none rfl (by decide)) (by simp))
  exact ⟨_, _, h7, rfl, rfl, (pollers_share_one_queue h7).2.2 0 rfl rfl⟩

end Sickle.Poll
