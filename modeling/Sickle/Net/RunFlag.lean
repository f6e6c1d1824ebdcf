/-
  Sickle.Net.RunFlag — `EventLoop::run` and `EventLoop::shutdown`.

  One call of `run` on a loop, and any number of threads (`ι`) that call `shutdown` on it,
  once or again. The loop's flag `run` is all they share: `run` raises it by a
  compare-exchange, loads it before every `run_once`, and `shutdown` lowers it by a
  compare-exchange; neither looks at the outcome. Each of the three is one step, in any
  order with the others. As in `EventLoopPool::new`, the loop is handed out before `run`
  is called on it, and `shutdown` may be called from then on.

  Of a `run_once` the model has what `io_poll` returns, which may be anything, and when it
  ends; what its jobs do is not looked at, except that one may call `shutdown` (a thread
  of its own here).

  - `shutdown_kept`: when no `shutdown` has its compare-exchange before that of `run`,
    `run_once` begins once more at most after a `shutdown` has returned.
  - `shutdown_kept_iff`: a `shutdown` whose compare-exchange comes first can be lost, at
    that very moment.
  - `a_raised_flag_forgets`: such a run.
-/

import Mathlib.Data.List.Induction
import Mathlib.Logic.Function.Basic
import Sickle.Lib.Run

namespace Sickle.Net

open Function (update)
open Sickle.Lib

inductive ErrorKind where
  | interrupted
  | other
  deriving DecidableEq, Repr

/-- Where the thread of the loop is, in `run` and in the `run_once` it is in. -/
inductive RunPc where
  /-- Before `tx.send`: no other thread has the loop. -/
  | send
  /-- Before the compare-exchange of `run`. -/
  | raise
  /-- Before the load of the flag. -/
  | test
  /-- The flag was up: `run_once` is next. -/
  | enter
  | polling
  | processing (cnt : Nat)
  | returned (res : Except ErrorKind Unit)

/-- Where a thread is in `shutdown`. -/
inductive ShutdownPc where
  | idle
  /-- Before the compare-exchange. -/
  | lower
  | leaving
  deriving DecidableEq, Repr

structure Running (ι : Type) where
  run : Bool
  pc : RunPc
  calls : ι → ShutdownPc

inductive RunEv (ι : Type) where
  | sent
  | raised
  | tested (run : Bool)
  | began
  | polled (res : Except ErrorKind Nat)
  | processed
  | called (i : ι)
  | lowered (i : ι)
  | returned (i : ι)

/-- `compare_exchange`: its outcome, and the flag after it. -/
def compareExchange (w current new : Bool) : Except Bool Bool × Bool := if w = current then (.ok w, new) else (.error w, w)

/-- `run_once` when `io_poll` has returned. -/
def RunPc.polled (res : Except ErrorKind Nat) : RunPc :=
  match res with
  | .ok cnt => .processing cnt
  | .error .interrupted => .processing 0
  | .error err => .returned (.error err)

variable {ι : Type} [DecidableEq ι]

inductive RunStep : Running ι → RunEv ι → Running ι → Prop
  | send (s : Running ι) : s.pc = .send → RunStep s .sent { s with pc := .raise }
  | raise (s : Running ι) : s.pc = .raise → RunStep s .raised { s with run := (compareExchange s.run false true).2, pc := .test }
  | test (s : Running ι) : s.pc = .test →
      RunStep s (.tested s.run) { s with pc := if s.run then .enter else .returned (.ok ()) }
  | enter (s : Running ι) : s.pc = .enter → RunStep s .began { s with pc := .polling }
  | poll (s : Running ι) (res : Except ErrorKind Nat) : s.pc = .polling →
      RunStep s (.polled res) { s with pc := .polled res }
  | process (s : Running ι) (cnt : Nat) : s.pc = .processing cnt → RunStep s .processed { s with pc := .test }
  | call (s : Running ι) (i : ι) : s.calls i = .idle → s.pc ≠ .send →
      RunStep s (.called i) { s with calls := update s.calls i .lower }
  | lower (s : Running ι) (i : ι) : s.calls i = .lower →
      RunStep s (.lowered i)
        { s with run := (compareExchange s.run true false).2, calls := update s.calls i .leaving }
  | leave (s : Running ι) (i : ι) : s.calls i = .leaving → RunStep s (.returned i) { s with calls := update s.calls i .idle }

def running (ι : Type) [DecidableEq ι] : Lts (Running ι) (RunEv ι) where
  init s := s.run = false ∧ s.pc = .send ∧ ∀ i, s.calls i = .idle
  step := RunStep

/-- `run_once` begins. -/
def RunEv.begins : RunEv ι → Bool
  | .began => true
  | _ => false

/-- Once a `shutdown` has returned, `run_once` begins once more at most. -/
def OnceMore (τ : List (RunEv ι)) : Prop := ∀ τ₁ i τ₂, τ = τ₁ ++ .returned i :: τ₂ → τ₂.countP RunEv.begins ≤ 1

/-- `run` has raised the flag. -/
def RunPc.raised : RunPc → Bool
  | .send | .raise => false
  | _ => true

/-- The compare-exchange of a `shutdown` does not come before that of `run`. -/
def AfterRaise (s : Running ι) (e : RunEv ι) : Prop := ∀ i, e = .lowered i → s.pc.raised = true

/-! ## The flag stays down -/

def Stopped (s : Running ι) : Prop := s.run = false ∧ s.pc.raised = true

/-- How many more times `run_once` begins while the flag is down. -/
def RunPc.due : RunPc → Nat
  | .enter => 1
  | _ => 0

section
variable {s t : Running ι} {τ : List (RunEv ι)} {e : RunEv ι}

theorem due_le (pc : RunPc) : pc.due ≤ 1 := by cases pc <;> simp [RunPc.due]

theorem lowered_run (w : Bool) : (compareExchange w true false).2 = false := by cases w <;> rfl

theorem raised_run (w : Bool) : (compareExchange w false true).2 = true := by cases w <;> rfl

theorem polled_raised (res : Except ErrorKind Nat) : (RunPc.polled res).raised = true := by
  rcases res with (_ | _) | _ <;> rfl

theorem polled_due (res : Except ErrorKind Nat) : (RunPc.polled res).due = 0 := by
  rcases res with (_ | _) | _ <;> rfl

/-- Once the flag is down it stays down, and what is due is what still begins. -/
theorem stopped_step (h : Stopped s) (he : RunStep s e t) : Stopped t ∧ [e].countP RunEv.begins + t.pc.due ≤ s.pc.due := by
  obtain ⟨hrun, hpc⟩ := h
  cases he with
  | send hs => rw [hs] at hpc; cases hpc
  | raise hs => rw [hs] at hpc; cases hpc
  | test hs =>
    rw [hrun]
    exact ⟨⟨rfl, rfl⟩, Nat.zero_le _⟩
  | enter hs =>
    rw [hs]
    exact ⟨⟨hrun, rfl⟩, Nat.le_refl 1⟩
  | poll res hs =>
    refine ⟨⟨hrun, polled_raised res⟩, ?_⟩
    show 0 + (RunPc.polled res).due ≤ s.pc.due
    have := polled_due res
    omega
  | process cnt hs => exact ⟨⟨hrun, rfl⟩, Nat.zero_le _⟩
  | call i hc hs => exact ⟨⟨hrun, hpc⟩, Nat.le_of_eq (Nat.zero_add _)⟩
  | lower i hc => exact ⟨⟨lowered_run _, hpc⟩, Nat.le_of_eq (Nat.zero_add _)⟩
  | leave i hc => exact ⟨⟨hrun, hpc⟩, Nat.le_of_eq (Nat.zero_add _)⟩

/-! ## A shutdown that is kept -/

/-- A thread that is past the compare-exchange of `shutdown` has stopped the loop. -/
theorem leaving_step (h : ∀ i, s.calls i = .leaving → Stopped s) (he : RunStep s e t) (hlate : AfterRaise s e) :
    ∀ i, t.calls i = .leaving → Stopped t := by
  have same : t.calls = s.calls → ∀ i, t.calls i = .leaving → Stopped t := fun hcalls i hi =>
    (stopped_step (h i (by rw [← hcalls, hi])) he).1
  have others : ∀ j pc, t.calls = update s.calls j pc → pc ≠ .leaving → ∀ i, t.calls i = .leaving → Stopped t := by
    intro j pc hcalls hpc i hi
    by_cases hij : i = j
    · rw [hcalls, hij, Function.update_self] at hi
      exact absurd hi hpc
    · rw [hcalls, Function.update_of_ne hij] at hi
      exact (stopped_step (h i hi) he).1
  cases he with
  | send hs => exact same rfl
  | raise hs => exact same rfl
  | test hs => exact same rfl
  | enter hs => exact same rfl
  | poll res hs => exact same rfl
  | process cnt hs => exact same rfl
  | call i hc hs => exact others i _ rfl (by decide)
  | lower i hc => exact fun _ _ => ⟨lowered_run _, hlate i rfl⟩
  | leave i hc => exact others i _ rfl (by decide)

theorem leaving_stopped (h : Run ((running ι).restrict AfterRaise) τ s) : ∀ i, s.calls i = .leaving → Stopped s := by
  induction h with
  | init hi =>
    intro i hc
    rw [hi.2.2 i] at hc
    cases hc
  | step _ he ih => exact leaving_step ih he.1 he.2

theorem kept_run (h : Run ((running ι).restrict AfterRaise) τ s) :
    ∀ τ₁ i τ₂, τ = τ₁ ++ .returned i :: τ₂ → Stopped s ∧ τ₂.countP RunEv.begins + s.pc.due ≤ 1 := by
  induction h with
  | init => intro τ₁ i τ₂ hτ; simp at hτ
  | @step τ s t e hr he ih =>
    intro τ₁ i τ₂ hτ
    rcases List.eq_nil_or_concat' τ₂ with rfl | ⟨τ₂, e', rfl⟩
    · obtain ⟨-, hlast⟩ := List.append_inj' hτ rfl
      obtain rfl : e = .returned i := by simpa using hlast
      cases he.1 with
      | leave i hc =>
        have hstop : Stopped s := leaving_stopped hr i hc
        refine ⟨hstop, ?_⟩
        show 0 + s.pc.due ≤ 1
        have := due_le s.pc
        omega
    · rw [← List.cons_append, ← List.append_assoc] at hτ
      obtain ⟨hpre, hlast⟩ := List.append_inj' hτ rfl
      obtain rfl : e = e' := by simpa using hlast
      obtain ⟨hstop, hdue⟩ := ih τ₁ i τ₂ hpre
      obtain ⟨hstop', hdue'⟩ := stopped_step hstop he.1
      refine ⟨hstop', ?_⟩
      rw [List.countP_append]
      omega

theorem shutdown_kept (h : Run ((running ι).restrict AfterRaise) τ s) : OnceMore τ := fun τ₁ i τ₂ hτ => by
  have := (kept_run h τ₁ i τ₂ hτ).2
  omega

/-! ## A shutdown that is lost -/

/-- The condition, as a law about the history. -/
def LoweredLate (τ : List (RunEv ι)) : Prop := ∀ τ₁ i, τ₁ ++ [.lowered i] <+: τ → .raised ∈ τ₁

omit [DecidableEq ι] in
/-- What follows without a compare-exchange of `shutdown` does not change it. -/
theorem LoweredLate.append (h : LoweredLate τ) {τ' : List (RunEv ι)} (hno : ∀ e ∈ τ', ∀ i, e ≠ .lowered i) :
    LoweredLate (τ ++ τ') := by
  induction τ' using List.reverseRecOn with
  | nil => rwa [List.append_nil]
  | append_singleton τ' e ih =>
    intro τ₁ i hpre
    rw [← List.append_assoc, List.prefix_concat_iff] at hpre
    rcases hpre with heq | hpre
    · obtain ⟨-, hlast⟩ := List.append_inj' heq rfl
      exact absurd (List.singleton_inj.mp hlast).symm (hno e (by simp) i)
    · exact ih (fun e he => hno e (List.mem_append_left _ he)) τ₁ i hpre

theorem raised_iff (h : Run (running ι) τ s) : s.pc.raised = true ↔ .raised ∈ τ := by
  induction h with
  | init hi => simp [hi.2.1, RunPc.raised]
  | @step τ s t e hr he ih =>
    cases he with
    | send hs => simpa [hs, RunPc.raised] using ih
    | raise hs => simp [RunPc.raised]
    | test hs =>
      rw [hs] at ih
      have hpc : (if s.run then RunPc.enter else .returned (.ok ())).raised = true := by split <;> rfl
      simp [hpc, ih.mp rfl]
    | enter hs => simpa [hs, RunPc.raised] using ih
    | poll res hs =>
      rw [hs] at ih
      simp [polled_raised res, ih.mp rfl]
    | process cnt hs => simpa [hs, RunPc.raised] using ih
    | call i hc hs => simpa using ih
    | lower i hc => simpa using ih
    | leave i hc => simpa using ih

theorem late_iff (h : Run (running ι) τ s) : Run ((running ι).restrict AfterRaise) τ s ↔ LoweredLate τ := by
  constructor
  · intro hr
    induction hr with
    | init => intro τ₁ i hpre; simp at hpre
    | @step τ s t e hr he ih =>
      intro τ₁ i hpre
      rcases List.prefix_concat_iff.mp hpre with heq | hpre
      · obtain ⟨rfl, hlast⟩ := List.append_inj' heq rfl
        exact (raised_iff hr.of_restrict).mp (he.2 i (List.singleton_inj.mp hlast).symm)
      · exact ih hr.of_restrict τ₁ i hpre
  · intro hlate
    induction h with
    | init hi => exact .init hi
    | @step τ s t e hr he ih =>
      refine (ih fun τ₁ i hpre => hlate τ₁ i (hpre.trans (List.prefix_append _ _))).step ⟨he, ?_⟩
      rintro i rfl
      exact (raised_iff hr).mpr (hlate τ i List.prefix_rfl)

/-- `run` raises the flag and goes round twice. -/
theorem two_rounds (s : Running ι) (hpc : s.pc = .raise) :
    ∃ path t, Path (running ι) s path t ∧ (∀ x ∈ path, ∀ i, x.1 ≠ .lowered i) ∧
      (path.map Prod.fst).countP RunEv.begins = 2 := by
  have h1 : Path (running ι) s _ { s with run := true, pc := .test } := Path.nil.step (by
    have := RunStep.raise s hpc
    rwa [raised_run] at this)
  have h3 := (h1.step (.test _ rfl)).step (.enter _ rfl)
  have h5 := (h3.step (.poll _ (.ok 0) rfl)).step (.process _ 0 rfl)
  have h7 := (h5.step (.test _ rfl)).step (.enter _ rfl)
  exact ⟨_, _, h7, by simp, rfl⟩

/-- From the compare-exchange of a `shutdown` that came first. -/
theorem lost_path (s : Running ι) (hpc : s.pc.raised = false) {i : ι} (hi : s.calls i = .leaving) :
    ∃ path t, Path (running ι) s path t ∧ (∀ x ∈ path, ∀ j, x.1 ≠ .lowered j) ∧
      ∃ τ₂, path.map Prod.fst = .returned i :: τ₂ ∧ τ₂.countP RunEv.begins = 2 := by
  have hleave : Path (running ι) s _ _ := Path.nil.step (.leave s i hi)
  have hpc : s.pc = .send ∨ s.pc = .raise := by
    cases hs : s.pc <;> simp_all [RunPc.raised]
  rcases hpc with hs | hs
  · have hsend := hleave.step (.send _ hs)
    obtain ⟨path, t, hpath, hno, hcount⟩ := two_rounds { s with calls := update s.calls i .idle, pc := .raise } rfl
    refine ⟨_, t, hsend.trans hpath, by simpa using hno, _, rfl, ?_⟩
    exact (List.countP_cons_of_neg (by simp [RunEv.begins])).trans hcount
  · obtain ⟨path, t, hpath, hno, hcount⟩ := two_rounds { s with calls := update s.calls i .idle } hs
    exact ⟨_, t, hleave.trans hpath, by simpa using hno, _, rfl, hcount⟩

/-- The steps of a run all meet `AfterRaise` exactly when, from each of its moments on and
    with no further compare-exchange of a `shutdown`, `run_once` begins once more at most
    after a `shutdown` has returned. -/
theorem shutdown_kept_iff (h : Run (running ι) τ s) :
    Run ((running ι).restrict AfterRaise) τ s ↔
      ∀ τ₁ t path t', τ₁ <+: τ → Run (running ι) τ₁ t → Path (running ι) t path t' →
        (∀ x ∈ path, ∀ i, x.1 ≠ .lowered i) → OnceMore (τ₁ ++ path.map Prod.fst) := by
  constructor
  · intro hr τ₁ t path t' hpre ht hpath hno
    have hlate : LoweredLate τ₁ := fun τ₂ i hτ₂ => (late_iff h).mp hr τ₂ i (hτ₂.trans hpre)
    refine shutdown_kept ((late_iff (hpath.run ht)).mpr (hlate.append fun e he => ?_))
    obtain ⟨x, hx, rfl⟩ := List.mem_map.mp he
    exact hno x hx
  · intro hall
    induction h with
    | init hi => exact .init hi
    | @step τ s t e hr he ih =>
      have hr' := ih fun τ₁ u path u' hpre => hall τ₁ u path u' (hpre.trans (List.prefix_append _ _))
      refine hr'.step ⟨he, ?_⟩
      rintro i rfl
      by_contra hpc
      -- the thread returns, the flag is raised after it, and two rounds follow
      cases he with
      | lower _ hc =>
        obtain ⟨path, u, hpath, hno, τ₂, hτ₂, hcount⟩ := lost_path
          { s with run := (compareExchange s.run true false).2, calls := update s.calls i .leaving } (Bool.not_eq_true _ ▸ hpc)
          (Function.update_self i _ s.calls)
        have hmore := hall _ _ path u List.prefix_rfl (hr.step (.lower s i hc)) hpath hno (τ ++ [.lowered i]) i τ₂ (by rw [hτ₂])
        omega

end

/-- The `shutdown` comes between the load and the `run_once`, which still begins. -/
theorem shutdown_kept_iff_entering :
    ∃ τ s, .returned () ∈ τ ∧ s.pc = .enter ∧ Run ((running Unit).restrict AfterRaise) τ s ∧
      ∀ τ₁ t path t', τ₁ <+: τ → Run (running Unit) τ₁ t → Path (running Unit) t path t' →
        (∀ x ∈ path, ∀ i, x.1 ≠ .lowered i) → OnceMore (τ₁ ++ path.map Prod.fst) := by
  have h0 : Run ((running Unit).restrict AfterRaise) [] ⟨false, .send, fun _ => .idle⟩ := .init ⟨rfl, rfl, fun _ => rfl⟩
  have h2 := (h0.step ⟨.send _ rfl, fun _ h => nomatch h⟩).step ⟨.raise _ rfl, fun _ h => nomatch h⟩
  have h4 := (h2.step ⟨.test _ rfl, fun _ h => nomatch h⟩).step ⟨.call _ () rfl (by simp [compareExchange]), fun _ h => nomatch h⟩
  have h6 := (h4.step ⟨.lower _ () rfl, fun _ _ => rfl⟩).step ⟨.leave _ () rfl, fun _ h => nomatch h⟩
  exact ⟨_, _, by simp, rfl, h6, (shutdown_kept_iff h6.of_restrict).mp h6⟩

/-- The loop is handed out, a `shutdown` comes and returns, and only then `run` raises the
    flag. -/
theorem a_raised_flag_forgets : ¬ ∀ (τ : List (RunEv Unit)) (s : Running Unit), Run (running Unit) τ s → OnceMore τ := by
  intro hall
  have h0 : Run (running Unit) [] ⟨false, .send, fun _ => .idle⟩ := .init ⟨rfl, rfl, fun _ => rfl⟩
  have h2 := (h0.step (.send _ rfl)).step (.call _ () rfl (by simp))
  have h4 := (h2.step (.lower _ () rfl)).step (.leave _ () rfl)
  have h6 := (h4.step (.raise _ rfl)).step (.test _ rfl)
  have h8 := (h6.step (.enter _ rfl)).step (.poll _ (.ok 0) rfl)
  have h10 := (h8.step (.process _ 0 rfl)).step (.test _ rfl)
  have h11 := h10.step (.enter _ rfl)
  have hcount := hall _ _ h11 [.sent, .called (), .lowered ()] () _ rfl
  exact absurd hcount (by decide)

end Sickle.Net
