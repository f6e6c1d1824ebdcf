/-
  Sickle.Sys.Refused — calls that the kernel refuses.

  `reregister` and `deregister` ask the kernel first and touch `events_map` when it has
  agreed; `register` writes the entry before it asks, and leaves it there when it is
  refused.

  - `no_trace_iff`: over all sequences of calls, those that fail leave the map as it was
    and the map has the descriptors the kernel has exactly when each `register` is
    accepted, or repeats the entry that is there.
  - `a_refused_register_replaces_the_job`: a second `register` of a descriptor.
-/

import Mathlib.Data.List.Induction
import Sickle.Sys.Selector

namespace Sickle.Sys

open Function (update)

variable {J : Type}

inductive Op (J : Type) where
  | register (fd : Fd) (token : TokenEntry) (interests : Ready) (opts : PollOpt) (job : J)
  | reregister (fd : Fd) (token : TokenEntry) (interests : Ready) (opts : PollOpt)
  | deregister (fd : Fd)

/-- A call, and whether the kernel refuses it for a reason of its own. -/
abbrev Asked (J : Type) := Op J × Bool

def perform (s : Selector J) (o : Asked J) : Except Errno Unit × Selector J :=
  match o.1 with
  | .register fd token interests opts job => register s fd token interests opts job o.2
  | .reregister fd token interests opts => reregister s fd token interests opts o.2
  | .deregister fd => deregister s fd o.2

/-- The selector after the calls. -/
def performAll (os : List (Asked J)) : Selector J := os.foldl (fun s o => (perform s o).2) .new

/-- The map and the kernel have the same descriptors. -/
def SameKeys (s : Selector J) : Prop := ∀ fd, (s.eventsMap fd).isSome = (s.kernel fd).isSome

structure LeavesNoTrace (s : Selector J) (o : Asked J) : Prop where
  failed : (perform s o).1 ≠ .ok () → (perform s o).2.eventsMap = s.eventsMap
  keys : SameKeys (perform s o).2

/-- The kernel accepts the `register`, or the map has this very entry already. -/
def Taken (s : Selector J) (o : Asked J) : Prop :=
  match o.1 with
  | .register fd token _ _ job => (o.2 = false ∧ s.kernel fd = none) ∨ s.eventsMap fd = some ⟨token, job, Ready.empty⟩
  | _ => True

/-! ## The kernel's answer -/

/-- What the kernel accepts, and what it then holds. -/
theorem epollCtl_cases (k : Kernel) (op : CtlOp) (fd : Fd) (info : EpollEvent) (refuse : Bool) :
    (∃ e, epollCtl k op fd info refuse = .error e ∧ (op = .add → ¬ (refuse = false ∧ k fd = none))) ∨
      ∃ k', epollCtl k op fd info refuse = .ok k' ∧ refuse = false ∧ ((k fd).isSome = true ↔ op ≠ .add) ∧
        k' = update k fd (if op = .del then none else some info) := by
  unfold epollCtl
  cases refuse with
  | true => exact .inl ⟨.other, rfl, fun _ h => Bool.noConfusion h.1⟩
  | false =>
    cases hk : k fd with
    | none =>
      cases op with
      | add => exact .inr ⟨_, rfl, rfl, by simp, by simp⟩
      | mod => exact .inl ⟨.noent, rfl, by simp⟩
      | del => exact .inl ⟨.noent, rfl, by simp⟩
    | some held =>
      cases op with
      | add => exact .inl ⟨.exist, rfl, by simp⟩
      | mod => exact .inr ⟨_, rfl, rfl, by simp, by simp⟩
      | del => exact .inr ⟨_, rfl, rfl, by simp, by simp⟩

/-- A descriptor that gets an entry, or loses it, on both sides. -/
theorem SameKeys.both {s : Selector J} (h : SameKeys s) (fd : Fd) {e : Option (JobEntry J)} {i : Option EpollEvent}
    (he : e.isSome = i.isSome) : SameKeys ⟨update s.eventsMap fd e, update s.kernel fd i⟩ := by
  intro f
  by_cases hf : f = fd
  · subst hf
    show (update s.eventsMap f e f).isSome = (update s.kernel f i f).isSome
    rw [Function.update_self, Function.update_self, he]
  · show (update s.eventsMap fd e f).isSome = (update s.kernel fd i f).isSome
    rw [Function.update_of_ne hf, Function.update_of_ne hf]
    exact h f

/-- A descriptor that both sides have, the kernel with another event. -/
theorem SameKeys.changed {s : Selector J} (h : SameKeys s) {fd : Fd} (hk : (s.kernel fd).isSome = true) (info : EpollEvent) :
    SameKeys { s with kernel := update s.kernel fd (some info) } := by
  intro f
  show (s.eventsMap f).isSome = (update s.kernel fd (some info) f).isSome
  by_cases hf : f = fd
  · subst hf
    rw [Function.update_self, h f, hk]
    rfl
  · rw [Function.update_of_ne hf]
    exact h f

theorem no_trace_step {s : Selector J} {o : Asked J} (h : SameKeys s) (ht : Taken s o) : LeavesNoTrace s o := by
  obtain ⟨op, refuse⟩ := o
  cases op with
  | register fd token interests opts job =>
    rcases epollCtl_cases s.kernel .add fd ⟨ioeventToEpoll interests opts, fd.signExtend 64⟩ refuse with
      ⟨e, he, hne⟩ | ⟨k', hok, -, -, rfl⟩
    · have hp : perform s (.register fd token interests opts job, refuse) =
          (.error e, { s with eventsMap := update s.eventsMap fd (some ⟨token, job, Ready.empty⟩) }) := by
        simp only [perform, register, he]
      have hsame : s.eventsMap fd = some ⟨token, job, Ready.empty⟩ := ht.resolve_left (hne rfl)
      have hmap : update s.eventsMap fd (some ⟨token, job, Ready.empty⟩) = s.eventsMap := by
        rw [← hsame, Function.update_eq_self]
      rw [hmap] at hp
      exact ⟨fun _ => by rw [hp], by rw [hp]; exact h⟩
    · have hp : perform s (.register fd token interests opts job, refuse) = (.ok (),
          ⟨update s.eventsMap fd (some ⟨token, job, Ready.empty⟩),
            update s.kernel fd (some ⟨ioeventToEpoll interests opts, fd.signExtend 64⟩)⟩) := by
        simp [perform, register, hok]
      exact ⟨fun hf => absurd (by rw [hp]) hf, by rw [hp]; exact h.both fd rfl⟩
  | reregister fd token interests opts =>
    rcases epollCtl_cases s.kernel .mod fd ⟨ioeventToEpoll interests opts, token.token.val⟩ refuse with
      ⟨e, he, -⟩ | ⟨k', hok, -, hk, rfl⟩
    · have hp : perform s (.reregister fd token interests opts, refuse) = (.error e, s) := by
        simp only [perform, reregister, he]
      exact ⟨fun _ => by rw [hp], by rw [hp]; exact h⟩
    · have hp : perform s (.reregister fd token interests opts, refuse) = (.ok (),
          { s with kernel := update s.kernel fd (some ⟨ioeventToEpoll interests opts, token.token.val⟩) }) := by
        simp [perform, reregister, hok]
      exact ⟨fun hf => absurd (by rw [hp]) hf, by rw [hp]; exact h.changed (hk.mpr (by simp)) _⟩
  | deregister fd =>
    rcases epollCtl_cases s.kernel .del fd ⟨0, 0⟩ refuse with ⟨e, he, -⟩ | ⟨k', hok, -, -, rfl⟩
    · have hp : perform s (.deregister fd, refuse) = (.error e, s) := by
        simp only [perform, deregister, he]
      exact ⟨fun _ => by rw [hp], by rw [hp]; exact h⟩
    · have hp : perform s (.deregister fd, refuse) =
          (.ok (), ⟨update s.eventsMap fd none, update s.kernel fd none⟩) := by
        simp only [perform, deregister, hok, if_true]
      exact ⟨fun hf => absurd (by rw [hp]) hf, by rw [hp]; exact h.both fd rfl⟩

/-- A `register` that leaves no trace was accepted, or changed nothing. -/
theorem taken_of_no_trace {s : Selector J} {o : Asked J} (h : LeavesNoTrace s o) : Taken s o := by
  obtain ⟨op, refuse⟩ := o
  cases op with
  | register fd token interests opts job =>
    rcases epollCtl_cases s.kernel .add fd ⟨ioeventToEpoll interests opts, fd.signExtend 64⟩ refuse with
      ⟨e, he, -⟩ | ⟨k', -, hr, hk, -⟩
    · have hp : perform s (.register fd token interests opts job, refuse) =
          (.error e, { s with eventsMap := update s.eventsMap fd (some ⟨token, job, Ready.empty⟩) }) := by
        simp only [perform, register, he]
      have hmap := h.failed (by rw [hp]; simp)
      rw [hp] at hmap
      have hfd : update s.eventsMap fd (some ⟨token, job, Ready.empty⟩) fd = s.eventsMap fd := congrFun hmap fd
      rw [Function.update_self] at hfd
      exact .inr hfd.symm
    · exact .inl ⟨hr, by simpa using hk⟩
  | reregister => trivial
  | deregister => trivial

theorem performAll_snoc (os : List (Asked J)) (o : Asked J) : performAll (os ++ [o]) = (perform (performAll os) o).2 := by
  unfold performAll
  rw [List.foldl_append, List.foldl_cons, List.foldl_nil]

theorem performAll_keys {os : List (Asked J)} (h : ∀ os₁ o os₂, os = os₁ ++ o :: os₂ → Taken (performAll os₁) o) :
    SameKeys (performAll os) := by
  induction os using List.reverseRecOn with
  | nil => exact fun _ => rfl
  | append_singleton os o ih =>
    rw [performAll_snoc]
    have hk : SameKeys (performAll os) := ih fun os₁ o' os₂ he => h os₁ o' (os₂ ++ [o]) (by rw [he]; simp)
    exact (no_trace_step hk (h os o [] rfl)).keys

/-- Over all sequences of calls, with any answers of the kernel: each call that fails leaves
    `events_map` as it was, and after each call the map and the kernel have the same
    descriptors, exactly when every `register` is accepted by the kernel, or registers
    the entry that is there. -/
theorem no_trace_iff (os : List (Asked J)) :
    (∀ os₁ o os₂, os = os₁ ++ o :: os₂ → LeavesNoTrace (performAll os₁) o) ↔
      ∀ os₁ o os₂, os = os₁ ++ o :: os₂ → Taken (performAll os₁) o := by
  constructor
  · intro h os₁ o os₂ he
    exact taken_of_no_trace (h os₁ o os₂ he)
  · intro h os₁ o os₂ he
    have hk : SameKeys (performAll os₁) := performAll_keys fun os₃ o' os₄ he' =>
      h os₃ o' (os₄ ++ o :: os₂) (by rw [he, he']; simp)
    exact no_trace_step hk (h os₁ o os₂ he)

/-- Descriptor 5 is registered with job 1, and again with job 2: the kernel answers EEXIST,
    and the job is job 2. -/
theorem a_refused_register_replaces_the_job : ¬ ∀ (os os₁ : List (Asked Nat)) (o : Asked Nat) (os₂ : List (Asked Nat)),
    os = os₁ ++ o :: os₂ → LeavesNoTrace (performAll os₁) o := by
  intro h
  let first : Asked Nat := (.register 5 ⟨.socketEvent, ⟨5⟩⟩ Ready.readable PollOpt.edge 1, false)
  let second : Asked Nat := (.register 5 ⟨.socketEvent, ⟨5⟩⟩ Ready.readable PollOpt.edge 2, false)
  have hmap := (h [first, second] [first] second [] rfl).failed fun he => nomatch he
  exact absurd (congrFun hmap 5) (by decide)

end Sickle.Sys
