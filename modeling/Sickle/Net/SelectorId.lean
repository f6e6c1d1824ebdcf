/-
  Sickle.Net.SelectorId — one socket and many Polls (`SelectorId::associate_selector`,
  `Evented for TcpStream`, `Evented for TcpListener`).

  A socket keeps in its `selector_id` the id of the Poll it belongs to, 0 at first unless
  it is a clone, and `register` looks at it before it asks the Poll's selector. The two
  atomic operations of `associate_selector` are a step each: the load, which also decides
  the answer, and the store. Any number of threads (`ι`) call `register` with any Polls
  (`π`), and any thread makes a Poll, or calls `reregister` and `deregister`, which do not
  look at the id; `sys.register`, these two and `Selector::new` are one step each. The
  kernel may refuse any call.

  A selector takes its id from the static `NEXT_ID`, plus one; 2^64 of them are never
  made, so the counter does not wrap.

  - `passed_one_poll_iff`: over all runs, the calls that pass the test name one Poll
    exactly when none reads the id 0 between the load and the store of a call for
    another Poll.
  - `one_poll_iff`: the same of the calls that are answered `Ok`, and of the Polls whose
    kernel has the socket, once the calls in progress may finish.
  - `two_loads_before_two_stores`: two Polls that both get the socket.
-/

import Mathlib.Algebra.Group.Nat.Defs
import Sickle.Lib.Run
import Sickle.Sys.Selector

namespace Sickle.Net

open Function (update)
open Sickle.Lib
open Sickle.Sys (Fd Errno Selector)

/-- The arguments of `register`. -/
structure RegisterCall (π J : Type) where
  poll : π
  token : TokenEntry
  interest : Ready
  opts : PollOpt
  job : J

/-- Where a thread is in `register`. -/
inductive RegisterPc (π J : Type) where
  | idle
  /-- Before the load of the selector id. -/
  | load (c : RegisterCall π J)
  /-- The test has passed: before the store. -/
  | store (c : RegisterCall π J)
  /-- Before the return of `associate_selector`. -/
  | answer (c : RegisterCall π J) (res : Except String Unit)
  | sysRegister (c : RegisterCall π J)

/-- A selector with its id. -/
structure Numbered (J : Type) extends Selector J where
  id : Nat

structure Sharing (π ι J : Type) where
  selectorId : Nat
  /-- `NEXT_ID`. -/
  nextId : Nat
  polls : π → Option (Numbered J)
  pc : ι → RegisterPc π J

inductive RegisterEv (π ι : Type) where
  | made (p : π)
  | cloned (p : π)
  | called (i : ι) (p : π)
  | passed (i : ι) (p : π)
  | refused (i : ι) (p : π)
  | stored (i : ι) (p : π)
  | associated (i : ι) (p : π) (res : Except String Unit)
  | registered (i : ι) (p : π) (res : Except Errno Unit)
  | reregistered (p : π) (res : Except Errno Unit)
  | deregistered (p : π) (res : Except Errno Unit)

variable {π ι J : Type} [DecidableEq π] [DecidableEq ι]

/-- The steps over a socket with the descriptor `fd`. -/
inductive RegisterStep (fd : Fd) : Sharing π ι J → RegisterEv π ι → Sharing π ι J → Prop
  | make (s : Sharing π ι J) (p : π) : s.polls p = none → s.nextId + 1 < 2 ^ 64 →
      RegisterStep fd s (.made p) { s with nextId := s.nextId + 1, polls := update s.polls p (some ⟨.new, s.nextId + 1⟩) }
  /-- The socket comes of `try_clone`, from one that belongs to the Poll: its id is copied. -/
  | clone (s : Sharing π ι J) (p : π) (sel : Numbered J) : s.selectorId = 0 → (∀ i, s.pc i = .idle) → s.polls p = some sel →
      RegisterStep fd s (.cloned p) { s with selectorId := sel.id }
  | call (s : Sharing π ι J) (i : ι) (c : RegisterCall π J) (sel : Numbered J) : s.pc i = .idle → s.polls c.poll = some sel →
      RegisterStep fd s (.called i c.poll) { s with pc := update s.pc i (.load c) }
  | refuse (s : Sharing π ι J) (i : ι) (c : RegisterCall π J) (sel : Numbered J) : s.pc i = .load c →
      s.polls c.poll = some sel → s.selectorId ≠ 0 ∧ s.selectorId ≠ sel.id →
      RegisterStep fd s (.refused i c.poll) { s with pc := update s.pc i (.answer c (.error "Socket already registered")) }
  | pass (s : Sharing π ι J) (i : ι) (c : RegisterCall π J) (sel : Numbered J) : s.pc i = .load c →
      s.polls c.poll = some sel → ¬ (s.selectorId ≠ 0 ∧ s.selectorId ≠ sel.id) →
      RegisterStep fd s (.passed i c.poll) { s with pc := update s.pc i (.store c) }
  | store (s : Sharing π ι J) (i : ι) (c : RegisterCall π J) (sel : Numbered J) : s.pc i = .store c →
      s.polls c.poll = some sel →
      RegisterStep fd s (.stored i c.poll) { s with selectorId := sel.id, pc := update s.pc i (.answer c (.ok ())) }
  | refused (s : Sharing π ι J) (i : ι) (c : RegisterCall π J) (text : String) : s.pc i = .answer c (.error text) →
      RegisterStep fd s (.associated i c.poll (.error text)) { s with pc := update s.pc i .idle }
  | associated (s : Sharing π ι J) (i : ι) (c : RegisterCall π J) : s.pc i = .answer c (.ok ()) →
      RegisterStep fd s (.associated i c.poll (.ok ())) { s with pc := update s.pc i (.sysRegister c) }
  | sysRegister (s : Sharing π ι J) (i : ι) (c : RegisterCall π J) (sel : Numbered J) (refuse : Bool) :
      s.pc i = .sysRegister c → s.polls c.poll = some sel →
      RegisterStep fd s (.registered i c.poll (Sys.register sel.toSelector fd c.token c.interest c.opts c.job refuse).1)
        { s with
          polls := update s.polls c.poll
            (some ⟨(Sys.register sel.toSelector fd c.token c.interest c.opts c.job refuse).2, sel.id⟩)
          pc := update s.pc i .idle }
  | reregister (s : Sharing π ι J) (p : π) (sel : Numbered J) (token : TokenEntry) (interest : Ready) (opts : PollOpt)
      (refuse : Bool) : s.polls p = some sel →
      RegisterStep fd s (.reregistered p (Sys.reregister sel.toSelector fd token interest opts refuse).1)
        { s with polls := update s.polls p (some ⟨(Sys.reregister sel.toSelector fd token interest opts refuse).2, sel.id⟩) }
  | deregister (s : Sharing π ι J) (p : π) (sel : Numbered J) (refuse : Bool) : s.polls p = some sel →
      RegisterStep fd s (.deregistered p (Sys.deregister sel.toSelector fd refuse).1)
        { s with polls := update s.polls p (some ⟨(Sys.deregister sel.toSelector fd refuse).2, sel.id⟩) }

def sharing (π ι J : Type) [DecidableEq π] [DecidableEq ι] (fd : Fd) : Lts (Sharing π ι J) (RegisterEv π ι) where
  init s := s.selectorId = 0 ∧ s.nextId = 0 ∧ (∀ p, s.polls p = none) ∧ ∀ i, s.pc i = .idle
  step := RegisterStep fd

def OnePassed (τ : List (RegisterEv π ι)) : Prop := ∀ i j p q, .passed i p ∈ τ → .passed j q ∈ τ → p = q

/-- The calls for which `associate_selector` returns `Ok` name one Poll. -/
def OneAnswered (τ : List (RegisterEv π ι)) : Prop :=
  ∀ i j p q, .associated i p (.ok ()) ∈ τ → .associated j q (.ok ()) ∈ τ → p = q

/-- The Poll's epoll instance has the socket. -/
def Sharing.Holds (s : Sharing π ι J) (fd : Fd) (p : π) : Prop := ∃ sel, s.polls p = some sel ∧ (sel.kernel fd).isSome

/-- A load of the id 0 does not fall between the load and the store of a call for
    another Poll. -/
def LoadsApart (s : Sharing π ι J) (e : RegisterEv π ι) : Prop :=
  ∀ i p, e = .passed i p → s.selectorId = 0 → ∀ j c, s.pc j = .store c → c.poll = p

/-- A step of a call that is past its load. -/
def RegisterEv.Finishes : RegisterEv π ι → Prop
  | .stored _ _ | .associated _ _ _ | .registered _ _ _ => True
  | _ => False

/-! ## The ids -/

def RegisterPc.call? : RegisterPc π J → Option (RegisterCall π J)
  | .idle => none
  | .load c | .store c | .answer c _ | .sysRegister c => some c

def Sharing.idOf (s : Sharing π ι J) (p : π) : Option Nat := (s.polls p).map Numbered.id

structure Numbering (s : Sharing π ι J) : Prop where
  id_pos : ∀ p n, s.idOf p = some n → 0 < n
  id_le : ∀ p n, s.idOf p = some n → n ≤ s.nextId
  id_inj : ∀ p q n, s.idOf p = some n → s.idOf q = some n → p = q
  made : ∀ i c, (s.pc i).call? = some c → ∃ n, s.idOf c.poll = some n

section
omit [DecidableEq π] [DecidableEq ι]

theorem idOf_of_some {s : Sharing π ι J} {p : π} {sel : Numbered J} (hp : s.polls p = some sel) : s.idOf p = some sel.id := by
  simp only [Sharing.idOf, hp, Option.map_some]

theorem exists_of_idOf {s : Sharing π ι J} {p : π} {n : Nat} (hp : s.idOf p = some n) :
    ∃ sel, s.polls p = some sel ∧ sel.id = n := by
  simpa only [Sharing.idOf, Option.map_eq_some_iff] using hp

end

omit [DecidableEq ι] in
/-- A Poll's selector changes, and keeps its id. -/
theorem idOf_changed {s : Sharing π ι J} {p : π} {sel : Numbered J} (hp : s.polls p = some sel) (sel' : Selector J)
    (pc : ι → RegisterPc π J) :
    Sharing.idOf { s with polls := update s.polls p (some ⟨sel', sel.id⟩), pc := pc } = s.idOf := by
  funext q
  show (update s.polls p (some ⟨sel', sel.id⟩) q).map Numbered.id = (s.polls q).map Numbered.id
  by_cases hqp : q = p
  · subst hqp
    rw [Function.update_self, hp]
    rfl
  · rw [Function.update_of_ne hqp]

omit [DecidableEq ι] in
/-- A new Poll takes an id above all others. -/
theorem idOf_made (s : Sharing π ι J) (p : π) :
    Sharing.idOf { s with nextId := s.nextId + 1, polls := update s.polls p (some ⟨.new, s.nextId + 1⟩) } =
      update s.idOf p (some (s.nextId + 1)) := by
  funext q
  show (update s.polls p (some ⟨.new, s.nextId + 1⟩) q).map Numbered.id = update s.idOf p (some (s.nextId + 1)) q
  by_cases hqp : q = p
  · subst hqp
    rw [Function.update_self, Function.update_self]
    rfl
  · rw [Function.update_of_ne hqp, Function.update_of_ne hqp]
    rfl

namespace Numbering

variable {fd : Fd} {s s' : Sharing π ι J} {e : RegisterEv π ι}

omit [DecidableEq π] in
/-- A thread goes on with a call, or leaves it. -/
theorem moved (h : Numbering s) (i : ι) {pc : RegisterPc π J} (selectorId : Nat)
    (hpc : ∀ c, pc.call? = some c → ∃ n, s.idOf c.poll = some n) :
    Numbering { s with selectorId := selectorId, pc := update s.pc i pc } :=
  ⟨h.id_pos, h.id_le, h.id_inj,
    (Function.forall_update_iff s.pc (fun _ pc => ∀ c, pc.call? = some c → ∃ n, s.idOf c.poll = some n)).mpr
      ⟨hpc, fun j _ => h.made j⟩⟩

omit [DecidableEq ι] in
theorem changed (h : Numbering s) {p : π} {sel : Numbered J} (hp : s.polls p = some sel) (sel' : Selector J) :
    Numbering { s with polls := update s.polls p (some ⟨sel', sel.id⟩) } := by
  have hid := idOf_changed hp sel' s.pc
  exact ⟨by rw [hid]; exact h.id_pos, by rw [hid]; exact h.id_le, by rw [hid]; exact h.id_inj, by rw [hid]; exact h.made⟩

omit [DecidableEq ι] in
theorem poll_made (h : Numbering s) {p : π} (hp : s.polls p = none) :
    Numbering { s with nextId := s.nextId + 1, polls := update s.polls p (some ⟨.new, s.nextId + 1⟩) } := by
  have hnone : s.idOf p = none := by simp only [Sharing.idOf, hp, Option.map_none]
  have old : ∀ q n, update s.idOf p (some (s.nextId + 1)) q = some n →
      (q = p ∧ n = s.nextId + 1) ∨ (s.idOf q = some n ∧ n ≤ s.nextId) := by
    intro q n hq
    by_cases hqp : q = p
    · subst hqp
      rw [Function.update_self] at hq
      cases hq
      exact .inl ⟨rfl, rfl⟩
    · rw [Function.update_of_ne hqp] at hq
      exact .inr ⟨hq, h.id_le q n hq⟩
  refine ⟨fun q n hq => ?_, fun q n hq => ?_, fun q r n hq hr => ?_, fun i c hc => ?_⟩
  · rw [idOf_made] at hq
    rcases old q n hq with ⟨-, rfl⟩ | ⟨hq, -⟩
    · omega
    · exact h.id_pos q n hq
  · show n ≤ s.nextId + 1
    rw [idOf_made] at hq
    rcases old q n hq with ⟨-, hn⟩ | ⟨-, hn⟩ <;> omega
  · rw [idOf_made] at hq hr
    rcases old q n hq with ⟨rfl, ha⟩ | ⟨hq, ha⟩ <;> rcases old r n hr with ⟨rfl, hb⟩ | ⟨hr, hb⟩
    · rfl
    · omega
    · omega
    · exact h.id_inj q r n hq hr
  · obtain ⟨n, hn⟩ := h.made i c hc
    have hcp : c.poll ≠ p := fun hcp => by rw [hcp, hnone] at hn; cases hn
    exact ⟨n, by rw [idOf_made, Function.update_of_ne hcp, hn]⟩

theorem step (h : Numbering s) (he : RegisterStep fd s e s') : Numbering s' := by
  cases he with
  | make p hp _ => exact h.poll_made hp
  | clone p sel _ _ _ => exact ⟨h.id_pos, h.id_le, h.id_inj, h.made⟩
  | call i c sel _ hp => exact h.moved i s.selectorId fun c' hc' => by cases hc'; exact ⟨_, idOf_of_some hp⟩
  | refuse i c sel _ hp _ => exact h.moved i s.selectorId fun c' hc' => by cases hc'; exact ⟨_, idOf_of_some hp⟩
  | pass i c sel _ hp _ => exact h.moved i s.selectorId fun c' hc' => by cases hc'; exact ⟨_, idOf_of_some hp⟩
  | store i c sel _ hp => exact h.moved i sel.id fun c' hc' => by cases hc'; exact ⟨_, idOf_of_some hp⟩
  | refused i c text _ => exact h.moved i s.selectorId fun c' hc' => nomatch hc'
  | associated i c hc => exact h.moved i s.selectorId fun c' hc' => by cases hc'; exact h.made i c (by rw [hc]; rfl)
  | sysRegister i c sel refuse _ hp => exact (h.changed hp _).moved i s.selectorId fun c' hc' => nomatch hc'
  | reregister p sel token interest opts refuse hp => exact h.changed hp _
  | deregister p sel refuse hp => exact h.changed hp _

theorem of_run {τ : List (RegisterEv π ι)} (h : Run (sharing π ι J fd) τ s) : Numbering s := by
  refine Run.inv (fun s ⟨_, _, hp, hpc⟩ => ?_) (fun _ _ _ hi he => hi.step he) h
  have hnone : ∀ p, s.idOf p = none := fun p => by simp only [Sharing.idOf, hp p, Option.map_none]
  exact ⟨fun p n hn => by simp [hnone] at hn, fun p n hn => by simp [hnone] at hn, fun p q n hn => by simp [hnone] at hn,
    fun i c hc => by rw [hpc] at hc; cases hc⟩

end Numbering

/-! ## What a call has behind it -/

/-- What the history shows of a thread, by where it is. -/
def RegisterPc.Told (τ : List (RegisterEv π ι)) (i : ι) : RegisterPc π J → Prop
  | .store c | .answer c (.ok _) => .passed i c.poll ∈ τ
  | .sysRegister c => .associated i c.poll (.ok ()) ∈ τ
  | _ => True

omit [DecidableEq π] [DecidableEq ι] in
theorem RegisterPc.Told.more {τ : List (RegisterEv π ι)} {i : ι} {pc : RegisterPc π J} (h : pc.Told τ i) (e : RegisterEv π ι) :
    pc.Told (τ ++ [e]) i := by
  cases pc with
  | idle => trivial
  | load c => trivial
  | store c => exact List.mem_append_left _ h
  | answer c res =>
    cases res with
    | error text => trivial
    | ok _ => exact List.mem_append_left _ h
  | sysRegister c => exact List.mem_append_left _ h

section
variable {fd : Fd} {s s' : Sharing π ι J} {τ : List (RegisterEv π ι)} {e : RegisterEv π ι}

theorem told_step (h : ∀ i, (s.pc i).Told τ i) (he : RegisterStep fd s e s') : ∀ i, (s'.pc i).Told (τ ++ [e]) i := by
  have moved : ∀ i pc, pc.Told (τ ++ [e]) i → ∀ j, (update s.pc i pc j).Told (τ ++ [e]) j := fun i pc hpc =>
    (Function.forall_update_iff s.pc fun j pc => pc.Told (τ ++ [e]) j).mpr ⟨hpc, fun j _ => (h j).more e⟩
  have here : e ∈ τ ++ [e] := List.mem_concat_self
  cases he with
  | make p _ _ => exact fun i => (h i).more _
  | clone p sel _ _ _ => exact fun i => (h i).more _
  | call i c sel _ _ => exact moved i _ trivial
  | refuse i c sel _ _ _ => exact moved i _ trivial
  | pass i c sel _ _ _ => exact moved i _ here
  | store i c sel hc _ =>
    have hi := h i
    rw [hc] at hi
    exact moved i _ (List.mem_append_left _ hi)
  | refused i c text _ => exact moved i _ trivial
  | associated i c _ => exact moved i _ here
  | sysRegister i c sel refuse _ _ => exact moved i _ trivial
  | reregister p sel token interest opts refuse _ => exact fun i => (h i).more _
  | deregister p sel refuse _ => exact fun i => (h i).more _

theorem told (h : Run (sharing π ι J fd) τ s) : ∀ i, (s.pc i).Told τ i := by
  refine Run.inv_trace (P := fun τ s => ∀ i, (s.pc i).Told τ i) (fun s hs i => ?_) (fun _ _ _ _ _ hi he => told_step hi he) h
  rw [hs.2.2.2 i]
  trivial

theorem passed_of_ok (h : Run (sharing π ι J fd) τ s) : ∀ i p, .associated i p (.ok ()) ∈ τ → .passed i p ∈ τ := by
  refine Run.inv_trace (P := fun τ _ => ∀ i p, .associated i p (.ok ()) ∈ τ → .passed i p ∈ τ) (fun _ _ i p hp => nomatch hp)
    (fun τ s e s' hr ih he i p hp => ?_) h
  rcases List.mem_append.mp hp with hp | hp
  · exact List.mem_append_left _ (ih i p hp)
  · obtain rfl := List.mem_singleton.mp hp
    cases he with
    | associated i c hc =>
      have hi := told hr i
      rw [hc] at hi
      exact List.mem_append_left _ hi

/-- Past the load and not yet answered. -/
def RegisterPc.Taking (p : π) : RegisterPc π J → Prop
  | .store c | .answer c (.ok _) => c.poll = p
  | _ => False

omit [DecidableEq π] [DecidableEq ι] in
theorem RegisterPc.Taking.cases {p : π} {pc : RegisterPc π J} (h : pc.Taking p) :
    ∃ c, c.poll = p ∧ (pc = .store c ∨ pc = .answer c (.ok ())) := by
  cases pc with
  | idle => exact h.elim
  | load c => exact h.elim
  | store c => exact ⟨c, h, .inl rfl⟩
  | answer c res =>
    cases res with
    | error text => exact h.elim
    | ok _ => exact ⟨c, h, .inr rfl⟩
  | sysRegister c => exact h.elim

theorem answered_step {i : ι} {p : π} (h : .associated i p (.ok ()) ∈ τ ∨ (s.pc i).Taking p) (he : RegisterStep fd s e s') :
    .associated i p (.ok ()) ∈ τ ++ [e] ∨ (s'.pc i).Taking p := by
  rcases h with h | h
  · exact .inl (List.mem_append_left _ h)
  have moved : ∀ j pc, (i = j → .associated i p (.ok ()) ∈ τ ++ [e] ∨ pc.Taking p) →
      .associated i p (.ok ()) ∈ τ ++ [e] ∨ (update s.pc j pc i).Taking p := by
    intro j pc hpc
    by_cases hij : i = j
    · subst hij
      rw [Function.update_self]
      exact hpc rfl
    · rw [Function.update_of_ne hij]
      exact .inr h
  cases he with
  | make q _ _ => exact .inr h
  | clone q sel _ _ _ => exact .inr h
  | call j c sel hc _ => exact moved j _ fun hij => by rw [hij, hc] at h; exact h.elim
  | refuse j c sel hc _ _ => exact moved j _ fun hij => by rw [hij, hc] at h; exact h.elim
  | pass j c sel hc _ _ => exact moved j _ fun hij => by rw [hij, hc] at h; exact h.elim
  | store j c sel hc _ => exact moved j _ fun hij => by rw [hij, hc] at h; exact .inr h
  | refused j c text hc => exact moved j _ fun hij => by rw [hij, hc] at h; exact h.elim
  | associated j c hc =>
    refine moved j _ fun hij => .inl ?_
    rw [hij, hc] at h
    obtain rfl : c.poll = p := h
    rw [hij]
    exact List.mem_concat_self
  | sysRegister j c sel refuse hc _ => exact moved j _ fun hij => by rw [hij, hc] at h; exact h.elim
  | reregister q sel token interest opts refuse _ => exact .inr h
  | deregister q sel refuse _ => exact .inr h

/-- A call that passed the test has been answered `Ok`, or will be. -/
theorem answered (h : Run (sharing π ι J fd) τ s) : ∀ i p, .passed i p ∈ τ → .associated i p (.ok ()) ∈ τ ∨ (s.pc i).Taking p := by
  refine Run.inv_trace (P := fun τ s => ∀ i p, .passed i p ∈ τ → .associated i p (.ok ()) ∈ τ ∨ (s.pc i).Taking p)
    (fun _ _ i p hp => nomatch hp) (fun τ s e s' hr ih he i p hp => ?_) h
  rcases List.mem_append.mp hp with hp | hp
  · exact answered_step (ih i p hp) he
  · obtain rfl := List.mem_singleton.mp hp
    cases he with
    | pass i c sel _ _ _ =>
      right
      show (update s.pc i (.store c) i).Taking c.poll
      rw [Function.update_self]
      rfl

theorem finish (h : Run (sharing π ι J fd) τ s) {i : ι} {p : π} (hp : .passed i p ∈ τ) :
    ∃ path s', Path (sharing π ι J fd) s path s' ∧ (∀ x ∈ path, x.1.Finishes) ∧
      .associated i p (.ok ()) ∈ τ ++ path.map Prod.fst := by
  rcases answered h i p hp with hok | htake
  · exact ⟨[], s, .nil, (fun x hx => nomatch hx), List.mem_append_left _ hok⟩
  obtain ⟨c, rfl, hc | hc⟩ := htake.cases
  · obtain ⟨n, hn⟩ := (Numbering.of_run h).made i c (by rw [hc]; rfl)
    obtain ⟨sel, hsel, -⟩ := exists_of_idOf hn
    have hstored : Path (sharing π ι J fd) s _ _ := Path.nil.step (.store s i c sel hc hsel)
    have hanswered := hstored.step (.associated _ i c (Function.update_self i _ s.pc))
    exact ⟨_, _, hanswered, by simp [RegisterEv.Finishes], by simp⟩
  · exact ⟨_, _, Path.nil.step (RegisterStep.associated s i c hc), by simp [RegisterEv.Finishes], by simp⟩

/-! ## The owner -/

/-- Either no call has stored, or the socket's id is that of the Poll all calls name. -/
structure Owned (τ : List (RegisterEv π ι)) (s : Sharing π ι J) : Prop where
  one : OnePassed τ
  free : s.selectorId = 0 → ∀ i p, .passed i p ∈ τ → ∃ c, c.poll = p ∧ s.pc i = .store c
  taken : s.selectorId ≠ 0 → ∃ p, s.idOf p = some s.selectorId ∧ ∀ i q, .passed i q ∈ τ → q = p

namespace Owned

omit [DecidableEq π] [DecidableEq ι] in
/-- A step that is no load that passes, no store and no clone. -/
theorem quiet (h : Owned τ s) (he : ∀ i p, e ≠ .passed i p) (hs : s'.selectorId = s.selectorId)
    (hid : ∀ p n, s.idOf p = some n → s'.idOf p = some n) (hpc : ∀ i c, s.pc i = .store c → s'.pc i = .store c) :
    Owned (τ ++ [e]) s' := by
  have old : ∀ i p, .passed i p ∈ τ ++ [e] → .passed i p ∈ τ := fun i p hp => mem_of_concat hp (he i p)
  refine ⟨fun i j p q hp hq => h.one i j p q (old i p hp) (old j q hq), fun h0 i p hp => ?_, fun h0 => ?_⟩
  · obtain ⟨c, hc, hi⟩ := h.free (by rw [← hs, h0]) i p (old i p hp)
    exact ⟨c, hc, hpc i c hi⟩
  · obtain ⟨p, hp, hall⟩ := h.taken (by rwa [← hs])
    exact ⟨p, by rw [hs]; exact hid p _ hp, fun i q hq => hall i q (old i q hq)⟩

omit [DecidableEq π] in
/-- A load that passes, apart from the calls for other Polls. -/
theorem passed (h : Owned τ s) (hn : Numbering s) {i : ι} {c : RegisterCall π J} {sel : Numbered J} (hc : s.pc i = .load c)
    (hp : s.polls c.poll = some sel) (htest : ¬ (s.selectorId ≠ 0 ∧ s.selectorId ≠ sel.id))
    (hapart : LoadsApart s (.passed i c.poll)) :
    Owned (τ ++ [.passed i c.poll]) { s with pc := update s.pc i (.store c) } := by
  have before : ∀ j q, .passed j q ∈ τ → q = c.poll := by
    intro j q hq
    by_cases h0 : s.selectorId = 0
    · obtain ⟨c', rfl, hj⟩ := h.free h0 j q hq
      exact hapart i c.poll rfl h0 j c' hj
    · obtain ⟨p, hid, hall⟩ := h.taken h0
      have hsel : s.selectorId = sel.id := by_contra fun hne => htest ⟨h0, hne⟩
      rw [hall j q hq]
      exact hn.id_inj p c.poll _ hid (by rw [hsel]; exact idOf_of_some hp)
  have now : ∀ j q, .passed j q ∈ τ ++ [.passed i c.poll] → .passed j q ∈ τ ∨ (j = i ∧ q = c.poll) := by
    intro j q hq
    rcases List.mem_append.mp hq with hq | hq
    · exact .inl hq
    · cases List.mem_singleton.mp hq
      exact .inr ⟨rfl, rfl⟩
  have names : ∀ j q, .passed j q ∈ τ ++ [.passed i c.poll] → q = c.poll := by
    intro j q hq
    rcases now j q hq with hq | ⟨-, rfl⟩
    · exact before j q hq
    · rfl
  refine ⟨fun j k p q hp hq => (names j p hp).trans (names k q hq).symm, fun h0 j q hq => ?_, fun h0 => ?_⟩
  · rcases now j q hq with hq | ⟨rfl, rfl⟩
    · obtain ⟨c', hc', hj⟩ := h.free h0 j q hq
      have hji : j ≠ i := fun hji => by rw [hji, hc] at hj; cases hj
      exact ⟨c', hc', by show update s.pc i _ j = _; rw [Function.update_of_ne hji, hj]⟩
    · exact ⟨c, rfl, Function.update_self j _ s.pc⟩
  · obtain ⟨p, hid, -⟩ := h.taken h0
    have hsel : s.selectorId = sel.id := by_contra fun hne => htest ⟨h0, hne⟩
    exact ⟨c.poll, by rw [hsel]; exact idOf_of_some hp, names⟩

theorem step (h : Owned τ s) (hn : Numbering s) (ht : ∀ i, (s.pc i).Told τ i) (he : RegisterStep fd s e s')
    (hapart : LoadsApart s e) : Owned (τ ++ [e]) s' := by
  have stays : ∀ j pc, (∀ c, s.pc j ≠ .store c) → ∀ i c, s.pc i = .store c → update s.pc j pc i = .store c := by
    intro j pc hj i c hi
    have hij : i ≠ j := fun hij => hj c (by rw [← hij, hi])
    rw [Function.update_of_ne hij, hi]
  cases he with
  | make p hp _ =>
    refine h.quiet (fun _ _ h => nomatch h) rfl (fun q n hq => ?_) fun _ _ hi => hi
    have hqp : q ≠ p := fun hqp => by
      rw [hqp] at hq
      simp [Sharing.idOf, hp] at hq
    rw [idOf_made, Function.update_of_ne hqp, hq]
  | clone p sel h0 hidle hp =>
    have none : ∀ i q, .passed i q ∉ τ := fun i q hq => by
      obtain ⟨c, -, hc⟩ := h.free h0 i q hq
      rw [hidle i] at hc
      cases hc
    have none : ∀ i q, .passed i q ∉ τ ++ [.cloned p] := fun i q hq => none i q (mem_of_concat hq (by simp))
    exact ⟨fun i _ p _ hp => absurd hp (none i p), fun _ i p hp => absurd hp (none i p),
      fun _ => ⟨p, idOf_of_some hp, fun i q hq => absurd hq (none i q)⟩⟩
  | call i c sel hc _ => exact h.quiet (fun _ _ h => nomatch h) rfl (fun _ _ hq => hq) (stays i _ (by simp [hc]))
  | refuse i c sel hc _ _ => exact h.quiet (fun _ _ h => nomatch h) rfl (fun _ _ hq => hq) (stays i _ (by simp [hc]))
  | pass i c sel hc hp htest => exact h.passed hn hc hp htest hapart
  | store i c sel hc hp =>
    have hi := ht i
    rw [hc] at hi
    have hpos := hn.id_pos c.poll sel.id (idOf_of_some hp)
    have old : ∀ j q, .passed j q ∈ τ ++ [.stored i c.poll] → .passed j q ∈ τ := fun j q hq => mem_of_concat hq (by simp)
    refine ⟨fun j k p q hp hq => h.one j k p q (old j p hp) (old k q hq), fun h0 => ?_, fun _ => ?_⟩
    · exact absurd h0 (Nat.ne_of_gt hpos)
    · exact ⟨c.poll, idOf_of_some hp, fun j q hq => h.one j i q c.poll (old j q hq) hi⟩
  | refused i c text hc => exact h.quiet (fun _ _ h => nomatch h) rfl (fun _ _ hq => hq) (stays i _ (by simp [hc]))
  | associated i c hc => exact h.quiet (fun _ _ h => nomatch h) rfl (fun _ _ hq => hq) (stays i _ (by simp [hc]))
  | sysRegister i c sel refuse hc hp =>
    exact h.quiet (fun _ _ h => nomatch h) rfl (fun q n hq => by rw [idOf_changed hp]; exact hq) (stays i _ (by simp [hc]))
  | reregister p sel token interest opts refuse hp =>
    exact h.quiet (fun _ _ h => nomatch h) rfl (fun q n hq => by rw [idOf_changed hp]; exact hq) fun _ _ hi => hi
  | deregister p sel refuse hp =>
    exact h.quiet (fun _ _ h => nomatch h) rfl (fun q n hq => by rw [idOf_changed hp]; exact hq) fun _ _ hi => hi

theorem of_run (h : Run ((sharing π ι J fd).restrict LoadsApart) τ s) : Owned τ s := by
  refine Run.inv_trace (P := Owned) (fun s hs => ?_) (fun τ s e s' hr hi he => ?_) h
  · exact ⟨(fun _ _ _ _ hp => nomatch hp), (fun _ _ _ hp => nomatch hp), fun h0 => absurd hs.1 h0⟩
  · have hr := hr.of_restrict
    exact hi.step (Numbering.of_run hr) (told hr) he.1 he.2

end Owned

/-- The calls that pass the test name one Poll exactly when no load of the id 0 falls
    between the load and the store of a call for another Poll. -/
theorem passed_one_poll_iff (h : Run (sharing π ι J fd) τ s) :
    OnePassed τ ↔ Run ((sharing π ι J fd).restrict LoadsApart) τ s := by
  refine ⟨fun hone => ?_, fun hr => (Owned.of_run hr).one⟩
  induction h with
  | init hi => exact .init hi
  | @step τ s s' e hr he ih =>
    have hone' : OnePassed τ := fun i j p q hp hq =>
      hone i j p q (List.mem_append_left _ hp) (List.mem_append_left _ hq)
    refine (ih hone').step ⟨he, ?_⟩
    rintro i p rfl - j c hj
    have hpassed := told hr j
    rw [hj] at hpassed
    exact hone j i c.poll p (List.mem_append_left _ hpassed) List.mem_concat_self

/-! ## Who has the socket -/

omit [DecidableEq ι] in
theorem holds_changed {p q : π} (sel' : Numbered J) (pc : ι → RegisterPc π J)
    (h : Sharing.Holds { s with polls := update s.polls p (some sel'), pc := pc } fd q) :
    (q = p ∧ (sel'.kernel fd).isSome) ∨ s.Holds fd q := by
  obtain ⟨sel'', hq, hk⟩ := h
  change update s.polls p _ q = some sel'' at hq
  by_cases hqp : q = p
  · subst hqp
    rw [Function.update_self] at hq
    cases hq
    exact .inl ⟨rfl, hk⟩
  · rw [Function.update_of_ne hqp] at hq
    exact .inr ⟨sel'', hq, hk⟩

theorem reregister_held {sel : Selector J} {token : TokenEntry} {interest : Ready} {opts : PollOpt} {refuse : Bool}
    (h : ((Sys.reregister sel fd token interest opts refuse).2.kernel fd).isSome) : (sel.kernel fd).isSome := by
  unfold Sys.reregister Sys.epollCtl at h
  cases hk : sel.kernel fd with
  | none => cases refuse <;> simp [hk] at h
  | some info => rfl

theorem deregister_held {sel : Selector J} {refuse : Bool}
    (h : ((Sys.deregister sel fd refuse).2.kernel fd).isSome) : (sel.kernel fd).isSome := by
  unfold Sys.deregister Sys.epollCtl at h
  cases hk : sel.kernel fd with
  | none => cases refuse <;> simp [hk] at h
  | some info => rfl

/-- A Poll has the socket by a call that was answered `Ok`. -/
theorem holds_answered (h : Run (sharing π ι J fd) τ s) : ∀ p, s.Holds fd p → ∃ i, .associated i p (.ok ()) ∈ τ := by
  refine Run.inv_trace (P := fun τ s => ∀ p, s.Holds fd p → ∃ i, .associated i p (.ok ()) ∈ τ) (fun s hs p hp => ?_)
    (fun τ s e s' hr ih he p hp => ?_) h
  · obtain ⟨sel, hsel, -⟩ := hp
    rw [hs.2.2.1 p] at hsel
    cases hsel
  have old : s.Holds fd p → ∃ i, .associated i p (.ok ()) ∈ τ ++ [e] := fun hp =>
    (ih p hp).imp fun _ hi => List.mem_append_left _ hi
  cases he with
  | make q hq _ =>
    rcases holds_changed (⟨.new, s.nextId + 1⟩ : Numbered J) s.pc hp with ⟨rfl, hk⟩ | hp
    · cases hk
    · exact old hp
  | clone q sel _ _ _ => exact old hp
  | call i c sel _ _ => exact old hp
  | refuse i c sel _ _ _ => exact old hp
  | pass i c sel _ _ _ => exact old hp
  | store i c sel _ _ => exact old hp
  | refused i c text _ => exact old hp
  | associated i c _ => exact old hp
  | sysRegister i c sel refuse hc hsel =>
    rcases holds_changed _ _ hp with ⟨rfl, -⟩ | hp
    · have hi := told hr i
      rw [hc] at hi
      exact ⟨i, List.mem_append_left _ hi⟩
    · exact old hp
  | reregister q sel token interest opts refuse hsel =>
    rcases holds_changed _ _ hp with ⟨rfl, hk⟩ | hp
    · exact old ⟨sel, hsel, reregister_held hk⟩
    · exact old hp
  | deregister q sel refuse hsel =>
    rcases holds_changed _ _ hp with ⟨rfl, hk⟩ | hp
    · exact old ⟨sel, hsel, deregister_held hk⟩
    · exact old hp

theorem one_poll_of_passed (h : Run (sharing π ι J fd) τ s) (hone : OnePassed τ) :
    OneAnswered τ ∧ ∀ p q, s.Holds fd p → s.Holds fd q → p = q := by
  have hans : OneAnswered τ := fun i j p q hp hq => hone i j p q (passed_of_ok h i p hp) (passed_of_ok h j q hq)
  refine ⟨hans, fun p q hp hq => ?_⟩
  obtain ⟨i, hi⟩ := holds_answered h p hp
  obtain ⟨j, hj⟩ := holds_answered h q hq
  exact hans i j p q hi hj

/-- The steps of a run all meet `LoadsApart` exactly when, however the calls past their
    load go on, all that are answered `Ok` name one Poll and one Poll at most has the
    socket. -/
theorem one_poll_iff (h : Run (sharing π ι J fd) τ s) :
    Run ((sharing π ι J fd).restrict LoadsApart) τ s ↔
      ∀ path s', Path (sharing π ι J fd) s path s' → (∀ x ∈ path, x.1.Finishes) →
        OneAnswered (τ ++ path.map Prod.fst) ∧ ∀ p q, s'.Holds fd p → s'.Holds fd q → p = q := by
  refine (passed_one_poll_iff h).symm.trans ⟨fun hone path s' hpath hfin => ?_, fun hall i j p q hp hq => ?_⟩
  · have old : ∀ i p, .passed i p ∈ τ ++ path.map Prod.fst → .passed i p ∈ τ := by
      intro i p hp
      refine (List.mem_append.mp hp).resolve_right fun hp => ?_
      obtain ⟨x, hx, hxe⟩ := List.mem_map.mp hp
      have hx := hfin x hx
      rw [hxe] at hx
      exact hx
    exact one_poll_of_passed (hpath.run h) fun i j p q hp hq => hone i j p q (old i p hp) (old j q hq)
  · obtain ⟨path₁, s₁, hpath₁, hfin₁, hok₁⟩ := finish h hp
    obtain ⟨path₂, s₂, hpath₂, hfin₂, hok₂⟩ := finish (hpath₁.run h) (List.mem_append_left _ hq)
    have hone := (hall _ _ (hpath₁.trans hpath₂) fun x hx => (List.mem_append.mp hx).elim (hfin₁ x) (hfin₂ x)).1
    rw [List.map_append, ← List.append_assoc] at hone
    exact hone i j p q (List.mem_append_left _ hok₁) hok₂

end

/-! ## Two Polls -/

def listen (p : Bool) : RegisterCall Bool Unit := ⟨p, ⟨.acceptEvent, ⟨7⟩⟩, Ready.readable, PollOpt.edge, ()⟩

/-- Two threads are about to load the id, each for a Poll of its own. -/
def bothAsk : Sharing Bool Bool Unit := ⟨0, 2, fun p => some ⟨.new, if p then 2 else 1⟩, fun i => .load (listen i)⟩

theorem run_bothAsk :
    Run (sharing Bool Bool Unit 3#32) [.made false, .made true, .called false false, .called true true] bothAsk := by
  have h0 : Run (sharing Bool Bool Unit 3#32) [] ⟨0, 0, fun _ => none, fun _ => .idle⟩ :=
    .init ⟨rfl, rfl, fun _ => rfl, fun _ => rfl⟩
  have h2 := (h0.step (.make _ false rfl (by decide))).step (.make _ true rfl (by decide))
  have h4 := (h2.step (.call _ false (listen false) ⟨.new, 1⟩ rfl rfl)).step (.call _ true (listen true) ⟨.new, 2⟩ rfl rfl)
  have hpolls : update (update (fun _ => none) false (some ⟨.new, 1⟩)) true (some ⟨.new, 2⟩) = bothAsk.polls := by
    funext p
    cases p <;> rfl
  have hpc : update (update (fun _ => .idle) false (.load (listen false))) true (.load (listen true)) = bothAsk.pc := by
    funext i
    cases i <;> rfl
  rw [hpolls, hpc] at h4
  exact h4

/-- The second call reads the id that the first has stored. -/
theorem one_poll_iff_refused :
    ∃ τ s, .associated false false (.ok ()) ∈ τ ∧ .associated true true (.error "Socket already registered") ∈ τ ∧
      Run ((sharing Bool Bool Unit 3#32).restrict LoadsApart) τ s ∧
        ∀ path s', Path (sharing Bool Bool Unit 3#32) s path s' → (∀ x ∈ path, x.1.Finishes) →
          OneAnswered (τ ++ path.map Prod.fst) ∧ ∀ p q, s'.Holds 3#32 p → s'.Holds 3#32 q → p = q := by
  have h6 := (run_bothAsk.step (.pass _ false (listen false) ⟨.new, 1⟩ rfl rfl (by decide))).step
    (.store _ false (listen false) ⟨.new, 1⟩ rfl rfl)
  have h8 := (h6.step (.refuse _ true (listen true) ⟨.new, 2⟩ rfl rfl (by decide))).step
    (.refused _ true (listen true) "Socket already registered" rfl)
  have h9 := h8.step (.associated _ false (listen false) rfl)
  have hr := (passed_one_poll_iff h9).mp fun i j p q hp hq => by
    simp only [listen, List.nil_append, List.cons_append, List.mem_cons, RegisterEv.passed.injEq, reduceCtorEq,
      List.not_mem_nil, false_or, or_false] at hp hq
    rw [hp.2, hq.2]
  exact ⟨_, _, by simp [listen], by simp [listen], hr, (one_poll_iff h9).mp hr⟩

/-- Both calls load 0 before either stores: both are answered `Ok`, and both epoll
    instances have the socket. -/
theorem two_loads_before_two_stores :
    ∃ s, Run (sharing Bool Bool Unit 3#32)
        [.made false, .made true, .called false false, .called true true, .passed false false, .passed true true,
          .stored false false, .stored true true, .associated false false (.ok ()), .associated true true (.ok ()),
          .registered false false (.ok ()), .registered true true (.ok ())] s ∧
      s.Holds 3#32 false ∧ s.Holds 3#32 true ∧
        ¬ ∀ τ s, Run (sharing Bool Bool Unit 3#32) τ s → OneAnswered τ ∧ ∀ p q, s.Holds 3#32 p → s.Holds 3#32 q → p = q := by
  have h6 := (run_bothAsk.step (.pass _ false (listen false) ⟨.new, 1⟩ rfl rfl (by decide))).step
    (.pass _ true (listen true) ⟨.new, 2⟩ rfl rfl (by decide))
  have h8 := (h6.step (.store _ false (listen false) ⟨.new, 1⟩ rfl rfl)).step (.store _ true (listen true) ⟨.new, 2⟩ rfl rfl)
  have h10 := (h8.step (.associated _ false (listen false) rfl)).step (.associated _ true (listen true) rfl)
  have h12 := (h10.step (.sysRegister _ false (listen false) ⟨.new, 1⟩ false rfl rfl)).step
    (.sysRegister _ true (listen true) ⟨.new, 2⟩ false rfl rfl)
  refine ⟨_, h12, ⟨_, rfl, rfl⟩, ⟨_, rfl, rfl⟩, fun hall => ?_⟩
  have hone := (hall _ _ h12).1 false true false true (by simp [listen]) (by simp [listen])
  cases hone

end Sickle.Net
