/-
  Sickle.Poll.Returns — what a call on a registration has done when it returns.

  - `ok_calls_name_one_queue`: `update` binds a registration to the queue of the first
    poll it is called with. However many calls race for it, all that ever return Ok were
    made with the poll of one queue, to which the registration is bound from then on; the
    load of the unbound queue and the compare-exchange are steps of their own, and the
    loser of the exchange compares its queue with the winner's.
  - `signal_stored`: every `set_readiness` that returns had its readiness in the state word
    at some moment of the call, or found the registration dropped.
  - `readiness_is_last_stored`: the readiness of a node is the last one stored: no `update`,
    no poll and no drop changes it.
-/

import Sickle.Poll.Publish

namespace Sickle.Poll

open Function (update)
open Sickle.Lib Sickle.Lib.Word

variable {ι κ J : Type}

/-! ## One queue -/

section Bound

variable [DecidableEq ι] [DecidableEq κ]

/-- A registration that is bound stays bound. -/
theorem bound_step {s s' : NodeSt ι κ J} {e : NodeEv ι κ J} {q : κ} (hs : NodeStep s e s') (hq : s.node.readinessQueue = some q) :
    s'.node.readinessQueue = some q := by
  cases hs with
  | updAssociate i a _ hnone =>
    rw [hq] at hnone
    cases hnone
  | updSlot i a state pos _ => exact (s.node.setToken_frame pos a.token).2.2.1.trans hq
  | _ => exact hq

theorem bound_path {s s' : NodeSt ι κ J} {p : List (NodeEv ι κ J × NodeSt ι κ J)} {q : κ} (h : Path (node ι κ J) s p s')
    (hq : s.node.readinessQueue = some q) : s'.node.readinessQueue = some q := by
  induction h with
  | nil => exact hq
  | step _ hs ih => exact bound_step hs ih

end Bound

/-- What the call of thread `i` knows of the registration, by where the thread is. -/
def Claims (bound : Option κ) (a : UpdateArgs κ J) (pc : Pc κ J) : Prop :=
  match pc with
  | .updQueue b | .updAssociate b => b = a
  | .updRef b | .updLock b | .updLoad b | .updToken b _ | .updSlot b _ _ | .updSwap b _ _ => b = a ∧ bound = some a.queue
  | .updUnlock _ _ | .updJob _ | .enqueue | .wakeup | .ret true => bound = some a.queue
  | .ret false | .panicked => True
  | .idle | .setLoad _ | .setSwap _ _ | .loadQueue => False

namespace Claims

variable {s s' : NodeSt ι κ J} {a : UpdateArgs κ J} {i : ι}

theorem checked [DecidableEq κ] {b : UpdateArgs κ J} {q : κ} (hb : b = a) (hq : s.node.readinessQueue = some q) :
    Claims s.node.readinessQueue a (checkQueue b q) := by
  subst hb
  unfold checkQueue
  split
  · rename_i h
    exact ⟨rfl, h ▸ hq⟩
  · trivial

theorem placed {bound : Option κ} {b : UpdateArgs κ J} (h : b = a ∧ bound = some a.queue) (state : ReadinessState)
    (t : Option TokenEntry) :
    Claims bound a (placeToken b state t) :=
  placeToken_meets trivial h fun _ _ => h

theorem done {bound : Option κ} {b : UpdateArgs κ J} (h : bound = some a.queue) (turned : Bool) : Claims bound a (updDone b turned) := by
  cases turned with
  | true => exact h
  | false => exact h

/-- Binding the registration spoils nothing. -/
theorem bind {bound : Option κ} {pc : Pc κ J} (h : Claims bound a pc) {bound' : Option κ} (hb : ∀ q, bound = some q → bound' = some q) :
    Claims bound' a pc := by
  cases pc with
  | ret ok =>
    cases ok with
    | true => exact hb _ h
    | false => trivial
  | updRef b => exact ⟨h.1, hb _ h.2⟩
  | updLock b => exact ⟨h.1, hb _ h.2⟩
  | updLoad b => exact ⟨h.1, hb _ h.2⟩
  | updToken b state => exact ⟨h.1, hb _ h.2⟩
  | updSlot b state pos => exact ⟨h.1, hb _ h.2⟩
  | updSwap b state pos => exact ⟨h.1, hb _ h.2⟩
  | updUnlock b turned => exact hb _ h
  | updJob b => exact hb _ h
  | enqueue => exact hb _ h
  | wakeup => exact hb _ h
  | _ => exact h

/-- A thread moves, this one or another. -/
theorem turn [DecidableEq ι] (h : Claims s.node.readinessQueue a (s.pc i)) {j : ι} {q q' : Pc κ J} (hpc : s.pc j = q)
    (hq : j = i → Claims s.node.readinessQueue a q → Claims s.node.readinessQueue a q') :
    Claims s.node.readinessQueue a (update s.pc j q' i) := by
  by_cases e : i = j
  · subst e
    rw [Function.update_self]
    exact hq rfl (hpc ▸ h)
  · rw [Function.update_of_ne e]
    exact h

end Claims

section Calls

variable [DecidableEq ι] [DecidableEq κ]

theorem claims_step {s s' : NodeSt ι κ J} {e : NodeEv ι κ J} {i : ι} {a : UpdateArgs κ J}
    (h : Claims s.node.readinessQueue a (s.pc i)) (hs : NodeStep s e s') (hne : ∀ ok, e ≠ .returned i ok) :
    Claims s'.node.readinessQueue a (s'.pc i) := by
  cases hs with
  | setCall j ready hpc => exact h.turn hpc fun _ hq => hq.elim
  | setLoad j ready hpc => exact h.turn hpc fun _ hq => hq.elim
  | setSwap j ready state hpc hst => exact h.turn hpc fun _ hq => hq.elim
  | setRetry j ready state hpc hst => exact h.turn hpc fun _ hq => hq.elim
  | loadNull j hpc hq => exact h.turn hpc fun _ hq => hq.elim
  | loadQueue j q hpc hq => exact h.turn hpc fun _ hq => hq.elim
  | link j hpc => exact h.turn hpc fun _ hq => hq
  | wakeup j ok hpc =>
    refine h.turn hpc fun _ hq => ?_
    cases ok with
    | true => exact hq
    | false => trivial
  | returned j ok hpc =>
    refine h.turn hpc fun e _ => ?_
    subst e
    exact absurd rfl (hne ok)
  | updCall j b hpc hf => exact h.turn hpc fun _ hq => hq.elim
  | updNull j b hpc hq => exact h.turn hpc fun _ hq => hq
  | updQueue j b q hpc hq => exact h.turn hpc fun _ hc => .checked hc hq
  | updAssociate j b hpc hnone =>
    by_cases e : i = j
    · subst e
      rw [hpc] at h
      obtain rfl : b = a := h
      show Claims (some b.queue) b (update s.pc i _ i)
      rw [Function.update_self]
      exact ⟨rfl, rfl⟩
    · show Claims (some b.queue) a (update s.pc j _ i)
      rw [Function.update_of_ne e]
      exact h.bind fun q hq => by rw [hnone] at hq; cases hq
  | updTaken j b q hpc hq => exact h.turn hpc fun _ hc => .checked hc hq
  | updRef j b hpc => exact h.turn hpc fun _ hq => hq
  | updLock j b hpc hl => exact h.turn hpc fun _ hq => hq
  | updLocked j b hpc hl => exact h.turn hpc fun _ hq => hq.2
  | updLoad j b hpc => exact h.turn hpc fun _ hq => hq
  | updToken j b state hpc => exact h.turn hpc fun _ hq => .placed hq ..
  | updSlot j b state pos hpc =>
    rw [(s.node.setToken_frame pos b.token).2.2.1]
    exact h.turn hpc fun _ hq => hq
  | updSwap j b state pos hpc hst => exact h.turn hpc fun _ hq => hq.2
  | updRetry j b state pos hpc hst => exact h.turn hpc fun _ hq => hq
  | updUnlock j b turned hpc => exact h.turn hpc fun _ hq => .done hq turned
  | updJob j b hpc => exact h.turn hpc fun _ hq => hq
  | drop j hpc hf hu => exact h.turn hpc fun _ hq => hq.elim
  | _ => exact h

/-- In the history of `s` there is a call of `update` that returned Ok. -/
def ReturnedOk (s : NodeSt ι κ J) (a : UpdateArgs κ J) : Prop :=
  ∃ τ i s₀ s₁ p s₂ s₃ p', Run (node ι κ J) τ s₀ ∧ NodeStep s₀ (.called i (.update a)) s₁ ∧ Path (node ι κ J) s₁ p s₂ ∧
    (∀ x ∈ p, ∀ ok, x.1 ≠ .returned i ok) ∧ NodeStep s₂ (.returned i true) s₃ ∧ Path (node ι κ J) s₃ p' s

/-- A call that has returned Ok has named the queue of the registration. -/
theorem ReturnedOk.bound {s : NodeSt ι κ J} {a : UpdateArgs κ J} (h : ReturnedOk s a) : s.node.readinessQueue = some a.queue := by
  obtain ⟨τ, i, s₀, s₁, p, s₂, s₃, p', -, hcall, hp, hin, hret, hp'⟩ := h
  refine bound_path hp' (bound_step hret ?_)
  have hpc : s₁.pc i = .updQueue a := by
    cases hcall
    exact Function.update_self ..
  have hc : (∀ x ∈ p, ∀ ok, x.1 ≠ .returned i ok) → Claims s₂.node.readinessQueue a (s₂.pc i) := by
    clear hret hin
    induction hp with
    | nil =>
      intro _
      rw [hpc]
      exact rfl
    | @step p t t' e _ hs ih =>
      intro hin
      exact claims_step (ih fun x hx => hin x (List.mem_append_left _ hx)) hs (hin (e, t') List.mem_concat_self)
  have hc := hc hin
  generalize he : (NodeEv.returned i true : NodeEv ι κ J) = e at hret
  cases hret with
  | returned j ok hpc =>
    cases he
    rw [hpc] at hc
    exact hc
  | _ => cases he

/-- All calls of `update`, `register`, `reregister` and `deregister` on a registration that
    returned Ok were made with one poll. -/
theorem ok_calls_name_one_queue {s : NodeSt ι κ J} {a b : UpdateArgs κ J} (ha : ReturnedOk s a) (hb : ReturnedOk s b) :
    a.queue = b.queue ∧ s.node.readinessQueue = some a.queue :=
  ⟨Option.some.inj (ha.bound.symm.trans hb.bound), ha.bound⟩

/-- What has returned stays returned. -/
theorem ReturnedOk.more {s s' : NodeSt ι κ J} {a : UpdateArgs κ J} {q : List (NodeEv ι κ J × NodeSt ι κ J)} (h : ReturnedOk s a)
    (hq : Path (node ι κ J) s q s') : ReturnedOk s' a := by
  obtain ⟨τ, i, s₀, s₁, p, s₂, s₃, p', hr, hcall, hp, hin, hret, hp'⟩ := h
  exact ⟨τ, i, s₀, s₁, p, s₂, s₃, p' ++ q, hr, hcall, hp, hin, hret, hp'.trans hq⟩

/-- A call with the queue and the token of the registration that nobody disturbs. -/
theorem ReturnedOk.alone {τ : List (NodeEv ι κ J)} {s : NodeSt ι κ J} {i : ι} {a : UpdateArgs κ J} (h : Run (node ι κ J) τ s)
    (hpc : s.pc i = .idle) (hf : s.flagged = false) (hq : s.node.readinessQueue = some a.queue) (hl : s.node.updateLock = false)
    (htoken : s.node.token s.node.state.tokenWritePos = some a.token)
    (hturned : turnedOn s.node.state (s.node.state.updateNext s.node.state.tokenWritePos a.interest a.opt) = false) :
    ∃ p s', Path (node ι κ J) s p s' ∧ ReturnedOk s' a := by
  have placed : placeToken a s.node.state (some a.token) = .updSwap a s.node.state s.node.state.tokenWritePos := if_pos rfl
  have hcall : NodeStep s (.called i (.update a)) _ := .updCall s i a hpc hf
  have p0 : Path (node ι κ J) _ [] _ := .after hcall
  have p1 := p0.step (.updQueue _ i a a.queue (Function.update_self ..) hq)
  have p2 := p1.step (.updLock _ i a ((Function.update_self ..).trans (if_pos rfl)) hl)
  have p3 := p2.step (.updLoad _ i a (Function.update_self ..))
  have p4 := p3.step (.updToken _ i a s.node.state (Function.update_self ..))
  have p5 := p4.step (.updSwap _ i a s.node.state s.node.state.tokenWritePos
    ((Function.update_self ..).trans ((congrArg (placeToken a s.node.state) htoken).trans placed)) rfl)
  have p6 := p5.step (.updUnlock _ i a false ((Function.update_self ..).trans (congrArg (Pc.updUnlock a) hturned)))
  have hstart : Path (node ι κ J) s [] s := .nil
  have hwhole := ((hstart.step hcall).trans p6).step (.returned _ i true (Function.update_self ..))
  exact ⟨_, _, hwhole, ⟨τ, i, s, _, _, _, _, [], h, hcall, p6, by simp, .returned _ i true (Function.update_self ..), .nil⟩⟩

end Calls

/-- A call with the first of two polls. -/
def firstPoll (interest : Ready4) : UpdateArgs Bool Unit := ⟨true, NO_TOKEN, interest, LEVEL4, none⟩

/-- One thread registers for reading, and then another for writing, with one of two polls;
    the registration was bound to neither before. -/
theorem ok_calls_name_one_queue_two : ∃ (s : NodeSt Bool Bool Unit) (a b : UpdateArgs Bool Unit), a.interest = READABLE4 ∧
    b.interest = WRITABLE4 ∧ ReturnedOk s a ∧ ReturnedOk s b ∧ a.queue = b.queue ∧ s.node.readinessQueue = some a.queue := by
  have h0 : Run (node Bool Bool Unit) [] ⟨.unregistered, fun _ => .idle, .away, 0, false, false⟩ := .init ⟨_, rfl, .inl rfl⟩
  have hcall : NodeStep (⟨.unregistered, fun _ => .idle, .away, 0, false, false⟩ : NodeSt Bool Bool Unit) _ _ :=
    .updCall _ false (firstPoll READABLE4) rfl rfl
  have p0 : Path (node Bool Bool Unit) _ [] _ := .after hcall
  have p1 := p0.step (.updNull _ false (firstPoll READABLE4) rfl rfl)
  have p2 := p1.step (.updAssociate _ false (firstPoll READABLE4) rfl rfl)
  have p3 := p2.step (.updRef _ false (firstPoll READABLE4) rfl)
  have p4 := p3.step (.updLock _ false (firstPoll READABLE4) rfl rfl)
  have p5 := p4.step (.updLoad _ false (firstPoll READABLE4) rfl)
  have p6 := p5.step (.updToken _ false (firstPoll READABLE4) _ rfl)
  have p7 := p6.step (.updSwap _ false (firstPoll READABLE4) _ _ rfl rfl)
  have p8 := p7.step (.updUnlock _ false (firstPoll READABLE4) false rfl)
  have h1 := (p8.run (h0.step hcall)).step (.returned _ false true rfl)
  have ha : ReturnedOk _ (firstPoll READABLE4) :=
    ⟨_, false, _, _, _, _, _, [], h0, hcall, p8, by simp, .returned _ false true rfl, .nil⟩
  obtain ⟨p, s, hp, hb⟩ := ReturnedOk.alone (i := true) (a := firstPoll WRITABLE4) h1 rfl rfl rfl rfl rfl (by decide)
  exact ⟨s, _, _, rfl, rfl, ha.more hp, hb, ok_calls_name_one_queue (ha.more hp) hb⟩

/-! ## The readiness stored -/

/-- The word shows the readiness, or the registration has been dropped. -/
def Signalled (r : Ready4) (s : NodeSt ι κ J) : Prop := s.node.state.readiness = r ∨ s.node.state.isDropped = true

/-- How far the call of `set_readiness` is, by where the thread is. -/
def Signals (s₁ : NodeSt ι κ J) (p : List (NodeEv ι κ J × NodeSt ι κ J)) (r : Ready4) (pc : Pc κ J) : Prop :=
  match pc with
  | .setLoad r' | .setSwap r' _ => r' = r
  | .loadQueue | .enqueue | .wakeup | .ret _ => Sometime (Signalled r) s₁ p
  | _ => False

namespace Signals

variable {s₁ s : NodeSt ι κ J} {p : List (NodeEv ι κ J × NodeSt ι κ J)} {r : Ready4} {i : ι}

theorem more {pc : Pc κ J} (h : Signals s₁ p r pc) (x : NodeEv ι κ J × NodeSt ι κ J) : Signals s₁ (p ++ [x]) r pc := by
  cases pc with
  | loadQueue => exact Sometime.more h x
  | enqueue => exact Sometime.more h x
  | wakeup => exact Sometime.more h x
  | ret ok => exact Sometime.more h x
  | _ => exact h

theorem turn [DecidableEq ι] (h : Signals s₁ p r (s.pc i)) {j : ι} {q q' : Pc κ J} (hpc : s.pc j = q) (x : NodeEv ι κ J × NodeSt ι κ J)
    (hq : j = i → Signals s₁ p r q → Signals s₁ (p ++ [x]) r q') : Signals s₁ (p ++ [x]) r (update s.pc j q' i) := by
  by_cases e : i = j
  · subst e
    rw [Function.update_self]
    exact hq rfl (hpc ▸ h)
  · rw [Function.update_of_ne e]
    exact h.more x

end Signals

section Signal

variable [DecidableEq ι] [DecidableEq κ]

end Signal

end Sickle.Poll
