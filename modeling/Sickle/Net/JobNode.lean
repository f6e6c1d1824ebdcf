/-
  Sickle.Net.JobNode — the node of a call of `enqueue_job`.

  A call's closure is in one place at a time: with the thread of the call, which nobody
  disturbs (`Before`); in the node, from the link on, while the node is in the queue or in
  the poller's hands (`Place`); in an entry of the destination; or it ran. What the node
  holds is known to the last bit until the poll has taken the closure out of it
  (`ByCaller`, `Registered`); from then on the node has no closure of a call any more
  (`Clean`), and that is so of the nodes of other registrations throughout.

  - `stage_step`: a step of the node moves the closure on, or leaves it where it is.
-/

import Sickle.Net.EventLoop

namespace Sickle.Net

open Function (update)
open Sickle.Lib Sickle.Lib.Chain Sickle.Poll

variable {κ ν : Type}

/-! ## The words and the node of a call -/

def created : ReadinessState := .new Ready.empty PollOpt.empty
def signalled : ReadinessState := created.setReadinessNext READABLE4
def armed : ReadinessState := signalled.updateNext 1#64 READABLE4 EDGE4
def polled : ReadinessState := armed.pollNext

theorem setTop_created : (setTop READABLE4 created : Pc Unit (Closure ν)) = .setSwap READABLE4 created :=
  if_neg (by decide)

theorem setDone_signalled : (setDone created signalled : Pc Unit (Closure ν)) = .ret true := if_neg (by decide)

theorem turnedOn_armed : turnedOn signalled armed = true := by decide

theorem pollTop_armed : pollTop armed = .swap armed := by decide

theorem settle_polled : settle polled armed.effectiveReadiness = .token polled Ready.readable := by decide

/-- The node of `new2`, and what a call changes of it. -/
def callNode (state : ReadinessState) (queue : Option Unit) (refCount : Nat) (updateLock : Bool) (token1 : TokenEntry)
    (job : Option (Closure ν)) : ReadinessNode Unit (Closure ν) where
  state := state
  token0 := NO_TOKEN
  token1 := token1
  token2 := NO_TOKEN
  updateLock := updateLock
  readinessQueue := queue
  refCount := refCount
  job := job

theorem placeToken_signalled (n : ν) {queue : Option Unit} {refCount : Nat} {updateLock : Bool} {job : Option (Closure ν)} :
    placeToken (jobArgs n) signalled
        ((callNode signalled queue refCount updateLock NO_TOKEN job).token signalled.tokenWritePos) =
      .updSlot (jobArgs n) signalled 1#64 := by
  have ht : (callNode signalled queue refCount updateLock NO_TOKEN job).token signalled.tokenWritePos = some NO_TOKEN := by
    unfold ReadinessNode.token
    rw [show signalled.tokenWritePos.toNat = 0 by decide]
    rfl
  have hne : ¬ (jobArgs n).token = NO_TOKEN := (by decide : ¬ OTHER_TOKEN = NO_TOKEN)
  rw [ht]
  unfold placeToken
  simp only [if_neg hne, show signalled.nextTokenPos = some 1#64 by decide]

theorem token_polled {queue : Option Unit} {refCount : Nat} {updateLock : Bool} {job : Option (Closure ν)} :
    (callNode polled queue refCount updateLock OTHER_TOKEN job).token polled.tokenReadPos = some OTHER_TOKEN := by
  unfold ReadinessNode.token
  rw [show polled.tokenReadPos.toNat = 1 by decide]
  rfl

/-- The node as the thread of the call leaves it to the queue, and as the poll's transition
    does. -/
def armedNode (n : ν) : ReadinessNode Unit (Closure ν) := callNode armed (some ()) 3 false OTHER_TOKEN (some (some n))
def polledNode (n : ν) : ReadinessNode Unit (Closure ν) := callNode polled (some ()) 3 false OTHER_TOKEN (some (some n))

/-- The call, its thread on the node, and the node, up to the link. -/
inductive Before (n : ν) : CallPc → Pc Unit (Closure ν) → ReadinessNode Unit (Closure ν) → Prop
  | idle : Before n .idle .idle (callNode created none 2 false NO_TOKEN none)
  | begun : Before n .begun .idle (callNode created none 2 false NO_TOKEN none)
  | setLoad : Before n .signalling (.setLoad READABLE4) (callNode created none 2 false NO_TOKEN none)
  | setSwap : Before n .signalling (.setSwap READABLE4 created) (callNode created none 2 false NO_TOKEN none)
  | set : Before n .signalling (.ret true) (callNode signalled none 2 false NO_TOKEN none)
  | signalled : Before n .signalled .idle (callNode signalled none 2 false NO_TOKEN none)
  | updQueue : Before n .registering (.updQueue (jobArgs n)) (callNode signalled none 2 false NO_TOKEN none)
  | updAssociate : Before n .registering (.updAssociate (jobArgs n)) (callNode signalled none 2 false NO_TOKEN none)
  | updRef : Before n .registering (.updRef (jobArgs n)) (callNode signalled (some ()) 2 false NO_TOKEN none)
  | updLock : Before n .registering (.updLock (jobArgs n)) (callNode signalled (some ()) 3 false NO_TOKEN none)
  | updLoad : Before n .registering (.updLoad (jobArgs n)) (callNode signalled (some ()) 3 true NO_TOKEN none)
  | updToken : Before n .registering (.updToken (jobArgs n) signalled) (callNode signalled (some ()) 3 true NO_TOKEN none)
  | updSlot : Before n .registering (.updSlot (jobArgs n) signalled 1#64)
      (callNode signalled (some ()) 3 true NO_TOKEN none)
  | updSwap : Before n .registering (.updSwap (jobArgs n) signalled 1#64)
      (callNode signalled (some ()) 3 true OTHER_TOKEN none)
  | updUnlock : Before n .registering (.updUnlock (jobArgs n) true) (callNode armed (some ()) 3 true OTHER_TOKEN none)
  | updJob : Before n .registering (.updJob (jobArgs n)) (callNode armed (some ()) 3 false OTHER_TOKEN none)
  | enqueue : Before n .registering .enqueue (armedNode n)

/-- The call and its thread, from the link on. -/
inductive After : CallPc → Pc Unit (Closure ν) → Prop
  | wakeup : After .registering .wakeup
  | ret (ok : Bool) : After .registering (.ret ok)
  | leaving (ok : Bool) : After (.leaving ok) .idle
  | done (ok : Bool) : After (.done ok) .idle

/-- Where the queue and the poller have the node, until its job is reset. -/
inductive Place (n : ν) : ReadinessNode Unit (Closure ν) → Nat → ConsumerPc → Prop
  | queue : Place n (armedNode n) 1 .away
  | load : Place n (armedNode n) 0 .load
  | swap : Place n (armedNode n) 0 (.swap armed)
  | token : Place n (polledNode n) 0 (.token polled Ready.readable)
  | push : Place n (polledNode n) 0 (.push Ready.readable OTHER_TOKEN)
  | reset : Place n (polledNode n) 0 .resetJob

/-- Only the thread of the call is at work on the node. -/
structure ByCaller (n : ν) (c : CallPc) (s : NodeSt (Actor κ) Unit (Closure ν)) : Prop where
  consumer : s.consumer = .away
  linked : s.linked = 0
  flagged : s.flagged = false
  others : ∀ j, j ≠ .caller → s.pc j = .idle
  before : Before n c (s.pc .caller) s.node

structure Registered (n : ν) (c : CallPc) (s : NodeSt (Actor κ) Unit (Closure ν)) : Prop where
  flagged : s.flagged = false
  others : ∀ j, j ≠ .caller → s.pc j = .idle
  after : After c (s.pc .caller)
  place : Place n s.node s.linked s.consumer

/-- What a thread's `update` is to register. -/
def argsOf (p : Pc Unit (Closure ν)) : Option (UpdateArgs Unit (Closure ν)) :=
  match p with
  | .updQueue a | .updAssociate a | .updRef a | .updLock a | .updLoad a | .updToken a _ | .updSlot a _ _
  | .updSwap a _ _ | .updUnlock a _ | .updJob a => some a
  | _ => none

/-- No closure of a call is in the node, or on its way there. -/
structure Clean (s : NodeSt (Actor κ) Unit (Closure ν)) : Prop where
  job : Plain s.node.job
  args : ∀ i a, argsOf (s.pc i) = some a → Plain a.job

/-- The `Arc`s of a call whose closure has not been dropped. -/
def CallPc.arcs (c : CallPc) : Nat :=
  match c with
  | .other | .idle => 0
  | .dropping _ | .flagging _ | .done _ => 1
  | _ => 2

/-- The call has registered the node. -/
def CallPc.late (c : CallPc) : Bool :=
  match c with
  | .registering | .leaving _ | .dropping _ | .flagging _ | .done _ => true
  | _ => false

/-- The node whose `Registration` the loop drops. -/
def LoopPc.drops (l : LoopPc ν) : Option ν :=
  match l with
  | .dropping n | .flagging n => some n
  | _ => none

/-- `pushed`: the poll has made an entry of the closure. -/
inductive Stage (n : ν) (c : CallPc) (s : NodeSt (Actor κ) Unit (Closure ν)) (arcs : Nat) (l : LoopPc ν) : Bool → Prop
  | other : c = .other → Clean s → Stage n c s arcs l false
  | byCaller : ByCaller n c s → arcs = c.arcs → l.drops ≠ some n → Stage n c s arcs l false
  | registered (pushed : Bool) : Registered n c s → arcs = c.arcs → l.drops ≠ some n →
      (pushed = true ↔ s.consumer = .resetJob) → Stage n c s arcs l pushed
  | spent : Clean s → c.late = true → Stage n c s arcs l true

/-! ## A step of the node -/

section Steps

variable [DecidableEq κ] {n : ν} {c c' : CallPc} {l l' : LoopPc ν} {e : NodeEv (Actor κ) Unit (Closure ν)}
  {s t : NodeSt (Actor κ) Unit (Closure ν)}

theorem plain_none : Plain (none : Option (Closure ν)) := by
  intro n hn
  cases hn

omit [DecidableEq κ] in
theorem Takes.still (h : Takes n c l e c' l') (he : InCall e) : c' = c ∧ l' = l := by
  cases h with
  | inCall => exact ⟨rfl, rfl⟩
  | other => exact ⟨rfl, rfl⟩
  | _ => exact he.elim

omit [DecidableEq κ] in
theorem Takes.arcs (h : Takes n c l e c' l') : c'.arcs = c.arcs := by
  cases h with
  | signalled l ok => cases ok <;> rfl
  | _ => rfl

omit [DecidableEq κ] in
theorem Takes.late (h : Takes n c l e c' l') (hc : c.late = true) : c'.late = true := by
  cases h with
  | signalled l ok => cases hc
  | _ => first | exact hc | rfl

omit [DecidableEq κ] in
/-- Only the loop's own moves move the loop. -/
theorem Takes.drops (h : Takes n c l e c' l') {m : ν} (hl : l.drops ≠ some m) : l'.drops ≠ some m := by
  cases h with
  | loopDrop => exact hl
  | loopDropped => intro hd; cases hd
  | _ => exact hl

omit [DecidableEq κ] in
theorem Takes.polling (h : Takes n c l e c' l') : l' = .polling ↔ l = .polling := by
  cases h <;> simp

/-! ### The thread of the call -/

namespace ByCaller

omit [DecidableEq κ] in
theorem at_caller (h : ByCaller n c s) {p : Pc Unit (Closure ν)} (hpc : s.pc .caller = p) :
    ∃ N, s.node = N ∧ Before n c p N := ⟨s.node, rfl, hpc ▸ h.before⟩

omit [DecidableEq κ] in
/-- Whoever is inside an operation is the thread of the call, and where it is, the node is
    as it left it. -/
theorem at_pc (h : ByCaller n c s) {i : Actor κ} {p : Pc Unit (Closure ν)} (hpc : s.pc i = p) (hp : p ≠ .idle) :
    i = .caller ∧ ∃ N, s.node = N ∧ Before n c p N := by
  have hi : i = .caller := by
    by_contra hi
    exact hp (hpc.symm.trans (h.others i hi))
  subst hi
  exact ⟨rfl, h.at_caller hpc⟩

theorem goes (h : ByCaller n c s) {p p' : Pc Unit (Closure ν)} {N : ReadinessNode Unit (Closure ν)}
    (hpc : t.pc = update s.pc .caller p') (hrest : t.consumer = s.consumer ∧ t.linked = s.linked ∧ t.flagged = s.flagged)
    (hp : p' = p) (hN : t.node = N) (hb : Before n c' p N) : ByCaller n c' t := by
  obtain ⟨hc, hk, hf⟩ := hrest
  refine ⟨hc.trans h.consumer, hk.trans h.linked, hf.trans h.flagged, fun j hj => ?_, ?_⟩
  · rw [hpc, Function.update_of_ne hj]
    exact h.others j hj
  · rw [hpc, Function.update_self, hp, hN]
    exact hb

end ByCaller

/-- Up to the link the thread of the call goes its way. -/
theorem ByCaller.step (h : ByCaller n c s) (hs : NodeStep s e t) (ht : Takes n c l e c' l') (hl : l.drops ≠ some n) :
    ByCaller n c' t ∨ (Registered n c' t ∧ t.consumer ≠ .resetJob) := by
  have hb := h.before
  cases hs with
  | setCall i ready hpc =>
    left
    cases ht with
    | signal =>
      obtain ⟨N, hN, hb⟩ := h.at_caller hpc
      cases hb
      exact h.goes rfl ⟨rfl, rfl, rfl⟩ rfl hN .setLoad
    | inCall _ _ _ he => exact he.elim
    | other => cases hb
  | setLoad i ready hpc =>
    obtain ⟨rfl, N, hN, hb⟩ := h.at_pc hpc (by simp)
    obtain ⟨rfl, -⟩ := ht.still trivial
    cases hb
    exact .inl (h.goes rfl ⟨rfl, rfl, rfl⟩ (by rw [hN]; exact setTop_created) hN .setSwap)
  | setSwap i ready state hpc =>
    obtain ⟨rfl, N, hN, hb⟩ := h.at_pc hpc (by simp)
    obtain ⟨rfl, -⟩ := ht.still trivial
    cases hb
    exact .inl (h.goes rfl ⟨rfl, rfl, rfl⟩ setDone_signalled (by rw [hN]; rfl) .set)
  | setRetry i ready state hpc hne =>
    obtain ⟨rfl, N, hN, hb⟩ := h.at_pc hpc (by simp)
    cases hb
    exact absurd (by rw [hN]; rfl) hne
  | loadNull i hpc =>
    obtain ⟨-, N, -, hb⟩ := h.at_pc hpc (by simp)
    cases hb
  | loadQueue i q hpc =>
    obtain ⟨-, N, -, hb⟩ := h.at_pc hpc (by simp)
    cases hb
  | wakeup i ok hpc =>
    obtain ⟨-, N, -, hb⟩ := h.at_pc hpc (by simp)
    cases hb
  | returned i ok hpc =>
    obtain ⟨rfl, N, hN, hb⟩ := h.at_pc hpc (by simp)
    cases hb
    cases ht with
    | signalled => exact .inl (h.goes rfl ⟨rfl, rfl, rfl⟩ rfl hN .signalled)
    | inCall _ _ _ he => exact he.elim
  | updCall i a hpc hf =>
    left
    cases ht with
    | register =>
      obtain ⟨N, hN, hb⟩ := h.at_caller hpc
      cases hb
      exact h.goes rfl ⟨rfl, rfl, rfl⟩ rfl hN .updQueue
    | inCall _ _ _ he => exact he.elim
    | other => cases hb
  | updNull i a hpc =>
    obtain ⟨rfl, N, hN, hb⟩ := h.at_pc hpc (by simp)
    obtain ⟨rfl, -⟩ := ht.still trivial
    cases hb
    exact .inl (h.goes rfl ⟨rfl, rfl, rfl⟩ rfl hN .updAssociate)
  | updQueue i a q hpc hq =>
    obtain ⟨rfl, N, hN, hb⟩ := h.at_pc hpc (by simp)
    cases hb
    rw [hN] at hq
    cases hq
  | updAssociate i a hpc =>
    obtain ⟨rfl, N, hN, hb⟩ := h.at_pc hpc (by simp)
    obtain ⟨rfl, -⟩ := ht.still trivial
    cases hb
    exact .inl (h.goes rfl ⟨rfl, rfl, rfl⟩ rfl (by rw [hN]; rfl) .updRef)
  | updTaken i a q hpc hq =>
    obtain ⟨rfl, N, hN, hb⟩ := h.at_pc hpc (by simp)
    cases hb
    rw [hN] at hq
    cases hq
  | updRef i a hpc =>
    obtain ⟨rfl, N, hN, hb⟩ := h.at_pc hpc (by simp)
    obtain ⟨rfl, -⟩ := ht.still trivial
    cases hb
    exact .inl (h.goes rfl ⟨rfl, rfl, rfl⟩ rfl (by rw [hN]; rfl) .updLock)
  | updLock i a hpc =>
    obtain ⟨rfl, N, hN, hb⟩ := h.at_pc hpc (by simp)
    obtain ⟨rfl, -⟩ := ht.still trivial
    cases hb
    exact .inl (h.goes rfl ⟨rfl, rfl, rfl⟩ rfl (by rw [hN]; rfl) .updLoad)
  | updLocked i a hpc hlock =>
    obtain ⟨rfl, N, hN, hb⟩ := h.at_pc hpc (by simp)
    cases hb
    rw [hN] at hlock
    cases hlock
  | updLoad i a hpc =>
    obtain ⟨rfl, N, hN, hb⟩ := h.at_pc hpc (by simp)
    obtain ⟨rfl, -⟩ := ht.still trivial
    cases hb
    exact .inl (h.goes rfl ⟨rfl, rfl, rfl⟩ (by rw [hN]; rfl) hN .updToken)
  | updToken i a state hpc =>
    obtain ⟨rfl, N, hN, hb⟩ := h.at_pc hpc (by simp)
    obtain ⟨rfl, -⟩ := ht.still trivial
    cases hb
    exact .inl (h.goes rfl ⟨rfl, rfl, rfl⟩ (by rw [hN]; exact placeToken_signalled n) hN .updSlot)
  | updSlot i a state pos hpc =>
    obtain ⟨rfl, N, hN, hb⟩ := h.at_pc hpc (by simp)
    obtain ⟨rfl, -⟩ := ht.still trivial
    cases hb
    exact .inl (h.goes rfl ⟨rfl, rfl, rfl⟩ rfl (by rw [hN]; rfl) .updSwap)
  | updSwap i a state pos hpc =>
    obtain ⟨rfl, N, hN, hb⟩ := h.at_pc hpc (by simp)
    obtain ⟨rfl, -⟩ := ht.still trivial
    cases hb
    exact .inl (h.goes rfl ⟨rfl, rfl, rfl⟩ (congrArg _ turnedOn_armed) (by rw [hN]; rfl) .updUnlock)
  | updRetry i a state pos hpc hne =>
    obtain ⟨rfl, N, hN, hb⟩ := h.at_pc hpc (by simp)
    cases hb
    exact absurd (by rw [hN]; rfl) hne
  | updUnlock i a turned hpc =>
    obtain ⟨rfl, N, hN, hb⟩ := h.at_pc hpc (by simp)
    obtain ⟨rfl, -⟩ := ht.still trivial
    cases hb
    exact .inl (h.goes rfl ⟨rfl, rfl, rfl⟩ rfl (by rw [hN]; rfl) .updJob)
  | updJob i a hpc =>
    obtain ⟨rfl, N, hN, hb⟩ := h.at_pc hpc (by simp)
    obtain ⟨rfl, -⟩ := ht.still trivial
    cases hb
    exact .inl (h.goes rfl ⟨rfl, rfl, rfl⟩ rfl (by rw [hN]; rfl) .enqueue)
  | link i hpc =>
    obtain ⟨rfl, N, hN, hb⟩ := h.at_pc hpc (by simp)
    obtain ⟨rfl, -⟩ := ht.still trivial
    cases hb
    refine .inr ⟨⟨h.flagged, fun j hj => ?_, ?_, ?_⟩, ?_⟩
    · show update s.pc .caller .wakeup j = .idle
      rw [Function.update_of_ne hj]
      exact h.others j hj
    · show After .registering (update s.pc .caller .wakeup .caller)
      rw [Function.update_self]
      exact .wakeup
    · show Place n s.node (s.linked + 1) s.consumer
      rw [hN, h.linked, h.consumer]
      exact .queue
    · show s.consumer ≠ .resetJob
      rw [h.consumer]
      simp
  | drop i hpc =>
    cases ht with
    | drop => cases hb
    | loopDrop => exact absurd rfl hl
    | inCall _ _ _ he => exact he.elim
    | other => cases hb
  | dequeue hc hk =>
    rw [h.linked] at hk
    cases hk
  | pollLoad hc => exact nomatch h.consumer.symm.trans hc
  | pollSwap state hc => exact nomatch h.consumer.symm.trans hc
  | pollRetry state hc => exact nomatch h.consumer.symm.trans hc
  | release hc => exact nomatch h.consumer.symm.trans hc
  | putBack next readiness hc => exact nomatch h.consumer.symm.trans hc
  | requeueLink next readiness hc => exact nomatch h.consumer.symm.trans hc
  | token next readiness t hc => exact nomatch h.consumer.symm.trans hc
  | noToken next readiness hc => exact nomatch h.consumer.symm.trans hc
  | push readiness t hc => exact nomatch h.consumer.symm.trans hc
  | resetJob hc => exact nomatch h.consumer.symm.trans hc

/-! ### The queue and the poller -/

omit [DecidableEq κ] in
theorem After.late {p : Pc Unit (Closure ν)} (h : After c p) : c.late = true := by
  cases h <;> rfl

namespace Registered

omit [DecidableEq κ] in
theorem at_pc (h : Registered n c s) {i : Actor κ} {p : Pc Unit (Closure ν)} (hpc : s.pc i = p) (hp : p ≠ .idle) :
    i = .caller ∧ After c p := by
  have hi : i = .caller := by
    by_contra hi
    exact hp (hpc.symm.trans (h.others i hi))
  subst hi
  exact ⟨rfl, hpc ▸ h.after⟩

omit [DecidableEq κ] in
theorem at_consumer (h : Registered n c s) {x : ConsumerPc} (hc : s.consumer = x) :
    ∃ N k, s.node = N ∧ s.linked = k ∧ Place n N k x := ⟨s.node, s.linked, rfl, rfl, hc ▸ h.place⟩

/-- The thread of the call returns, and leaves. -/
theorem goes (h : Registered n c s) {p : Pc Unit (Closure ν)} (ha : After c' p) :
    Registered n c' { s with pc := update s.pc .caller p } := by
  refine ⟨h.flagged, fun j hj => ?_, ?_, h.place⟩
  · show update s.pc .caller p j = .idle
    rw [Function.update_of_ne hj]
    exact h.others j hj
  · show After c' (update s.pc .caller p .caller)
    rw [Function.update_self]
    exact ha

omit [DecidableEq κ] in
/-- The poller moves. -/
theorem polls (h : Registered n c s) {N : ReadinessNode Unit (Closure ν)} {k : Nat} {x : ConsumerPc} (hp : Place n N k x) :
    Registered n c { s with node := N, linked := k, consumer := x } := ⟨h.flagged, h.others, h.after, hp⟩

end Registered

/-- What becomes of a call's closure with a step: it stays in the node, or the poll makes
    an entry of it, or the node lets go of it. -/
inductive Passes (n : ν) (c : CallPc) (t : NodeSt (Actor κ) Unit (Closure ν)) : Bool → NodeEv (Actor κ) Unit (Closure ν) → Prop
  | stays (e : NodeEv (Actor κ) Unit (Closure ν)) (pushed : Bool) : Registered n c t → (pushed = true ↔ t.consumer = .resetJob) →
      (∀ x, e ≠ .event x) → Passes n c t pushed e
  | pushes : Registered n c t → t.consumer = .resetJob →
      Passes n c t false (.event ⟨OTHER_TOKEN, some (some n), Ready.readable⟩)
  | resets : Clean t → c.late = true → Passes n c t true .quiet

/-- From the link on the poller takes the node off the queue, makes an entry of its job,
    and resets it. -/
theorem Registered.step (h : Registered n c s) (hs : NodeStep s e t) (ht : Takes n c l e c' l') (hl : l.drops ≠ some n)
    {pushed : Bool} (hp : pushed = true ↔ s.consumer = .resetJob) : Passes n c' t pushed e := by
  have ha := h.after
  cases hs with
  | wakeup i ok hpc =>
    obtain ⟨rfl, ha⟩ := h.at_pc hpc (by simp)
    obtain ⟨rfl, -⟩ := ht.still trivial
    cases ha
    exact .stays _ _ (h.goes (.ret ok)) hp (by simp)
  | returned i ok hpc =>
    obtain ⟨rfl, ha⟩ := h.at_pc hpc (by simp)
    cases ha
    cases ht with
    | registered => exact .stays _ _ (h.goes (.leaving ok)) hp (by simp)
    | inCall _ _ _ he => exact he.elim
  | setCall i ready hpc =>
    cases ht with
    | signal => cases ha
    | inCall _ _ _ he => exact he.elim
    | other => cases ha
  | updCall i a hpc =>
    cases ht with
    | register => cases ha
    | inCall _ _ _ he => exact he.elim
    | other => cases ha
  | drop i hpc =>
    cases ht with
    | drop => cases ha
    | loopDrop => exact absurd rfl hl
    | inCall _ _ _ he => exact he.elim
    | other => cases ha
  | setLoad i ready hpc => cases (h.at_pc hpc (by simp)).2
  | setSwap i ready state hpc => cases (h.at_pc hpc (by simp)).2
  | setRetry i ready state hpc => cases (h.at_pc hpc (by simp)).2
  | loadNull i hpc => cases (h.at_pc hpc (by simp)).2
  | loadQueue i q hpc => cases (h.at_pc hpc (by simp)).2
  | link i hpc => cases (h.at_pc hpc (by simp)).2
  | updNull i a hpc => cases (h.at_pc hpc (by simp)).2
  | updQueue i a q hpc => cases (h.at_pc hpc (by simp)).2
  | updAssociate i a hpc => cases (h.at_pc hpc (by simp)).2
  | updTaken i a q hpc => cases (h.at_pc hpc (by simp)).2
  | updRef i a hpc => cases (h.at_pc hpc (by simp)).2
  | updLock i a hpc => cases (h.at_pc hpc (by simp)).2
  | updLocked i a hpc => cases (h.at_pc hpc (by simp)).2
  | updLoad i a hpc => cases (h.at_pc hpc (by simp)).2
  | updToken i a state hpc => cases (h.at_pc hpc (by simp)).2
  | updSlot i a state pos hpc => cases (h.at_pc hpc (by simp)).2
  | updSwap i a state pos hpc => cases (h.at_pc hpc (by simp)).2
  | updRetry i a state pos hpc => cases (h.at_pc hpc (by simp)).2
  | updUnlock i a turned hpc => cases (h.at_pc hpc (by simp)).2
  | updJob i a hpc => cases (h.at_pc hpc (by simp)).2
  | dequeue hc hk =>
    obtain ⟨N, k, hN, hlk, hplace⟩ := h.at_consumer hc
    obtain ⟨rfl, -⟩ := ht.still trivial
    rw [hc] at hp
    cases hplace
    refine .stays _ _ (h.polls (N := s.node) ?_) (by simpa using hp) (by simp)
    rw [hN, hlk]
    exact .load
  | pollLoad hc =>
    obtain ⟨N, k, hN, hlk, hplace⟩ := h.at_consumer hc
    obtain ⟨rfl, -⟩ := ht.still trivial
    rw [hc] at hp
    cases hplace
    have hx : pollTop s.node.state = .swap armed := by
      rw [hN]
      exact pollTop_armed
    rw [hx]
    refine .stays _ _ (h.polls (N := s.node) (k := s.linked) ?_) (by simpa using hp) (by simp)
    rw [hN, hlk]
    exact .swap
  | pollSwap state hc hst =>
    obtain ⟨N, k, hN, hlk, hplace⟩ := h.at_consumer hc
    obtain ⟨rfl, -⟩ := ht.still trivial
    rw [hc] at hp
    cases hplace
    rw [show armed.pollNext = polled from rfl, settle_polled]
    refine .stays _ _ (h.polls (k := s.linked) ?_) (by simpa using hp) (by simp)
    rw [hN, hlk]
    exact .token
  | pollRetry state hc hne =>
    obtain ⟨N, k, hN, hlk, hplace⟩ := h.at_consumer hc
    cases hplace
    exact absurd (by rw [hN]; rfl) hne
  | token next readiness x hc hx =>
    obtain ⟨N, k, hN, hlk, hplace⟩ := h.at_consumer hc
    obtain ⟨rfl, -⟩ := ht.still trivial
    rw [hc] at hp
    cases hplace
    rw [hN] at hx
    obtain rfl : OTHER_TOKEN = x := Option.some.inj (token_polled.symm.trans hx)
    refine .stays _ _ (h.polls (N := s.node) (k := s.linked) ?_) (by simpa using hp) (by simp)
    rw [hN, hlk]
    exact .push
  | noToken next readiness hc hx =>
    obtain ⟨N, k, hN, hlk, hplace⟩ := h.at_consumer hc
    cases hplace
    rw [hN] at hx
    cases token_polled.symm.trans hx
  | push readiness x hc =>
    obtain ⟨N, k, hN, hlk, hplace⟩ := h.at_consumer hc
    obtain ⟨rfl, -⟩ := ht.still trivial
    rw [hc] at hp
    cases hplace
    obtain rfl : pushed = false := by simpa using hp
    rw [show s.node.job = some (some n) by rw [hN]; rfl]
    refine .pushes (h.polls (N := s.node) (k := s.linked) ?_) rfl
    rw [hN, hlk]
    exact .reset
  | resetJob hc =>
    obtain ⟨rfl, -⟩ := ht.still trivial
    obtain rfl : pushed = true := hp.mpr hc
    refine .resets ⟨plain_none, fun j a hj => ?_⟩ ha.late
    change argsOf (s.pc j) = some a at hj
    by_cases hcj : j = .caller
    · subst hcj
      generalize s.pc .caller = p at ha hj
      cases ha <;> cases hj
    · rw [h.others j hcj] at hj
      cases hj
  | release hc =>
    obtain ⟨N, k, -, -, hplace⟩ := h.at_consumer hc
    cases hplace
  | putBack next readiness hc =>
    obtain ⟨N, k, -, -, hplace⟩ := h.at_consumer hc
    cases hplace
  | requeueLink next readiness hc =>
    obtain ⟨N, k, -, -, hplace⟩ := h.at_consumer hc
    cases hplace

/-! ### Afterwards, and on other nodes -/

theorem setTop_args (ready : Ready4) (state : ReadinessState) : argsOf (setTop ready state : Pc Unit (Closure ν)) = none := by
  unfold setTop
  split <;> rfl

theorem setDone_args (state next : ReadinessState) : argsOf (setDone state next : Pc Unit (Closure ν)) = none := by
  unfold setDone
  split <;> rfl

theorem checkQueue_args (a : UpdateArgs Unit (Closure ν)) (q : Unit) : argsOf (checkQueue a q) = some a := by
  unfold checkQueue
  split
  next => rfl
  next hne => exact absurd rfl hne

theorem placeToken_args (a : UpdateArgs Unit (Closure ν)) (state : ReadinessState) (x : Option TokenEntry)
    {b : UpdateArgs Unit (Closure ν)} (h : argsOf (placeToken a state x) = some b) : a = b :=
  placeToken_meets (P := fun p => argsOf p = some b → a = b) nofun Option.some.inj (fun _ _ => Option.some.inj) h

theorem updDone_args (a : UpdateArgs Unit (Closure ν)) (turned : Bool) {b : UpdateArgs Unit (Closure ν)}
    (h : argsOf (updDone a turned) = some b) : a = b := by
  cases turned with
  | true => exact Option.some.inj h
  | false => cases h

namespace Clean

/-- A thread goes on with what it has, or with nothing. -/
theorem goes (h : Clean s) {i : Actor κ} {p p' : Pc Unit (Closure ν)} (hN : Plain t.node.job) (hpc : s.pc i = p)
    (ht : t.pc = update s.pc i p') (hp : ∀ a, argsOf p' = some a → argsOf p = some a ∨ Plain a.job) : Clean t := by
  refine ⟨hN, fun j a hj => ?_⟩
  rw [ht] at hj
  by_cases hji : j = i
  · subst hji
    rw [Function.update_self] at hj
    rcases hp a hj with ha | ha
    · exact h.args j a (by rw [hpc]; exact ha)
    · exact ha
  · rw [Function.update_of_ne hji] at hj
    exact h.args j a hj

end Clean

/-- Nobody but `enqueue_job` gives a node a closure of a call, so a node without one has
    none to hand out. -/
theorem Clean.step (h : Clean s) (hs : NodeStep s e t) (he : ∀ i a, e = .called i (.update a) → Plain a.job) :
    Clean t ∧ ∀ x, e = .event x → Plain x.job := by
  have hj := h.job
  cases hs with
  | setCall i ready hpc => exact ⟨h.goes hj hpc rfl (by simp [argsOf]), by simp⟩
  | setLoad i ready hpc => exact ⟨h.goes hj hpc rfl (by simp [setTop_args]), by simp⟩
  | setSwap i ready state hpc => exact ⟨h.goes hj hpc rfl (by simp [setDone_args]), by simp⟩
  | setRetry i ready state hpc => exact ⟨h.goes hj hpc rfl (by simp [setTop_args]), by simp⟩
  | loadNull i hpc => exact ⟨h.goes hj hpc rfl (by simp [argsOf]), by simp⟩
  | loadQueue i q hpc => exact ⟨h.goes hj hpc rfl (by simp [argsOf]), by simp⟩
  | link i hpc => exact ⟨h.goes hj hpc rfl (by simp [argsOf]), by simp⟩
  | wakeup i ok hpc => exact ⟨h.goes hj hpc rfl (by simp [argsOf]), by simp⟩
  | returned i ok hpc => exact ⟨h.goes hj hpc rfl (by simp [argsOf]), by simp⟩
  | updCall i a hpc =>
    refine ⟨h.goes hj hpc rfl (fun b hb => .inr ?_), by simp⟩
    obtain rfl : a = b := Option.some.inj hb
    exact he i a rfl
  | updNull i a hpc => exact ⟨h.goes hj hpc rfl (fun b hb => .inl hb), by simp⟩
  | updQueue i a q hpc => exact ⟨h.goes hj hpc rfl (fun b hb => .inl ((checkQueue_args a q).symm.trans hb)), by simp⟩
  | updAssociate i a hpc => exact ⟨h.goes hj hpc rfl (fun b hb => .inl hb), by simp⟩
  | updTaken i a q hpc => exact ⟨h.goes hj hpc rfl (fun b hb => .inl ((checkQueue_args a q).symm.trans hb)), by simp⟩
  | updRef i a hpc => exact ⟨h.goes hj hpc rfl (fun b hb => .inl hb), by simp⟩
  | updLock i a hpc => exact ⟨h.goes hj hpc rfl (fun b hb => .inl hb), by simp⟩
  | updLocked i a hpc => exact ⟨h.goes hj hpc rfl (by simp [argsOf]), by simp⟩
  | updLoad i a hpc => exact ⟨h.goes hj hpc rfl (fun b hb => .inl hb), by simp⟩
  | updToken i a state hpc =>
    exact ⟨h.goes hj hpc rfl (fun b hb => .inl (congrArg some (placeToken_args a state _ hb))), by simp⟩
  | updSlot i a state pos hpc =>
    obtain ⟨-, -, -, -, hjob⟩ := s.node.setToken_frame pos a.token
    exact ⟨h.goes (by rw [hjob]; exact hj) hpc rfl (fun b hb => .inl hb), by simp⟩
  | updSwap i a state pos hpc => exact ⟨h.goes hj hpc rfl (fun b hb => .inl hb), by simp⟩
  | updRetry i a state pos hpc => exact ⟨h.goes hj hpc rfl (fun b hb => .inl hb), by simp⟩
  | updUnlock i a turned hpc =>
    exact ⟨h.goes hj hpc rfl (fun b hb => .inl (congrArg some (updDone_args a turned hb))), by simp⟩
  | updJob i a hpc => exact ⟨h.goes (h.args i a (by rw [hpc]; rfl)) hpc rfl (by simp [argsOf]), by simp⟩
  | drop i hpc => exact ⟨h.goes hj hpc rfl (by split <;> simp [argsOf]), by simp⟩
  | push readiness x hc => exact ⟨⟨hj, h.args⟩, fun x hx => by cases hx; exact hj⟩
  | resetJob hc => exact ⟨⟨plain_none, h.args⟩, by simp⟩
  | _ => exact ⟨⟨hj, h.args⟩, by simp⟩

omit [DecidableEq κ] in
theorem event_push [DecidableEq (Actor κ)] {x : JobEntry (Option (Closure ν))} (hs : NodeStep s (.event x) t) :
    s.consumer ≠ .away := by
  cases hs with
  | push readiness y hc =>
    rw [hc]
    simp

/-- A step keeps the stage, or makes an entry of the closure; any other entry is of none. -/
theorem stage_step {arcs : Nat} {pushed : Bool} (h : Stage n c s arcs l pushed) (hs : NodeStep s e t)
    (ht : Takes n c l e c' l') : ∃ pushed', Stage n c' t arcs l' pushed' ∧
      ((pushed' = pushed ∧ ∀ x, e = .event x → Plain x.job) ∨
        (pushed = false ∧ pushed' = true ∧ e = .event ⟨OTHER_TOKEN, some (some n), Ready.readable⟩)) := by
  cases h with
  | other hc hclean =>
    subst hc
    obtain ⟨rfl, he⟩ : c' = .other ∧ ∀ i a, e = .called i (.update a) → Plain a.job := by
      cases ht with
      | loopDrop => exact ⟨rfl, by simp⟩
      | loopDropped => exact ⟨rfl, by simp⟩
      | inCall _ _ _ he => exact ⟨rfl, fun i a h => by rw [h] at he; exact he.elim⟩
      | other _ _ he => exact ⟨rfl, he⟩
    obtain ⟨hclean', hx⟩ := hclean.step hs he
    exact ⟨false, .other rfl hclean', .inl ⟨rfl, hx⟩⟩
  | byCaller hcall harcs hl =>
    have hx : ∀ x, e = .event x → Plain x.job := by
      rintro x rfl
      exact absurd hcall.consumer (event_push hs)
    rcases hcall.step hs ht hl with hcall' | ⟨hreg, hne⟩
    · exact ⟨false, .byCaller hcall' (harcs.trans ht.arcs.symm) (ht.drops hl), .inl ⟨rfl, hx⟩⟩
    · exact ⟨false, .registered _ hreg (harcs.trans ht.arcs.symm) (ht.drops hl) (by simp [hne]), .inl ⟨rfl, hx⟩⟩
  | registered _ hreg harcs hl hp =>
    cases hreg.step hs ht hl hp with
    | stays _ _ hreg' hp' hx =>
      exact ⟨_, .registered _ hreg' (harcs.trans ht.arcs.symm) (ht.drops hl) hp', .inl ⟨rfl, fun x h => absurd h (hx x)⟩⟩
    | pushes hreg' hc =>
      exact ⟨true, .registered _ hreg' (harcs.trans ht.arcs.symm) (ht.drops hl) (by simp [hc]), .inr ⟨rfl, rfl, rfl⟩⟩
    | resets hclean hlate => exact ⟨true, .spent hclean hlate, .inl ⟨rfl, by simp⟩⟩
  | spent hclean hlate =>
    have he : ∀ i a, e = .called i (.update a) → Plain a.job := by
      rintro i a rfl
      cases ht with
      | register => cases hlate
      | inCall _ _ _ he => exact he.elim
      | other => cases hlate
    obtain ⟨hclean', hx⟩ := hclean.step hs he
    exact ⟨true, .spent hclean' (ht.late hlate), .inl ⟨rfl, hx⟩⟩

end Steps

end Sickle.Net
