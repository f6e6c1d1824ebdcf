/-
  Sickle.Poll.Delivery — how often a registration's job is delivered.

  `update` stores its job in the node when it turns QUEUED on, and the poll that delivers
  an event hands the stored job out with it and puts the closure that does nothing in its
  place. A registration that fires again, as a level-triggered one does at every poll,
  fires with that closure.

  - `job_delivered_once`: in every run, and for every job, the events that carry the job
    are at most as many as the calls of `update` that brought it.
-/

import Sickle.Lib.Census
import Sickle.Poll.NodeInv

namespace Sickle.Poll

open Function (update)
open Sickle.Lib

variable {ι κ J : Type} [DecidableEq J]

/-- The call brings job `j`. -/
def NodeEv.offers (j : J) (e : NodeEv ι κ J) : Bool :=
  match e with
  | .called _ (.update a) => a.job = some j
  | _ => false

/-- The event carries job `j`. -/
def NodeEv.delivers (j : J) (e : NodeEv ι κ J) : Bool :=
  match e with
  | .event x => x.job = some j
  | _ => false

def offers (j : J) (τ : List (NodeEv ι κ J)) : Nat := τ.countP (NodeEv.offers j)

def delivers (j : J) (τ : List (NodeEv ι κ J)) : Nat := τ.countP (NodeEv.delivers j)

/-- A call on its way with the job. -/
def Pc.carries (j : J) (p : Pc κ J) : Bool :=
  match p with
  | .updQueue a | .updAssociate a | .updRef a | .updLock a | .updLoad a | .updToken a _ | .updSlot a _ _ | .updSwap a _ _
  | .updUnlock a _ | .updJob a => a.job = some j
  | _ => false

/-- The job is in the node, to be delivered with the next event. -/
def stored (j : J) (n : ReadinessNode κ J) (c : ConsumerPc) : Nat := if n.job = some j ∧ c ≠ .resetJob then 1 else 0

/-- What is delivered, stored and on its way has been offered. -/
def Covered (j : J) (τ : List (NodeEv ι κ J)) (s : NodeSt ι κ J) : Prop :=
  ∃ W, Census (Pc.carries j) s.pc W ∧ delivers j τ + stored j s.node s.consumer + W.card ≤ offers j τ

theorem stored_le (j : J) (n : ReadinessNode κ J) (c : ConsumerPc) : stored j n c ≤ 1 := by
  unfold stored
  split <;> omega

theorem stored_le_of_job {j : J} {n n' : ReadinessNode κ J} {c c' : ConsumerPc} (hn : n'.job = n.job) (hc : c ≠ .resetJob) :
    stored j n' c' ≤ stored j n c := by
  unfold stored
  rw [hn]
  split
  · rename_i h
    rw [if_pos ⟨h.1, hc⟩]
  · exact Nat.zero_le _

theorem stored_of_job {j : J} {n n' : ReadinessNode κ J} {c : ConsumerPc} (hn : n'.job = n.job) : stored j n' c = stored j n c := by
  unfold stored
  rw [hn]

theorem checkQueue_job [DecidableEq κ] {j : J} {a : UpdateArgs κ J} {q : κ} (h : (checkQueue a q).carries j = true) :
    a.job = some j := by
  unfold checkQueue at h
  split at h
  · exact of_decide_eq_true h
  · cases h

theorem placeToken_job {j : J} {a : UpdateArgs κ J} {state : ReadinessState} {t : Option TokenEntry}
    (h : (placeToken a state t).carries j = true) : a.job = some j := by
  revert h
  refine placeToken_meets (P := fun p => p.carries j = true → a.job = some j) ?_ ?_ ?_
  · intro h
    cases h
  · exact fun h => of_decide_eq_true h
  · exact fun _ _ h => of_decide_eq_true h

theorem updDone_job {j : J} {a : UpdateArgs κ J} {turned : Bool} (h : (updDone a turned).carries j = true) : a.job = some j := by
  cases turned with
  | true => exact of_decide_eq_true h
  | false => cases h

/-- None of the other places carries a job. -/
theorem setTop_jobless {j : J} (ready : Ready4) (state : ReadinessState) : (setTop ready state : Pc κ J).carries j = false := by
  unfold setTop
  split <;> rfl

theorem setDone_jobless {j : J} (state next : ReadinessState) : (setDone state next : Pc κ J).carries j = false := by
  unfold setDone
  split <;> rfl

namespace Covered

variable {j : J} {τ : List (NodeEv ι κ J)} {s : NodeSt ι κ J}

/-- A label that neither offers nor delivers. -/
theorem quiet {e : NodeEv ι κ J} (ho : e.offers j = false) (hd : e.delivers j = false) :
    delivers j (τ ++ [e]) = delivers j τ ∧ offers j (τ ++ [e]) = offers j τ := by
  unfold delivers offers
  rw [List.countP_append, List.countP_append, List.countP_singleton, List.countP_singleton, hd, ho]
  exact ⟨rfl, rfl⟩

/-- A thread moves, with no job it did not have. -/
theorem turn [DecidableEq ι] (h : Covered j τ s) {i : ι} {p p' : Pc κ J} {e : NodeEv ι κ J} (hpc : s.pc i = p)
    (hp : p'.carries j = true → p.carries j = true) (ho : e.offers j = false) (hd : e.delivers j = false)
    {node : ReadinessNode κ J} {linked : Nat} {flagged : Bool} (hn : node.job = s.node.job) :
    Covered j (τ ++ [e]) { s with node := node, pc := update s.pc i p', linked := linked, flagged := flagged } := by
  obtain ⟨W, hW, hle⟩ := h
  obtain ⟨hdel, hoff⟩ := quiet (τ := τ) ho hd
  obtain ⟨W', hW', hcard⟩ : ∃ W', Census (Pc.carries j) (update s.pc i p') W' ∧ W'.card ≤ W.card := by
    cases hold : p.carries j with
    | false =>
      have hnew : p'.carries j = false := Bool.eq_false_iff.mpr fun h => Bool.eq_false_iff.mp hold (hp h)
      exact ⟨W, hW.stay (by rw [hpc, hold, hnew]), Nat.le_refl _⟩
    | true =>
      cases hnew : p'.carries j with
      | true => exact ⟨W, hW.stay (by rw [hpc, hold, hnew]), Nat.le_refl _⟩
      | false =>
        obtain ⟨W', hW', hc⟩ := hW.leave (hpc ▸ hold) hnew
        exact ⟨W', hW', by omega⟩
  refine ⟨W', hW', ?_⟩
  show delivers j (τ ++ [e]) + stored j node s.consumer + W'.card ≤ offers j (τ ++ [e])
  rw [hdel, hoff, stored_of_job hn]
  omega

/-- The consumer moves, not from having delivered. -/
theorem poll (h : Covered j τ s) {c c' : ConsumerPc} {e : NodeEv ι κ J} (hc : s.consumer = c) (hne : c ≠ .resetJob)
    (ho : e.offers j = false) (hd : e.delivers j = false) {node : ReadinessNode κ J} {linked : Nat} {released : Bool}
    (hn : node.job = s.node.job) :
    Covered j (τ ++ [e]) { s with node := node, consumer := c', linked := linked, released := released } := by
  obtain ⟨W, hW, hle⟩ := h
  obtain ⟨hdel, hoff⟩ := quiet (τ := τ) ho hd
  refine ⟨W, hW, ?_⟩
  have hst : stored j node c' ≤ stored j s.node s.consumer := stored_le_of_job hn (hc ▸ hne)
  show delivers j (τ ++ [e]) + stored j node c' + W.card ≤ offers j (τ ++ [e])
  rw [hdel, hoff]
  omega

end Covered

section Runs

variable [DecidableEq ι] [DecidableEq κ]

theorem covered_step {j : J} {τ : List (NodeEv ι κ J)} {s s' : NodeSt ι κ J} {e : NodeEv ι κ J} (h : Covered j τ s)
    (hs : NodeStep s e s') : Covered j (τ ++ [e]) s' := by
  cases hs with
  | setCall i ready hpc => exact h.turn hpc (by intro hp; cases hp) rfl rfl rfl
  | setLoad i ready hpc => exact h.turn hpc (fun hp => by rw [setTop_jobless] at hp; cases hp) rfl rfl rfl
  | setSwap i ready state hpc hst => exact h.turn hpc (fun hp => by rw [setDone_jobless] at hp; cases hp) rfl rfl rfl
  | setRetry i ready state hpc hst => exact h.turn hpc (fun hp => by rw [setTop_jobless] at hp; cases hp) rfl rfl rfl
  | loadNull i hpc hq => exact h.turn hpc (by intro hp; cases hp) rfl rfl rfl
  | loadQueue i q hpc hq => exact h.turn hpc (by intro hp; cases hp) rfl rfl rfl
  | link i hpc => exact h.turn hpc (by intro hp; cases hp) rfl rfl rfl
  | wakeup i ok hpc => exact h.turn hpc (by intro hp; cases hp) rfl rfl rfl
  | returned i ok hpc => exact h.turn hpc (by intro hp; cases hp) rfl rfl rfl
  | updCall i a hpc hf =>
    obtain ⟨W, hW, hle⟩ := h
    have hdel : delivers j (τ ++ [.called i (.update a)]) = delivers j τ := by
      unfold delivers
      rw [List.countP_append, List.countP_singleton]
      rfl
    have hoff : offers j (τ ++ [.called i (.update a)]) = offers j τ + if a.job = some j then 1 else 0 := by
      unfold offers
      rw [List.countP_append, List.countP_singleton]
      simp [NodeEv.offers]
    obtain ⟨W', hW', hcard⟩ : ∃ W', Census (Pc.carries j) (update s.pc i (.updQueue a)) W' ∧
        W'.card ≤ W.card + if a.job = some j then 1 else 0 := by
      by_cases hj : a.job = some j
      · obtain ⟨W', hW', hc⟩ := hW.enter (x := .updQueue a) (by rw [hpc]; rfl) (decide_eq_true hj)
        exact ⟨W', hW', by rw [if_pos hj, hc]⟩
      · exact ⟨W, hW.stay (by rw [hpc]; exact decide_eq_false hj), Nat.le_add_right ..⟩
    refine ⟨W', hW', ?_⟩
    show delivers j _ + stored j s.node s.consumer + W'.card ≤ _
    rw [hdel, hoff]
    omega
  | updNull i a hpc hq => exact h.turn hpc (by exact id) rfl rfl rfl
  | updQueue i a q hpc hq => exact h.turn hpc (fun hp => decide_eq_true (checkQueue_job hp)) rfl rfl rfl
  | updAssociate i a hpc hq => exact h.turn hpc (by exact id) rfl rfl rfl
  | updTaken i a q hpc hq => exact h.turn hpc (fun hp => decide_eq_true (checkQueue_job hp)) rfl rfl rfl
  | updRef i a hpc => exact h.turn hpc (by exact id) rfl rfl rfl
  | updLock i a hpc hl => exact h.turn hpc (by exact id) rfl rfl rfl
  | updLocked i a hpc hl => exact h.turn hpc (by intro hp; cases hp) rfl rfl rfl
  | updLoad i a hpc => exact h.turn hpc (by exact id) rfl rfl rfl
  | updToken i a state hpc => exact h.turn hpc (fun hp => decide_eq_true (placeToken_job hp)) rfl rfl rfl
  | updSlot i a state pos hpc => exact h.turn hpc (by exact id) rfl rfl (s.node.setToken_frame pos a.token).2.2.2.2
  | updSwap i a state pos hpc hst => exact h.turn hpc (by exact id) rfl rfl rfl
  | updRetry i a state pos hpc hst => exact h.turn hpc (by exact id) rfl rfl rfl
  | updUnlock i a turned hpc => exact h.turn hpc (fun hp => decide_eq_true (updDone_job hp)) rfl rfl rfl
  | updJob i a hpc =>
    obtain ⟨W, hW, hle⟩ := h
    obtain ⟨hdel, hoff⟩ := Covered.quiet (j := j) (τ := τ) (e := .enters (some i)) rfl rfl
    have key : ∃ W', Census (Pc.carries j) (update s.pc i .enqueue) W' ∧
        stored j { s.node with job := a.job } s.consumer + W'.card ≤ stored j s.node s.consumer + W.card := by
      by_cases hj : a.job = some j
      · obtain ⟨W', hW', hc⟩ := hW.leave (x := .enqueue) (by rw [hpc]; exact decide_eq_true hj) rfl
        have := stored_le j { s.node with job := a.job } s.consumer
        exact ⟨W', hW', by omega⟩
      · have hzero : stored j { s.node with job := a.job } s.consumer = 0 := if_neg fun hx => hj hx.1
        exact ⟨W, hW.stay (by rw [hpc]; exact (decide_eq_false hj).symm), by omega⟩
    obtain ⟨W', hW', hsum⟩ := key
    refine ⟨W', hW', ?_⟩
    show delivers j _ + stored j { s.node with job := a.job } s.consumer + W'.card ≤ _
    rw [hdel, hoff]
    omega
  | drop i hpc hf hu => exact h.turn hpc (fun hp => by split at hp <;> cases hp) rfl rfl rfl
  | dequeue hc hl => exact h.poll hc (by decide) rfl rfl rfl
  | pollLoad hc => exact h.poll hc (by decide) rfl rfl rfl
  | pollSwap state hc hst => exact h.poll hc (by simp) rfl rfl rfl
  | pollRetry state hc hst => exact h.poll hc (by simp) rfl rfl rfl
  | release hc => exact h.poll hc (by decide) rfl rfl rfl
  | putBack next readiness hc => exact h.poll hc (by simp) rfl rfl rfl
  | requeueLink next readiness hc => exact h.poll hc (by simp) rfl rfl rfl
  | token next readiness t hc ht => exact h.poll hc (by simp) rfl rfl rfl
  | noToken next readiness hc ht => exact h.poll hc (by simp) rfl rfl rfl
  | push readiness t hc =>
    obtain ⟨W, hW, hle⟩ := h
    have hoff : offers j (τ ++ [.event ⟨t, s.node.job, readiness⟩]) = offers j τ := by
      unfold offers
      rw [List.countP_append, List.countP_singleton]
      rfl
    have hdel : delivers j (τ ++ [.event ⟨t, s.node.job, readiness⟩]) = delivers j τ + stored j s.node s.consumer := by
      unfold delivers stored
      rw [List.countP_append, List.countP_singleton, hc]
      simp [NodeEv.delivers]
    have hzero : stored j s.node .resetJob = 0 := if_neg fun hx => hx.2 rfl
    refine ⟨W, hW, ?_⟩
    show delivers j _ + stored j s.node .resetJob + W.card ≤ _
    rw [hoff, hdel, hzero]
    omega
  | resetJob hc =>
    obtain ⟨W, hW, hle⟩ := h
    obtain ⟨hdel, hoff⟩ := Covered.quiet (j := j) (τ := τ) (e := .quiet) rfl rfl
    have hzero : stored j { s.node with job := none } .away = 0 := if_neg fun hx => nomatch hx.1
    refine ⟨W, hW, ?_⟩
    show delivers j _ + stored j { s.node with job := none } .away + W.card ≤ _
    rw [hdel, hoff, hzero]
    omega

/-- In every run, for every job: the events that carry it are at most as many as the calls
    of `update` that brought it. -/
theorem job_delivered_once (j : J) {τ : List (NodeEv ι κ J)} {s : NodeSt ι κ J} (h : Run (node ι κ J) τ s) :
    delivers j τ ≤ offers j τ := by
  obtain ⟨W, -, hle⟩ : Covered j τ s := by
    refine Run.inv_trace (P := fun τ s => Covered j τ s) ?_ (fun _ _ _ _ _ ih hs => covered_step ih hs) h
    rintro s ⟨n, rfl, hn⟩
    have hjob : n.job = none := by
      rcases hn with rfl | ⟨queue, token, interest, opt, rfl⟩
      · rfl
      · rfl
    have hzero : stored j n .away = 0 := if_neg fun hx => by
      rw [hjob] at hx
      cases hx.1
    refine ⟨∅, Census.none fun _ => rfl, ?_⟩
    show 0 + stored j n .away + 0 ≤ 0
    rw [hzero]
  omega

def levelArgs : UpdateArgs Unit Nat := ⟨(), NO_TOKEN, READABLE4, LEVEL4, some 7⟩

/-- Level-triggered, and told of twice: the job comes with the first event. -/
theorem job_delivered_once_level : ∃ τ : List (NodeEv Unit Unit Nat), delivers 7 τ = 1 ∧
    .event ⟨NO_TOKEN, none, Ready.readable⟩ ∈ τ ∧ delivers 7 τ ≤ offers 7 τ := by
  have h0 : Run (node Unit Unit Nat) [] _ := .init ⟨.unregistered, rfl, .inl rfl⟩
  have h1 := h0.step (.setCall _ () READABLE4 rfl)
  have h2 := h1.step (.setLoad _ () READABLE4 rfl)
  have h3 := h2.step (.setSwap _ () READABLE4 _ rfl rfl)
  have h4 := h3.step (.returned _ () true rfl)
  have h5 := h4.step (.updCall _ () levelArgs rfl rfl)
  have h6 := h5.step (.updNull _ () levelArgs rfl rfl)
  have h7 := h6.step (.updAssociate _ () levelArgs rfl rfl)
  have h8 := h7.step (.updRef _ () levelArgs rfl)
  have h9 := h8.step (.updLock _ () levelArgs rfl rfl)
  have h10 := h9.step (.updLoad _ () levelArgs rfl)
  have h11 := h10.step (.updToken _ () levelArgs _ rfl)
  have h12 := h11.step (.updSwap _ () levelArgs _ 0#64 rfl rfl)
  have h13 := h12.step (.updUnlock _ () levelArgs true rfl)
  have h14 := h13.step (.updJob _ () levelArgs rfl)
  have h15 := h14.step (.link _ () rfl)
  have h16 := h15.step (.dequeue _ rfl (by decide))
  have h17 := h16.step (.pollLoad _ rfl)
  have h18 := h17.step (.putBack _ _ Ready.readable rfl)
  have h19 := h18.step (.requeueLink _ _ _ rfl)
  have h20 := h19.step (.token _ _ _ NO_TOKEN rfl rfl)
  have h21 := h20.step (.push _ _ _ rfl)
  have h22 := h21.step (.resetJob _ rfl)
  have h23 := h22.step (.dequeue _ rfl (by decide))
  have h24 := h23.step (.pollLoad _ rfl)
  have h25 := h24.step (.putBack _ _ Ready.readable rfl)
  have h26 := h25.step (.requeueLink _ _ _ rfl)
  have h27 := h26.step (.token _ _ _ NO_TOKEN rfl rfl)
  have h28 := h27.step (.push _ _ _ rfl)
  exact ⟨_, rfl, List.mem_concat_self, job_delivered_once 7 h28⟩

end Runs

end Sickle.Poll
