/-
  Sickle.Net.Jobs — `enqueue_job` runs every callback once.

  `Sickle.Net.JobNode` follows a call's closure up to the entry that the poll makes of it;
  from there `io_process` has it, until the callback has run and the entry is dropped. That
  no entry is lost on the way, or come to twice, is an invariant of the loop.

  - `loop_inv`: over every run a closure that was pushed is in one entry that `io_process`
    has still to come to, or its callback has run once.
  - `project_world`, `project_poller`: what holds of the nodes with their queue, and of the
    poller, holds here.
  - `jobs_run_once`.
-/

import Sickle.Net.JobNode

namespace Sickle.Net

open Function (update)
open Sickle.Lib Sickle.Lib.Chain Sickle.Poll

variable {κ ν : Type}

/-! ## The entries -/

section Entries

variable [DecidableEq ν] {n : ν} {xs : List (JobEntry (Option (Closure ν)))}

/-- How many of the entries are of call `n`'s closure. -/
def entriesOf (n : ν) (xs : List (JobEntry (Option (Closure ν)))) : Nat := xs.countP fun x => decide (x.job = some (some n))

/-- How many of them `io_process` has still to come to. -/
def pendingOf (l : LoopPc ν) (n : ν) (xs : List (JobEntry (Option (Closure ν)))) : Nat :=
  match l with
  | .polling => entriesOf n xs
  | .processing i => entriesOf n (xs.drop i)
  | _ => 0

theorem entriesOf_cons (x : JobEntry (Option (Closure ν))) :
    entriesOf n (x :: xs) = entriesOf n xs + if x.job = some (some n) then 1 else 0 := by
  unfold entriesOf
  rw [List.countP_cons]
  simp

theorem entriesOf_concat (x : JobEntry (Option (Closure ν))) :
    entriesOf n (xs ++ [x]) = entriesOf n xs + if x.job = some (some n) then 1 else 0 := by
  unfold entriesOf
  rw [List.countP_append, List.countP_singleton]
  simp

theorem entriesOf_zero : entriesOf n xs = 0 ↔ ∀ x ∈ xs, x.job ≠ some (some n) := by
  unfold entriesOf
  rw [List.countP_eq_zero]
  simp

theorem entriesOf_taking {dst : Events (Closure ν)} {x : JobEntry (Option (Closure ν))} :
    entriesOf n (taking dst (.event x : NodeEv (Actor κ) Unit (Closure ν))).entries =
      entriesOf n dst.entries + if x.job = some (some n) then 1 else 0 := entriesOf_concat _

/-- The callback of an entry runs, if it is one of a call. -/
theorem invoke_apply {x : JobEntry (Option (Closure ν))} (hx : ∀ m, x.job = some (some m) → x = jobEntry m) (f : ν → Nat) :
    invoke x f n = f n + if x.job = some (some n) then 1 else 0 := by
  by_cases hj : ∃ m, x.job = some (some m)
  · obtain ⟨m, hm⟩ := hj
    rw [hx m hm]
    show update f m (f m + 1) n = _
    by_cases e : n = m
    · subst e
      simp [jobEntry]
    · rw [Function.update_of_ne e]
      simp [jobEntry, Ne.symm e]
  · have hf : invoke x f = f := by
      unfold invoke
      split
      next => rfl
      next m hm _ => exact absurd ⟨m, hm⟩ hj
      next => rfl
    rw [hf, if_neg fun h => hj ⟨n, h⟩, Nat.add_zero]

theorem Takes.pendingOf {c c' : CallPc} {l l' : LoopPc ν} {e : NodeEv (Actor κ) Unit (Closure ν)} {m : ν}
    (h : Takes m c l e c' l') : Net.pendingOf l' n xs = Net.pendingOf l n xs := by
  cases h <;> rfl

end Entries

/-! ## A step of the loop -/

/-- The poller is done with `select` and has come to its nodes. -/
def busy (pc : PollPc ν) : Bool :=
  match pc with
  | .looping _ _ | .node _ _ _ | .requeuing _ _ _ => true
  | _ => false

/-- It has still to `select`. -/
def early (pc : PollPc ν) : Bool :=
  match pc with
  | .start | .preparing | .select _ => true
  | _ => false

/-- The closure of a call that nobody has pushed is in no entry; one that was pushed is in
    one that `io_process` will come to, or its callback ran. -/
structure Counted [DecidableEq ν] (n : ν) (l : LoopPc ν) (xs : List (JobEntry (Option (Closure ν)))) (invoked : Nat)
    (pushed : Bool) : Prop where
  fresh : pushed = false → entriesOf n xs = 0 ∧ invoked = 0
  once : pushed = true → pendingOf l n xs + invoked = 1

structure LoopInv [DecidableEq ν] (s : EventLoop κ ν) : Prop where
  inHand : ∀ n, (s.nodes n).consumer ≠ .away → busy s.poller.pc = true
  ended : s.pc ≠ .polling → s.poller.pc = .start
  empty : s.pc = .polling → early s.poller.pc = true → s.dst.entries = []
  entries : ∀ x ∈ s.dst.entries, ∀ n, x.job = some (some n) → x = jobEntry n
  calls : ∀ n, ∃ pushed, Stage n (s.calls n) (s.nodes n) (s.arcs n) s.pc pushed ∧ Counted n s.pc s.dst.entries (s.invoked n) pushed

section Loop

variable [DecidableEq κ] [DecidableEq ν] {n : ν} {more : Nat} {s s' : EventLoop κ ν}

/-! ### What the poller does -/

section Poller

variable {ι : Type} [DecidableEq ι] {p p' : Poller ι ν} {e : PollEv ι ν}

/-- A poller that has still to select has been doing so since it was called. -/
theorem early_step (hs : PollStep more p e p') (he : early p'.pc = true) (hne : p'.pc ≠ .start) : early p.pc = true := by
  cases hs with
  | queue => exact he
  | returned => exact he
  | pollZero hpc => rw [hpc]; rfl
  | pollPrepare q hpc => rw [hpc]; rfl
  | prepared b q hpc => rw [hpc]; rfl
  | interrupted b hpc => exact he
  | read room hpc => exact he
  | failed => exact absurd rfl hne
  | cleared => exact absurd rfl hne
  | full => exact absurd rfl hne
  | empty => exact absurd rfl hne
  | _ => cases he

theorem selected_step (hs : PollStep more p .selected p') : early p.pc = true ∧ early p'.pc = false := by
  cases hs with
  | selectedNotify b room hpc => rw [hpc]; exact ⟨rfl, rfl⟩
  | selected b room hpc => rw [hpc]; exact ⟨rfl, rfl⟩

/-- The return from `enqueue_node`, of a node put back. -/
theorem enqueued_step (hs : PollStep more p (.queue (.answer .enqueued)) p') : busy p'.pc = true := by
  generalize hf : (PollEv.queue (.answer .enqueued) : PollEv ι ν) = f at hs
  cases hs with
  | queue e q _ he =>
    cases hf
    exact he.elim
  | empty room u r q _ hr =>
    cases hf
    rcases hr with hr | hr <;> cases hr
  | requeued => rfl
  | _ => cases hf

/-- What the queue does. -/
theorem queue_step (hs : PollStep more p e p') :
    (∃ f, e = .queue f ∧ QStep p.queue f p'.queue ∧ ∀ op, f = .called op → p'.pc ≠ p.pc) ∨
      ((∀ f, e ≠ .queue f) ∧ p'.queue = p.queue) := by
  cases hs with
  | queue e q hq he => exact .inl ⟨e, rfl, hq, fun op hop => by subst hop; exact he.elim⟩
  | returned i w q hq => exact .inl ⟨_, rfl, hq, by simp⟩
  | pollPrepare q hpc hq => exact .inl ⟨_, rfl, hq, fun _ _ => by simp [hpc]⟩
  | prepared b q _ hq => exact .inl ⟨_, rfl, hq, by simp⟩
  | selectedFull b q hpc hq => exact .inl ⟨_, rfl, hq, fun _ _ => by simp [hpc]⟩
  | readNoneFull q hpc _ hq => exact .inl ⟨_, rfl, hq, fun _ _ => by simp [hpc]⟩
  | cleared q _ hq => exact .inl ⟨_, rfl, hq, by simp⟩
  | dequeue room u q hpc hq => exact .inl ⟨_, rfl, hq, fun _ _ => by simp [hpc]⟩
  | empty room u r q _ _ hq => exact .inl ⟨_, rfl, hq, by simp⟩
  | data room u x q _ hq => exact .inl ⟨_, rfl, hq, by simp⟩
  | requeue m room u event q _ hq => exact .inl ⟨_, rfl, hq, by simp⟩
  | requeued event room u q _ hq => exact .inl ⟨_, rfl, hq, by simp⟩
  | _ => exact .inr ⟨by simp, rfl⟩

end Poller

/-- Where a node and the queue meet, the poller stays where it is, or has the node. -/
theorem meets_pc {e : NodeEv (Actor κ) Unit (Closure ν)} {f : Ev (Actor κ × ν) ν} {p p' : Poller (Actor κ × ν) ν}
    (hm : Meets n e f) (hs : PollStep more p (.queue f) p') : (p'.pc = p.pc ∧ e ≠ .dequeued) ∨ busy p'.pc = true := by
  cases hm with
  | enters a =>
    cases a with
    | some i =>
      cases hs with
      | queue => exact .inl ⟨rfl, by simp⟩
    | none =>
      cases hs with
      | queue _ _ _ he => exact he.elim
      | requeue => exact .inr rfl
  | linked a =>
    cases hs with
    | queue => exact .inl ⟨rfl, by simp⟩
  | returned i w =>
    cases hs with
    | queue _ _ _ he => exact he.elim
    | returned => exact .inl ⟨rfl, by simp⟩
  | data =>
    cases hs with
    | queue _ _ _ he => exact he.elim
    | empty _ _ _ _ _ hr => rcases hr with hr | hr <;> cases hr
    | data => exact .inr rfl

/-! ### The calls, one by one -/

omit [DecidableEq κ] [DecidableEq ν] in
theorem Stage.reloc {c : CallPc} {t : NodeSt (Actor κ) Unit (Closure ν)} {arcs : Nat} {l l' : LoopPc ν} {pushed : Bool}
    (h : Stage n c t arcs l pushed) (hl : l.drops ≠ some n → l'.drops ≠ some n) : Stage n c t arcs l' pushed := by
  cases h with
  | other hc hclean => exact .other hc hclean
  | byCaller hcall harcs hd => exact .byCaller hcall harcs (hl hd)
  | registered _ hreg harcs hd hp => exact .registered _ hreg harcs (hl hd) hp
  | spent hclean hlate => exact .spent hclean hlate

omit [DecidableEq κ] in
/-- Nothing of call `n` is touched. -/
theorem LoopInv.untouched (h : LoopInv s) (hc : s'.calls n = s.calls n) (ht : s'.nodes n = s.nodes n) (ha : s'.arcs n = s.arcs n)
    (hl : s.pc.drops ≠ some n → s'.pc.drops ≠ some n) (hi : s'.invoked n = s.invoked n)
    (he : entriesOf n s'.dst.entries = entriesOf n s.dst.entries)
    (hp : pendingOf s'.pc n s'.dst.entries = pendingOf s.pc n s.dst.entries) :
    ∃ pushed, Stage n (s'.calls n) (s'.nodes n) (s'.arcs n) s'.pc pushed ∧ Counted n s'.pc s'.dst.entries (s'.invoked n) pushed := by
  obtain ⟨pushed, hstage, hcount⟩ := h.calls n
  refine ⟨pushed, ?_, ⟨fun hf => ?_, fun hf => ?_⟩⟩
  · rw [hc, ht, ha]
    exact hstage.reloc hl
  · rw [he, hi]
    exact hcount.fresh hf
  · rw [hp, hi]
    exact hcount.once hf

omit [DecidableEq κ] in
/-- Outside the poll no node is in the poller's hands. -/
theorem LoopInv.away (h : LoopInv s) (hpc : s.pc ≠ .polling) (n : ν) : (s.nodes n).consumer = .away := by
  by_contra hc
  have hb := h.inHand n hc
  rw [h.ended hpc] at hb
  cases hb

omit [DecidableEq κ] in
/-- An entry of call `n` was pushed, and outside the poll the node has let go of its job. -/
theorem LoopInv.spent (h : LoopInv s) (hpc : s.pc ≠ .polling) {x : JobEntry (Option (Closure ν))} (hx : x ∈ s.dst.entries)
    (hj : x.job = some (some n)) :
    Clean (s.nodes n) ∧ (s.calls n).late = true ∧ pendingOf s.pc n s.dst.entries + s.invoked n = 1 := by
  obtain ⟨pushed, hstage, hcount⟩ := h.calls n
  have hp : pushed = true := by
    by_contra hp
    exact entriesOf_zero.mp (hcount.fresh (by simpa using hp)).1 x hx hj
  subst hp
  cases hstage with
  | registered _ hreg _ _ hp => exact absurd (h.away hpc n) (by simp [hp.mp rfl])
  | spent hclean hlate => exact ⟨hclean, hlate, hcount.once rfl⟩

/-- A node moves by itself. -/
theorem LoopInv.node_step (h : LoopInv s) {e : NodeEv (Actor κ) Unit (Closure ν)} {t : NodeSt (Actor κ) Unit (Closure ν)}
    {c : CallPc} {l : LoopPc ν} (hs : NodeStep (s.nodes n) e t) (he : e.Apart) (ht : Takes n (s.calls n) s.pc e c l) :
    LoopInv { s with nodes := update s.nodes n t, calls := update s.calls n c, pc := l, dst := taking s.dst e } := by
  obtain ⟨-, -, -, haway, -⟩ := apart_step hs he
  obtain ⟨pushed, hstage, hcount⟩ := h.calls n
  obtain ⟨pushed', hstage', hpush⟩ := stage_step hstage hs ht
  have hx : ∀ x, e = .event x → ∀ m, x.job = some (some m) → m = n ∧ x = ⟨OTHER_TOKEN, some (some n), Ready.readable⟩ := by
    intro x hxe m hm
    rcases hpush with ⟨-, hplain⟩ | ⟨-, -, hev⟩
    · exact absurd hm (hplain x hxe m)
    · rw [hxe] at hev
      injection hev with hev
      subst hev
      injection hm with hm
      injection hm with hm
      exact ⟨hm.symm, rfl⟩
  have hpolling : ∀ x, e = .event x → s.pc = .polling ∧ l = .polling := by
    rintro x rfl
    obtain ⟨-, rfl⟩ := ht.still trivial
    by_contra hpc
    exact event_push hs (h.away (fun e => hpc ⟨e, e⟩) n)
  have hl := ht.polling
  have hdst : (∀ x, e ≠ .event x) → taking s.dst e = s.dst := by
    intro hne
    cases e with
    | event x => exact absurd rfl (hne x)
    | _ => rfl
  have hentries : ∀ m, (∀ x, e = .event x → x.job ≠ some (some m)) →
      entriesOf m (taking s.dst e).entries = entriesOf m s.dst.entries ∧
        pendingOf l m (taking s.dst e).entries = pendingOf s.pc m s.dst.entries := by
    intro m hm
    by_cases hev : ∃ x, e = .event x
    · obtain ⟨x, rfl⟩ := hev
      obtain ⟨hp, rfl⟩ := hpolling x rfl
      have hcnt : entriesOf m (taking s.dst (.event x : NodeEv (Actor κ) Unit (Closure ν))).entries = entriesOf m s.dst.entries := by
        rw [entriesOf_taking, if_neg (hm x rfl), Nat.add_zero]
      rw [hp]
      exact ⟨hcnt, hcnt⟩
    · rw [hdst fun x hxe => hev ⟨x, hxe⟩]
      exact ⟨rfl, ht.pendingOf⟩
  refine ⟨fun m hm => ?_, fun hne => h.ended fun hp => hne (hl.mpr hp), fun hp hearly => ?_, fun x hm m hj => ?_, fun m => ?_⟩
  · by_cases hmn : m = n
    · subst hmn
      exact h.inHand m (haway (by simpa using hm))
    · exact h.inHand m (by simpa [Function.update_of_ne hmn] using hm)
  · -- the poller pushes only once it is busy
    have hne : ∀ x, e ≠ .event x := by
      rintro x rfl
      have hb := h.inHand n (event_push hs)
      change early s.poller.pc = true at hearly
      unfold early at hearly
      split at hearly <;> simp_all [busy]
    show (taking s.dst e).entries = []
    rw [hdst hne]
    exact h.empty (hl.mp hp) hearly
  · by_cases hev : ∃ x, e = .event x
    · obtain ⟨y, rfl⟩ := hev
      rcases List.mem_append.mp hm with hm | hm
      · exact h.entries x hm m hj
      · obtain rfl := List.mem_singleton.mp hm
        obtain ⟨rfl, rfl⟩ := hx y rfl m hj
        rfl
    · change x ∈ (taking s.dst e).entries at hm
      rw [hdst fun y hy => hev ⟨y, hy⟩] at hm
      exact h.entries x hm m hj
  · by_cases hmn : m = n
    · subst hmn
      refine ⟨pushed', by simpa using hstage', ?_⟩
      rcases hpush with ⟨rfl, hplain⟩ | ⟨rfl, rfl, rfl⟩
      · obtain ⟨hcnt, hpend⟩ := hentries m fun x hxe => hplain x hxe m
        exact ⟨fun hf => by rw [hcnt]; exact hcount.fresh hf, fun hf => by rw [hpend]; exact hcount.once hf⟩
      · obtain ⟨-, rfl⟩ := hpolling _ rfl
        obtain ⟨hz, hi⟩ := hcount.fresh rfl
        refine ⟨by simp, fun _ => ?_⟩
        show entriesOf m (taking s.dst (.event _ : NodeEv (Actor κ) Unit (Closure ν))).entries + s.invoked m = 1
        rw [entriesOf_taking, hz, hi]
        simp
    · obtain ⟨hcnt, hpend⟩ := hentries m fun x hxe hj => hmn (hx x hxe m hj).1
      exact h.untouched (Function.update_of_ne hmn ..) (Function.update_of_ne hmn ..) rfl ht.drops rfl hcnt hpend

/-- A node and the queue meet. -/
theorem LoopInv.both_step (h : LoopInv s) {e : NodeEv (Actor κ) Unit (Closure ν)} {f : Ev (Actor κ × ν) ν}
    {t : NodeSt (Actor κ) Unit (Closure ν)} {p : Poller (Actor κ × ν) ν} (hm : Meets n e f) (hs : NodeStep (s.nodes n) e t)
    (hp : PollStep more s.poller (.queue f) p) (hpc : p.pc ≠ s.poller.pc → s.pc = .polling ∧ Agrees s.dst s.poller.pc) :
    LoopInv { s with poller := p, nodes := update s.nodes n t } := by
  obtain ⟨pushed, hstage, hcount⟩ := h.calls n
  have hin : InCall e ∧ ∀ x, e ≠ .event x := by
    cases hm <;> exact ⟨trivial, by simp⟩
  obtain ⟨pushed', hstage', hpush⟩ := stage_step hstage hs (.inCall (s.calls n) s.pc e hin.1)
  have hpushed : pushed' = pushed := by
    rcases hpush with ⟨hpp, -⟩ | ⟨-, -, hev⟩
    · exact hpp
    · exact absurd hev (hin.2 _)
  subst hpushed
  have haway : e ≠ .dequeued → t.consumer ≠ .away → (s.nodes n).consumer ≠ .away := by
    intro hne ht
    cases hm with
    | enters a =>
      cases hs with
      | loadQueue => exact ht
      | updJob => exact ht
      | putBack next readiness hc => simp [hc]
    | linked a =>
      cases hs with
      | link => exact ht
      | requeueLink next readiness hc => simp [hc]
    | returned i w =>
      cases hs with
      | wakeup => exact ht
    | data => exact absurd rfl hne
  have hbusy : ∀ m, (update s.nodes n t m).consumer ≠ .away → busy p.pc = true := by
    intro m hc
    rcases meets_pc hm hp with ⟨hsame, hne⟩ | hb
    · rw [hsame]
      by_cases hmn : m = n
      · subst hmn
        exact h.inHand m (haway hne (by simpa using hc))
      · exact h.inHand m (by simpa [Function.update_of_ne hmn] using hc)
    · exact hb
  refine ⟨hbusy, fun hne => ?_, fun hpol he => ?_, h.entries, fun m => ?_⟩
  · show p.pc = .start
    by_contra hst
    by_cases hsame : p.pc = s.poller.pc
    · exact hst (hsame.trans (h.ended hne))
    · exact hne (hpc hsame).1
  · rcases meets_pc hm hp with ⟨hsame, -⟩ | hb
    · exact h.empty hpol (by rw [← hsame]; exact he)
    · change early p.pc = true at he
      cases hx : p.pc with
      | start => rw [hx] at hb; cases hb
      | preparing => rw [hx] at hb; cases hb
      | select b => rw [hx] at hb; cases hb
      | _ => rw [hx] at he; cases he
  · by_cases hmn : m = n
    · subst hmn
      exact ⟨pushed', by simpa using hstage', hcount⟩
    · exact h.untouched rfl (Function.update_of_ne hmn ..) rfl id rfl rfl rfl

omit [DecidableEq κ] in
theorem afterPoll_drops {l : LoopPc ν} {pc pc' : PollPc ν} (hl : l.drops ≠ some n) : (afterPoll l pc pc').drops ≠ some n := by
  unfold afterPoll
  split
  next => simp [LoopPc.drops]
  next => exact hl

/-- The poller moves by itself. -/
theorem LoopInv.poll_step (h : LoopInv s) {e : PollEv (Actor κ × ν) ν} {p : Poller (Actor κ × ν) ν}
    (hp : PollStep more s.poller e p) (hpc : p.pc ≠ s.poller.pc → s.pc = .polling ∧ Agrees s.dst s.poller.pc ∧
      (e ≠ .queue (.answer .enqueued) → ∀ n, (s.nodes n).consumer = .away)) :
    LoopInv { s with poller := p, pc := afterPoll s.pc s.poller.pc p.pc } := by
  by_cases hsame : p.pc = s.poller.pc
  · have hl : afterPoll s.pc s.poller.pc p.pc = s.pc := by
      unfold afterPoll
      rw [hsame]
      exact if_neg fun h => h.1 h.2
    rw [hl]
    refine ⟨fun m hc => by rw [hsame]; exact h.inHand m hc, fun hne => hsame.trans (h.ended hne), fun hpol he => ?_, h.entries,
      h.calls⟩
    exact h.empty hpol (by rw [← hsame]; exact he)
  · obtain ⟨hpol, -, haway⟩ := hpc hsame
    have hl : afterPoll s.pc s.poller.pc p.pc = if p.pc = .start then .processing 0 else .polling := by
      unfold afterPoll
      rw [hpol]
      by_cases hst : p.pc = .start
      · rw [if_pos hst, if_pos ⟨fun e => hsame (hst.trans e.symm), hst⟩]
      · rw [if_neg hst, if_neg fun h => hst h.2]
    refine ⟨fun m hc => ?_, fun hne => ?_, fun hpol' he => ?_, h.entries, fun m => ?_⟩
    · by_cases hev : e = .queue (.answer .enqueued)
      · subst hev
        exact enqueued_step hp
      · exact absurd (haway hev m) hc
    · by_contra hst
      exact hne (by rw [hl, if_neg hst])
    · have hst : p.pc ≠ .start := by
        intro hst
        rw [hl, if_pos hst] at hpol'
        cases hpol'
      exact h.empty hpol (early_step hp he hst)
    · refine h.untouched rfl rfl rfl afterPoll_drops rfl rfl ?_
      show pendingOf (afterPoll s.pc s.poller.pc p.pc) m s.dst.entries = _
      rw [hl, hpol]
      split <;> rfl

/-- `select` returns: the entries are others'. -/
theorem LoopInv.select_step (h : LoopInv s) {p : Poller (Actor κ × ν) ν} {events : List Event}
    {entries : List (JobEntry (Option (Closure ν)))} (hp : PollStep more s.poller .selected p) (hpol : s.pc = .polling)
    (haway : ∀ n, (s.nodes n).consumer = .away) (hplain : ∀ x ∈ entries, Plain x.job) :
    LoopInv { s with poller := p, dst := { s.dst with events := events, entries := entries } } := by
  obtain ⟨he, he'⟩ := selected_step hp
  have hold := h.empty hpol he
  have hnone : ∀ m, entriesOf m entries = entriesOf m s.dst.entries := by
    intro m
    rw [hold]
    exact entriesOf_zero.mpr fun x hx => hplain x hx m
  refine ⟨fun m hc => absurd (haway m) hc, fun hne => absurd hpol hne, fun _ hearly => ?_,
    fun x hx m hj => absurd hj (hplain x hx m), fun m => ?_⟩
  · rw [he'] at hearly
    cases hearly
  · refine h.untouched rfl rfl rfl id rfl (hnone m) ?_
    rw [hpol]
    exact hnone m

omit [DecidableEq κ] in
/-- A call moves on, by itself. -/
theorem LoopInv.call_moves (h : LoopInv s) {c : CallPc} {arcs : Nat}
    (hstage : ∀ pushed, Stage n (s.calls n) (s.nodes n) (s.arcs n) s.pc pushed → Stage n c (s.nodes n) arcs s.pc pushed) :
    LoopInv { s with calls := update s.calls n c, arcs := update s.arcs n arcs } := by
  refine ⟨h.inHand, h.ended, h.empty, h.entries, fun m => ?_⟩
  by_cases hmn : m = n
  · subst hmn
    obtain ⟨pushed, hm, hcount⟩ := h.calls m
    refine ⟨pushed, ?_, hcount⟩
    show Stage m (update s.calls m _ m) (s.nodes m) (update s.arcs m _ m) s.pc pushed
    rw [Function.update_self, Function.update_self]
    exact hstage pushed hm
  · exact h.untouched (Function.update_of_ne hmn ..) rfl (Function.update_of_ne hmn ..) id rfl rfl rfl

omit [DecidableEq κ] in
/-- A call lets go of its `Arc`. -/
theorem LoopInv.letGo_step (h : LoopInv s) {ok : Bool} (hc : s.calls n = .leaving ok) :
    LoopInv { s with
      calls := update s.calls n (if s.arcs n = 1 then .dropping ok else .done ok)
      arcs := update s.arcs n (s.arcs n - 1) } := by
  refine h.call_moves fun pushed hstage => ?_
  rw [hc] at hstage
  cases hstage with
  | other hc' _ => cases hc'
  | byCaller hcall _ _ =>
    have hb := hcall.before
    generalize (s.nodes n).pc .caller = q at hb
    generalize (s.nodes n).node = N at hb
    cases hb
  | registered _ hreg harcs hd hp =>
    have h2 : s.arcs n = 2 := harcs
    rw [h2]
    refine .registered _ ⟨hreg.flagged, hreg.others, ?_, hreg.place⟩ rfl hd hp
    have ha := hreg.after
    generalize (s.nodes n).pc .caller = q at ha
    cases ha
    exact .done ok
  | spent hclean _ => exact .spent hclean (by split <;> rfl)

omit [DecidableEq κ] in
/-- A call begins. -/
theorem LoopInv.enqueueJob_step (h : LoopInv s) (hc : s.calls n = .idle) :
    LoopInv { s with calls := update s.calls n .begun, arcs := update s.arcs n 2 } := by
  refine h.call_moves fun pushed hstage => ?_
  rw [hc] at hstage
  cases hstage with
  | other hc' _ => cases hc'
  | byCaller hcall _ hd =>
    refine .byCaller ⟨hcall.consumer, hcall.linked, hcall.flagged, hcall.others, ?_⟩ rfl hd
    have hb := hcall.before
    generalize (s.nodes n).pc .caller = q at hb
    generalize (s.nodes n).node = N at hb
    cases hb
    exact .begun
  | registered _ hreg _ _ _ =>
    have ha := hreg.after
    generalize (s.nodes n).pc .caller = q at ha
    cases ha
  | spent _ hlate => cases hlate

omit [DecidableEq κ] in
/-- `io_process` comes to an entry. -/
theorem LoopInv.process_step (h : LoopInv s) {i : Nat} {x : JobEntry (Option (Closure ν))} (hpc : s.pc = .processing i)
    (hx : s.dst.entries[i]? = some x) : LoopInv { s with pc := .processing (i + 1), invoked := invoke x s.invoked } := by
  obtain ⟨hi, hxi⟩ := List.getElem?_eq_some_iff.mp hx
  have hmem : x ∈ s.dst.entries := hxi ▸ List.getElem_mem hi
  have hdrop : s.dst.entries.drop i = x :: s.dst.entries.drop (i + 1) := by
    rw [List.drop_eq_getElem_cons hi, hxi]
  refine ⟨h.inHand, fun _ => h.ended (by rw [hpc]; simp), (fun hp => by cases hp), h.entries, fun m => ?_⟩
  obtain ⟨pushed, hstage, hcount⟩ := h.calls m
  refine ⟨pushed, hstage.reloc fun _ => by simp [LoopPc.drops], fun hf => ?_, fun hf => ?_⟩
  · obtain ⟨hz, hinv⟩ := hcount.fresh hf
    refine ⟨hz, ?_⟩
    show invoke x s.invoked m = 0
    rw [invoke_apply (h.entries x hmem), hinv, if_neg (entriesOf_zero.mp hz x hmem)]
  · have hone := hcount.once hf
    rw [hpc] at hone
    change entriesOf m (s.dst.entries.drop i) + s.invoked m = 1 at hone
    rw [hdrop, entriesOf_cons] at hone
    show entriesOf m (s.dst.entries.drop (i + 1)) + invoke x s.invoked m = 1
    rw [invoke_apply (h.entries x hmem)]
    omega

omit [DecidableEq κ] in
/-- It has come to all of them. -/
theorem LoopInv.processed_step (h : LoopInv s) {i : Nat} (hpc : s.pc = .processing i) (hlen : s.dst.len ≤ i) :
    LoopInv { s with pc := .clearing, dst := { s.dst with events := [] } } := by
  refine ⟨h.inHand, fun _ => h.ended (by rw [hpc]; simp), (fun hp => by cases hp), h.entries, fun m => ?_⟩
  refine h.untouched rfl rfl rfl (fun _ => by simp [LoopPc.drops]) rfl rfl ?_
  rw [hpc]
  show 0 = entriesOf m (s.dst.entries.drop i)
  rw [List.drop_eq_nil_of_le hlen]
  rfl

omit [DecidableEq κ] in
/-- `clear` drops an entry, and its closure. -/
theorem LoopInv.dropEntry_step (h : LoopInv s) {x : JobEntry (Option (Closure ν))} {rest : List (JobEntry (Option (Closure ν)))}
    (hpc : s.pc = .clearing) (hx : s.dst.entries = x :: rest) :
    LoopInv { s with dst := { s.dst with entries := rest }, arcs := (dropArc x s.arcs).1, pc := (dropArc x s.arcs).2 } := by
  have hmem : x ∈ s.dst.entries := hx ▸ List.mem_cons_self ..
  have hend : s.poller.pc = .start := h.ended (by rw [hpc]; simp)
  have hnext : ∀ m, (x.job ≠ some (some m) → (dropArc x s.arcs).2.drops ≠ some m ∧ (dropArc x s.arcs).1 m = s.arcs m) ∧
      pendingOf (dropArc x s.arcs).2 m rest = 0 ∧ (dropArc x s.arcs).2 ≠ .polling := by
    intro m
    unfold dropArc
    split
    next k hk =>
      refine ⟨fun hj => ?_, by split <;> rfl, by split <;> simp⟩
      have hkm : m ≠ k := by
        intro e
        subst e
        exact hj hk
      refine ⟨?_, Function.update_of_ne hkm ..⟩
      split <;> simp [LoopPc.drops, Ne.symm hkm]
    next => exact ⟨fun _ => ⟨by simp [LoopPc.drops], rfl⟩, rfl, by simp⟩
  have hcons : ∀ m, entriesOf m s.dst.entries = entriesOf m rest + if x.job = some (some m) then 1 else 0 := by
    intro m
    rw [hx, entriesOf_cons]
  refine ⟨h.inHand, fun _ => hend, fun hp => ?_, fun y hy => h.entries y (by rw [hx]; exact List.mem_cons_of_mem _ hy),
    fun m => ?_⟩
  · obtain ⟨k, -⟩ | hk := em (∃ k : ν, x.job = some (some k))
    · exact absurd hp (hnext k).2.2
    · have hd : (dropArc x s.arcs).2 = .clearing := by
        unfold dropArc
        split
        next k hj => exact absurd ⟨k, hj⟩ hk
        next => rfl
      rw [hd] at hp
      cases hp
  · obtain ⟨hrest, hpend, -⟩ := hnext m
    have hold : pendingOf s.pc m s.dst.entries = 0 := by
      rw [hpc]
      rfl
    by_cases hj : x.job = some (some m)
    · obtain ⟨hclean, hlate, hone⟩ := h.spent (by rw [hpc]; simp) hmem hj
      rw [hold] at hone
      exact ⟨true, .spent hclean hlate, by simp, fun _ => by rw [← hone]; exact congrArg (· + _) hpend⟩
    · obtain ⟨hd, ha⟩ := hrest hj
      refine h.untouched rfl rfl ha (fun _ => hd) rfl ?_ (hpend.trans hold.symm)
      rw [hcons, if_neg hj, Nat.add_zero]

theorem loop_step {e : LoopEv κ ν} (h : LoopInv s) (hs : LoopStep more s e s') : LoopInv s' := by
  cases hs with
  | enqueueJob n hc => exact h.enqueueJob_step hc
  | letGo n ok hc => exact h.letGo_step hc
  | node n e t c l hn he ht => exact h.node_step hn he ht
  | both n e f t p hm hn hp hpc => exact h.both_step hm hn hp hpc
  | poll e p hp _ _ hpc => exact h.poll_step hp hpc
  | select p events entries hp hpol haway hplain => exact h.select_step hp hpol haway hplain
  | process i x hpc hx => exact h.process_step hpc hx
  | processed i hpc hlen => exact h.processed_step hpc hlen
  | dropEntry x rest hpc hx => exact h.dropEntry_step hpc hx
  | cleared hpc hnil =>
    refine ⟨h.inHand, fun hne => absurd rfl hne, fun _ _ => hnil, h.entries, fun m => ?_⟩
    refine h.untouched rfl rfl rfl (fun _ => by simp [LoopPc.drops]) rfl rfl ?_
    show entriesOf m s.dst.entries = pendingOf s.pc m s.dst.entries
    rw [hpc, hnil]
    rfl

/-! ## Over whole runs -/

section Runs

variable {capacity : Nat} {τ : List (LoopEv κ ν)}

theorem loop_inv (h : Run (eventLoop κ ν more capacity) τ s) : LoopInv s := by
  refine Run.inv (P := LoopInv) ?_ (fun _ _ _ hi hs => loop_step hi hs) h
  intro s hfresh
  obtain ⟨hp, hn, hc, ha, hpc, hdst, hi⟩ := hfresh
  refine ⟨fun m hx => ?_, fun hne => absurd hpc hne, fun _ _ => by rw [hdst], (fun x hx => by rw [hdst] at hx; cases hx),
    fun m => ?_⟩
  · obtain ⟨N, hN, -⟩ := hn m
    rw [hN] at hx
    exact absurd rfl hx
  · refine ⟨false, ?_, ⟨fun _ => ⟨by rw [hdst]; rfl, hi m⟩, by simp⟩⟩
    obtain ⟨N, hN, hnew⟩ := hn m
    rcases hc m with hother | ⟨hidle, hun⟩
    · refine .other hother ⟨?_, fun i a hargs => ?_⟩
      · rw [hN]
        rcases hnew with rfl | ⟨queue, token, interest, opt, rfl⟩ <;> exact plain_none
      · rw [hN] at hargs
        cases hargs
    · rw [hN] at hun
      obtain rfl : N = .unregistered := hun
      rw [hN, hidle, ha m, hpc]
      exact .byCaller ⟨rfl, rfl, rfl, fun _ _ => rfl, .idle⟩ rfl (by simp [LoopPc.drops])

/-- The nodes and the queue run as they do without the loop. -/
theorem project_world (h : Run (eventLoop κ ν more capacity) τ s) :
    ∃ τ', Run (world (Actor κ) ν (Closure ν)) τ' ⟨s.poller.queue, s.nodes⟩ := by
  refine Run.project (T := world (Actor κ) ν (Closure ν)) (fun s : EventLoop κ ν => ⟨s.poller.queue, s.nodes⟩) ?_ ?_ h
  · intro s hfresh
    exact ⟨by rw [hfresh.1], hfresh.2.1⟩
  · intro s e s' hs
    cases hs with
    | node n e t c l hn he _ => exact .inl ⟨_, .node _ n e t hn he⟩
    | both n e f t p hm hn hp _ =>
      rcases queue_step hp with ⟨g, hg, hq, -⟩ | ⟨hne, -⟩
      · cases hg
        exact .inl ⟨_, .both _ n e f t p.queue hm hn hq⟩
      · exact absurd rfl (hne f)
    | poll e p hp he _ hpc =>
      rcases queue_step hp with ⟨g, rfl, hq, hcall⟩ | ⟨-, hsame⟩
      · refine .inl ⟨_, .queue _ g p.queue hq he fun op hop => ?_⟩
        subst hop
        exact (hpc (hcall op rfl)).2.2 (by simp)
      · right
        show World.mk p.queue s.nodes = _
        rw [hsame]
    | select p events entries hp _ _ _ =>
      rcases queue_step hp with ⟨g, hg, -, -⟩ | ⟨-, hsame⟩
      · cases hg
      · right
        show World.mk p.queue s.nodes = _
        rw [hsame]
    | _ => exact .inr rfl

/-- So does the poller. -/
theorem project_poller (h : Run (eventLoop κ ν more capacity) τ s) :
    ∃ τ', Run (poller (Actor κ × ν) ν more) τ' s.poller := by
  refine Run.project (S := eventLoop κ ν more capacity) (T := poller (Actor κ × ν) ν more) (fun s => s.poller)
    (fun _ hi => hi.1) ?_ h
  intro s e s' hs
  cases hs with
  | both n e f t p _ _ hp _ => exact .inl ⟨_, hp⟩
  | poll e p hp _ _ _ => exact .inl ⟨_, hp⟩
  | select p events entries hp _ _ _ => exact .inl ⟨_, hp⟩
  | _ => exact .inr rfl

/-- A node in the queue is in its chain, and a poller blocked in `select` will hear of it. -/
theorem awaits_of_linked (h : Run (eventLoop κ ν more capacity) τ s) (hl : 0 < (s.nodes n).linked) : Awaits s n := by
  obtain ⟨τ₁, hw⟩ := project_world h
  obtain ⟨τ₂, hp⟩ := project_poller h
  obtain ⟨rest, hinv⟩ := poll_inv hp
  have hmem := (world_inv hw).in_chain hinv.inv hl
  refine ⟨⟨rest, hinv.inv.shape.last, hinv.inv.shape.nodup, hinv.inv.shape.linked, hmem⟩, fun hpc => ?_⟩
  rcases (hinv.asleep hpc).covered with hnil | hb | hwake
  · have hn := mem_nodes.mpr hmem
    rw [hnil] at hn
    cases hn
  · exact .inl hb
  · exact .inr hwake

/-- No callback is ever invoked twice. And once a call has returned, its callback has been
    invoked, or the poll in progress or `io_process` has it in hand, or its node is in the
    queue: then, if the loop is blocked in `select`, a byte is in the awakener's pipe or the
    thread that replaced the sleep marker has still to write one. -/
theorem jobs_run_once (h : Run (eventLoop κ ν more capacity) τ s) (n : ν) : s.invoked n ≤ 1 ∧
    ∀ ok, s.calls n = .done ok → s.invoked n = 1 ∨ HeldByPoll s n ∨ InBatch s n ∨ Awaits s n := by
  have hi := loop_inv h
  obtain ⟨pushed, hstage, hcount⟩ := hi.calls n
  -- an entry of the call's closure is the call's entry
  have hentry : ∀ {xs : List (JobEntry (Option (Closure ν)))}, xs ⊆ s.dst.entries → 0 < entriesOf n xs → jobEntry n ∈ xs := by
    intro xs hsub hpos
    obtain ⟨x, hx, hj⟩ := List.countP_pos_iff.mp hpos
    have hjob : x.job = some (some n) := of_decide_eq_true hj
    rw [← hi.entries x (hsub hx) n hjob]
    exact hx
  have hone : pushed = true → s.invoked n = 1 ∨ HeldByPoll s n ∨ InBatch s n := by
    intro hp
    have h1 := hcount.once hp
    by_cases h0 : s.invoked n = 1
    · exact .inl h0
    right
    cases hpc : s.pc with
    | polling =>
      rw [hpc] at h1
      change entriesOf n s.dst.entries + s.invoked n = 1 at h1
      exact .inl ⟨hpc, .inr (hentry (List.Subset.refl _) (by omega))⟩
    | processing i =>
      rw [hpc] at h1
      change entriesOf n (s.dst.entries.drop i) + s.invoked n = 1 at h1
      exact .inr ⟨i, hpc, hentry (List.drop_subset ..) (by omega)⟩
    | _ =>
      rw [hpc] at h1
      change 0 + s.invoked n = 1 at h1
      omega
  refine ⟨?_, fun ok hc => ?_⟩
  · cases pushed with
    | true =>
      have := hcount.once rfl
      omega
    | false =>
      have := (hcount.fresh rfl).2
      omega
  · rw [hc] at hstage
    cases hstage with
    | other hc' _ => cases hc'
    | byCaller hcall _ _ =>
      have hb := hcall.before
      generalize (s.nodes n).pc .caller = q at hb
      generalize (s.nodes n).node = N at hb
      cases hb
    | registered _ hreg _ _ _ =>
      by_cases haway : (s.nodes n).consumer = .away
      · obtain ⟨N, k, -, hk, hplace⟩ := hreg.at_consumer haway
        cases hplace
        exact .inr (.inr (.inr (awaits_of_linked h (by omega))))
      · refine .inr (.inl ⟨?_, .inl haway⟩)
        by_contra hpc
        exact haway (hi.away hpc n)
    | spent _ _ =>
      rcases hone rfl with h1 | hpoll | hbatch
      · exact .inl h1
      · exact .inr (.inl hpoll)
      · exact .inr (.inr (.inl hbatch))

end Runs

end Loop

/-- The loop sleeps in `select`, and one call hands it a job. -/
theorem jobs_run_once_one_call : ∃ (τ : List (LoopEv Unit Unit)) (s : EventLoop Unit Unit),
    Run (eventLoop Unit Unit 0 4096) τ s ∧ s.calls () = .done true ∧ s.poller.pc = .select true ∧ s.invoked () ≤ 1 ∧
      (s.invoked () = 1 ∨ HeldByPoll s () ∨ InBatch s () ∨ Awaits s ()) := by
  have h0 : Run (eventLoop Unit Unit 0 4096) [] ⟨⟨Queue.new _ _, .start, 0, none⟩,
      fun _ => ⟨.unregistered, fun _ => .idle, .away, 0, false, false⟩, fun _ => .idle, fun _ => 0, .polling, ⟨[], [], 4096⟩,
      fun _ => 0⟩ :=
    .init ⟨rfl, fun _ => ⟨_, rfl, .inl rfl⟩, fun _ => .inr ⟨rfl, rfl⟩, fun _ => rfl, rfl, rfl, fun _ => rfl⟩
  have h1 := h0.step (.poll _ _ _ (.pollPrepare _ _ rfl (.prepare _ rfl)) trivial (by simp) fun _ => ⟨rfl, trivial, fun _ _ => rfl⟩)
  have h2 := h1.step (.poll _ _ _ (.queue _ _ _ (.prepareStore _ rfl rfl) trivial) trivial (by simp) fun hne => absurd rfl hne)
  have h3 := h2.step (.poll _ _ _ (.prepared _ true _ rfl (.prepareSwap _ rfl rfl)) trivial (by simp)
    fun _ => ⟨rfl, trivial, fun _ _ => rfl⟩)
  have h4 := h3.step (.enqueueJob _ () rfl)
  have h5 := h4.step (.node _ () _ _ _ _ (.setCall _ .caller READABLE4 rfl) trivial (.signal _))
  have h6 := h5.step (.node _ () _ _ _ _ (.setLoad _ .caller READABLE4 rfl) trivial (.inCall _ _ _ trivial))
  have h7 := h6.step (.node _ () _ _ _ _ (.setSwap _ .caller READABLE4 created rfl rfl) trivial (.inCall _ _ _ trivial))
  have h8 := h7.step (.node _ () _ _ _ _ (.returned _ .caller true rfl) trivial (.signalled _ true))
  have h9 := h8.step (.node _ () _ _ _ _ (.updCall _ .caller (jobArgs ()) rfl rfl) trivial (.register _))
  have h10 := h9.step (.node _ () _ _ _ _ (.updNull _ .caller (jobArgs ()) rfl rfl) trivial (.inCall _ _ _ trivial))
  have h11 := h10.step (.node _ () _ _ _ _ (.updAssociate _ .caller (jobArgs ()) rfl rfl) trivial (.inCall _ _ _ trivial))
  have h12 := h11.step (.node _ () _ _ _ _ (.updRef _ .caller (jobArgs ()) rfl) trivial (.inCall _ _ _ trivial))
  have h13 := h12.step (.node _ () _ _ _ _ (.updLock _ .caller (jobArgs ()) rfl rfl) trivial (.inCall _ _ _ trivial))
  have h14 := h13.step (.node _ () _ _ _ _ (.updLoad _ .caller (jobArgs ()) rfl) trivial (.inCall _ _ _ trivial))
  have h15 := h14.step (.node _ () _ _ _ _ (.updToken _ .caller (jobArgs ()) signalled rfl) trivial (.inCall _ _ _ trivial))
  have h16 := h15.step (.node _ () _ _ _ _ (.updSlot _ .caller (jobArgs ()) signalled 1#64 rfl) trivial (.inCall _ _ _ trivial))
  have h17 := h16.step (.node _ () _ _ _ _ (.updSwap _ .caller (jobArgs ()) signalled 1#64 rfl rfl) trivial
    (.inCall _ _ _ trivial))
  have h18 := h17.step (.node _ () _ _ _ _ (.updUnlock _ .caller (jobArgs ()) true rfl) trivial (.inCall _ _ _ trivial))
  have h19 := h18.step (.both _ () _ _ _ _ (.enters (some Actor.caller)) (.updJob _ Actor.caller (jobArgs ()) rfl)
    (.queue _ _ _ (.enqueue _ (Actor.caller, ()) () rfl rfl) trivial) fun hne => absurd rfl hne)
  have h20 := h19.step (.poll _ _ _ (.queue _ _ _ (.store _ (some (Actor.caller, ())) (.node ()) rfl) trivial) trivial (by simp)
    fun hne => absurd rfl hne)
  have h21 := h20.step (.poll _ _ _ (.queue _ _ _ (.load _ (some (Actor.caller, ())) (.node ()) rfl) trivial) trivial (by simp)
    fun hne => absurd rfl hne)
  have h22 := h21.step (.poll _ _ _ (.queue _ _ _ (.swap _ (some (Actor.caller, ())) (.node ()) .sleepMarker rfl (by decide) rfl)
    trivial) trivial (by simp) fun hne => absurd rfl hne)
  have h23 := h22.step (.both _ () _ _ _ _ (.linked (some Actor.caller)) (.link _ Actor.caller rfl)
    (.queue _ _ _ (.link _ (some (Actor.caller, ())) (.node ()) .sleepMarker rfl) trivial) fun hne => absurd rfl hne)
  have h24 := h23.step (.both _ () _ _ _ _ (.returned Actor.caller true) (.wakeup _ Actor.caller true rfl)
    (.returned _ (Actor.caller, ()) true _ (.returned _ (Actor.caller, ()) true rfl)) fun hne => absurd rfl hne)
  have h25 := h24.step (.node _ () _ _ _ _ (.returned _ .caller true rfl) trivial (.registered _ true))
  have h26 := h25.step (.letGo _ () true rfl)
  obtain ⟨hone, hdone⟩ := jobs_run_once h26 ()
  exact ⟨_, _, h26, rfl, rfl, hone, hdone true rfl⟩

end Sickle.Net
