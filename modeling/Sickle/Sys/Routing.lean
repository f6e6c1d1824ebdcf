/-
  Sickle.Sys.Routing — which job an epoll event reaches.

  A run is a sequence of successful `register`, `reregister` and `deregister` calls and
  of `select`s on reports of the kernel. `latest` reads off a run what a descriptor was
  last registered for: the job of its `register`, the token of its latest `register` or
  `reregister`. An event is routed when `select` pushes exactly that job with exactly
  that token. For a descriptor whose token is of the awakener's type (`NotifyEvent`)
  `select` pushes nothing and answers true.

  `register` writes the descriptor into the event's 64-bit field, `reregister` writes
  the token's number there, and neither `reregister` nor `select` touches the token in
  `events_map`. So
  - `events_routed`: in every run whose `reregister` calls pass the token the descriptor
    already has, with the descriptor's own number in it, a report is routed exactly when
    no descriptor of the awakener's type is in it, and all its other events are always;
  - `reregister_misroutes`: a `reregister` with another number sends the events of its
    descriptor to the job of the descriptor that has this number.
-/

import Sickle.Lib.Run
import Sickle.Sys.Selector

namespace Sickle.Sys

open Function (update)
open Sickle.Lib

variable {J : Type}

inductive Call (J : Type) where
  | register (fd : Fd) (token : TokenEntry) (job : J)
  | reregister (fd : Fd) (token : TokenEntry)
  | deregister (fd : Fd)
  | select (rs : List (Fd × BitVec 32))

inductive CallStep : Selector J → Call J → Selector J → Prop
  | register (s : Selector J) (fd : Fd) (token : TokenEntry) (interests : Ready) (opts : PollOpt) (job : J)
      (refuse : Bool) : (register s fd token interests opts job refuse).1 = .ok () →
      CallStep s (.register fd token job) (register s fd token interests opts job refuse).2
  | reregister (s : Selector J) (fd : Fd) (token : TokenEntry) (interests : Ready) (opts : PollOpt)
      (refuse : Bool) : (reregister s fd token interests opts refuse).1 = .ok () →
      CallStep s (.reregister fd token) (reregister s fd token interests opts refuse).2
  | deregister (s : Selector J) (fd : Fd) (refuse : Bool) : (deregister s fd refuse).1 = .ok () →
      CallStep s (.deregister fd) (deregister s fd refuse).2
  | select (s : Selector J) (rs : List (Fd × BitVec 32)) :
      CallStep s (.select rs) (select s (report s.kernel rs)).2.2

def calls : Lts (Selector J) (Call J) := ⟨(· = Selector.new), CallStep⟩

/-- What a call makes of the wishes for each descriptor. -/
def note (want : Fd → Option (J × TokenEntry)) : Call J → Fd → Option (J × TokenEntry)
  | .register fd token job => update want fd (some (job, token))
  | .reregister fd token => update want fd ((want fd).map fun w => (w.1, token))
  | .deregister fd => update want fd none
  | .select _ => want

/-- The job and the token each descriptor was last registered for. -/
def latest (τ : List (Call J)) : Fd → Option (J × TokenEntry) := τ.foldl note fun _ => none

/-- The entry that the event `ev` of a descriptor registered for `w` has to push. -/
def entryFor (w : J × TokenEntry) (ev : BitVec 32) : JobEntry J := ⟨w.2, w.1, getReady ⟨ev, 0⟩⟩

/-- The entries that the events of a report have to push, each its descriptor's. -/
def routed (want : Fd → Option (J × TokenEntry)) (rs : List (Fd × BitVec 32)) : List (JobEntry J) :=
  rs.filterMap fun r => (want r.1).map (entryFor · r.2)

/-- Whether the token is of the awakener's type. -/
def notifies (w : Option (J × TokenEntry)) : Bool := w.any fun w => w.2.ttype = .notifyEvent

/-- `reregister` passes the token its descriptor has, and that token's number is the
    descriptor's. -/
def KeepsToken (s : Selector J) : Call J → Prop
  | .reregister fd token => token.token.val.setWidth 32 = fd ∧ ∃ e, s.eventsMap fd = some e ∧ e.tokenEntry = token
  | _ => True

/-! ## The loop of `select` -/

theorem getReady_u64 (ev : BitVec 32) (a b : BitVec 64) : getReady ⟨ev, a⟩ = getReady ⟨ev, b⟩ := rfl

/-- The job and token the map has for a descriptor. -/
def owner (map : Fd → Option (JobEntry J)) (fd : Fd) : Option (J × TokenEntry) :=
  (map fd).map fun e => (e.job, e.tokenEntry)

/-- A round keeps every owner, and pushes the entry of the owner it looks up unless that
    is the awakener. -/
theorem selectOne_spec (acc : SelectAcc J) (ev : EpollEvent) (i : Nat) {w : J × TokenEntry}
    (hw : owner acc.map (ev.u64.setWidth 32) = some w) :
    owner (selectOne acc (ev, i)).map = owner acc.map ∧
      (selectOne acc (ev, i)).entries = acc.entries ++ (if notifies (some w) then [] else [entryFor w ev.events]) ∧
      (selectOne acc (ev, i)).notify = if notifies (some w) then some i else acc.notify := by
  obtain ⟨e, he, rfl⟩ := Option.map_eq_some_iff.mp hw
  simp only [selectOne, he]
  by_cases hn : e.tokenEntry.ttype = .notifyEvent
  · simp [hn, notifies]
  · refine ⟨?_, by simp [hn, notifies, entryFor, getReady_u64 ev.events ev.u64 0], by simp [hn, notifies]⟩
    funext fd
    simp only [hn, if_false, owner]
    by_cases hfd : fd = ev.u64.setWidth 32
    · subst hfd; simp [he]
    · simp [Function.update_of_ne hfd]

/-- The entry pushed for an event whose owner the map has. -/
def pushed (map : Fd → Option (JobEntry J)) (ev : EpollEvent) : Option (JobEntry J) :=
  let w := owner map (ev.u64.setWidth 32)
  if notifies w then none else w.map (entryFor · ev.events)

/-- The whole loop, on events whose descriptors all have an owner in the map. -/
theorem selectLoop_spec (xs : List (EpollEvent × Nat)) : ∀ acc : SelectAcc J,
    (∀ x ∈ xs, ∃ w, owner acc.map (x.1.u64.setWidth 32) = some w) →
    owner (xs.foldl selectOne acc).map = owner acc.map ∧
      (xs.foldl selectOne acc).entries = acc.entries ++ (xs.map Prod.fst).filterMap (pushed acc.map) ∧
      (xs.foldl selectOne acc).notify.isSome = (acc.notify.isSome ||
        (xs.map Prod.fst).any fun ev => notifies (owner acc.map (ev.u64.setWidth 32))) := by
  induction xs with
  | nil => intro acc _; simp
  | cons x xs ih =>
    intro acc hown
    obtain ⟨w, hw⟩ := hown x (List.mem_cons_self ..)
    obtain ⟨h1, h2, h3⟩ := selectOne_spec acc x.1 x.2 hw
    obtain ⟨k1, k2, k3⟩ := ih (selectOne acc x) (fun y hy => by
      rw [h1]; exact hown y (List.mem_cons_of_mem _ hy))
    have hp : pushed (selectOne acc x).map = pushed acc.map := by
      funext ev; unfold pushed; rw [h1]
    rw [List.foldl_cons]
    refine ⟨k1.trans h1, ?_, ?_⟩
    · rw [k2, h2, hp, List.map_cons, List.filterMap_cons, pushed, hw]
      by_cases hn : notifies (some w) <;> simp [hn]
    · rw [k3, h3, h1, List.map_cons, List.any_cons, hw]
      by_cases hn : notifies (some w) <;> simp [hn]

/-! ## Registration keeps the map and the kernel in step -/

/-- What the kernel holds for a descriptor leads back to it, and the map has the job and
    token it was last registered for. -/
structure Inv (τ : List (Call J)) (s : Selector J) : Prop where
  leadsBack : ∀ fd info, s.kernel fd = some info → info.u64.setWidth 32 = fd
  owned : ∀ fd, (s.kernel fd).isSome → owner s.eventsMap fd = latest τ fd ∧ (latest τ fd).isSome
  absent : ∀ fd, s.kernel fd = none → latest τ fd = none

theorem latest_snoc (τ : List (Call J)) (c : Call J) : latest (τ ++ [c]) = note (latest τ) c := by
  simp [latest]

theorem init_inv : Inv [] (Selector.new : Selector J) := by
  refine ⟨?_, ?_, fun _ _ => rfl⟩
  · intro fd info h; cases h
  · intro fd h; cases h

theorem register_ok {s : Selector J} {fd : Fd} {token : TokenEntry} {interests : Ready} {opts : PollOpt} {job : J}
    {refuse : Bool} (h : (register s fd token interests opts job refuse).1 = .ok ()) :
    (register s fd token interests opts job refuse).2 =
      ⟨update s.eventsMap fd (some ⟨token, job, Ready.empty⟩),
        update s.kernel fd (some ⟨ioeventToEpoll interests opts, fd.signExtend 64⟩)⟩ := by
  cases refuse <;> cases hk : s.kernel fd <;> simp_all [register, epollCtl]

theorem reregister_ok {s : Selector J} {fd : Fd} {token : TokenEntry} {interests : Ready} {opts : PollOpt}
    {refuse : Bool} (h : (reregister s fd token interests opts refuse).1 = .ok ()) :
    (s.kernel fd).isSome ∧ (reregister s fd token interests opts refuse).2 =
      ⟨s.eventsMap, update s.kernel fd (some ⟨ioeventToEpoll interests opts, token.token.val⟩)⟩ := by
  cases refuse <;> cases hk : s.kernel fd <;> simp_all [reregister, epollCtl]

theorem deregister_ok {s : Selector J} {fd : Fd} {refuse : Bool} (h : (deregister s fd refuse).1 = .ok ()) :
    (deregister s fd refuse).2 = ⟨update s.eventsMap fd none, update s.kernel fd none⟩ := by
  cases refuse <;> cases hk : s.kernel fd <;> simp_all [deregister, epollCtl]

theorem signExtend_truncate (fd : Fd) : (fd.signExtend 64).setWidth 32 = fd := by
  apply BitVec.eq_of_getLsbD_eq
  intro i hi
  have h64 : i < 64 := by omega
  simp only [BitVec.getLsbD_setWidth, BitVec.getLsbD_signExtend, hi, h64, decide_true, Bool.true_and, if_true]

/-- Every event of a report finds the owner the run gave its descriptor. -/
theorem report_owned {τ : List (Call J)} {s : Selector J} (h : Inv τ s) (rs : List (Fd × BitVec 32)) :
    ∀ ev ∈ report s.kernel rs, ∃ w, owner s.eventsMap (ev.u64.setWidth 32) = some w := by
  intro ev hev
  obtain ⟨r, -, hr⟩ := List.mem_filterMap.mp hev
  obtain ⟨info, hk, rfl⟩ := Option.map_eq_some_iff.mp hr
  obtain ⟨ho, hs⟩ := h.owned r.1 (by rw [hk]; rfl)
  show ∃ w, owner s.eventsMap (info.u64.setWidth 32) = some w
  rw [h.leadsBack _ _ hk, ho]
  exact Option.isSome_iff_exists.mp hs

theorem step_inv {τ : List (Call J)} {s s' : Selector J} {c : Call J} (h : Inv τ s) (hs : CallStep s c s')
    (hc : KeepsToken s c) : Inv (τ ++ [c]) s' := by
  cases hs with
  | register fd token interests opts job refuse hok =>
    rw [register_ok hok]
    refine ⟨fun fd' info hi => ?_, fun fd' hi => ?_, fun fd' hi => ?_⟩
    all_goals by_cases e : fd' = fd
    · subst e; simp only [Function.update_self, Option.some.injEq] at hi; subst hi; exact signExtend_truncate fd'
    · simp only [Function.update_of_ne e] at hi; exact h.leadsBack fd' info hi
    · subst e; simp [latest_snoc, note, owner]
    · simp only [Function.update_of_ne e] at hi
      simpa [latest_snoc, note, owner, Function.update_of_ne e] using h.owned fd' hi
    · subst e; simp at hi
    · simp only [Function.update_of_ne e] at hi
      simpa [latest_snoc, note, Function.update_of_ne e] using h.absent fd' hi
  | reregister fd token interests opts refuse hok =>
    obtain ⟨hk, hs'⟩ := reregister_ok hok
    obtain ⟨hnum, e, he, rfl⟩ := hc
    have howned := h.owned fd hk
    rw [hs']
    refine ⟨fun fd' info hi => ?_, fun fd' hi => ?_, fun fd' hi => ?_⟩
    all_goals by_cases e' : fd' = fd
    · subst e'; simp only [Function.update_self, Option.some.injEq] at hi; subst hi; exact hnum
    · simp only [Function.update_of_ne e'] at hi; exact h.leadsBack fd' info hi
    · subst e'
      have hl : latest τ fd' = some (e.job, e.tokenEntry) := by rw [← howned.1]; simp [owner, he]
      simp [latest_snoc, note, hl, owner, he]
    · simp only [Function.update_of_ne e'] at hi
      simpa [latest_snoc, note, Function.update_of_ne e'] using h.owned fd' hi
    · subst e'; simp at hi
    · simp only [Function.update_of_ne e'] at hi
      simpa [latest_snoc, note, Function.update_of_ne e'] using h.absent fd' hi
  | deregister fd refuse hok =>
    rw [deregister_ok hok]
    refine ⟨fun fd' info hi => ?_, fun fd' hi => ?_, fun fd' hi => ?_⟩
    all_goals by_cases e : fd' = fd
    · subst e; simp at hi
    · simp only [Function.update_of_ne e] at hi; exact h.leadsBack fd' info hi
    · subst e; simp at hi
    · simp only [Function.update_of_ne e] at hi
      simpa [latest_snoc, note, owner, Function.update_of_ne e] using h.owned fd' hi
    · subst e; simp [latest_snoc, note]
    · simp only [Function.update_of_ne e] at hi
      simpa [latest_snoc, note, Function.update_of_ne e] using h.absent fd' hi
  | select rs =>
    have hloop := selectLoop_spec (report s.kernel rs).zipIdx ⟨s.eventsMap, [], none⟩ (fun x hx =>
      report_owned h rs x.1 (List.fst_mem_of_mem_zipIdx hx))
    have hmap : owner (select s (report s.kernel rs)).2.2.eventsMap = owner s.eventsMap := by
      unfold select; simp only; split <;> exact hloop.1
    have hker : (select s (report s.kernel rs)).2.2.kernel = s.kernel := by
      unfold select; simp only; split <;> rfl
    refine ⟨?_, ?_, ?_⟩
    · rw [hker]; exact h.leadsBack
    · rw [hker, hmap, latest_snoc]; exact h.owned
    · rw [hker, latest_snoc]; exact h.absent

theorem inv {τ : List (Call J)} {s : Selector J} (h : Run (calls.restrict KeepsToken) τ s) : Inv τ s := by
  induction h with
  | init hs => cases hs; exact init_inv
  | step _ hs ih => exact step_inv ih hs.1 hs.2

/-! ## Routing -/

/-- The event the kernel reports for a descriptor, if it holds it. -/
def eventOf (k : Kernel) (r : Fd × BitVec 32) : Option EpollEvent := (k r.1).map fun info => ⟨r.2, info.u64⟩

theorem eventOf_pushed {τ : List (Call J)} {s : Selector J} (h : Inv τ s) (r : Fd × BitVec 32) :
    (eventOf s.kernel r).bind (pushed s.eventsMap) =
      if notifies (latest τ r.1) then none else (latest τ r.1).map (entryFor · r.2) := by
  cases hk : s.kernel r.1 with
  | none => simp [eventOf, hk, h.absent r.1 hk]
  | some info =>
    obtain ⟨ho, -⟩ := h.owned r.1 (by rw [hk]; rfl)
    simp [eventOf, hk, pushed, h.leadsBack _ _ hk, ho]

theorem eventOf_notifies {τ : List (Call J)} {s : Selector J} (h : Inv τ s) (r : Fd × BitVec 32) :
    ((eventOf s.kernel r).any fun ev => notifies (owner s.eventsMap (ev.u64.setWidth 32))) =
      notifies (latest τ r.1) := by
  cases hk : s.kernel r.1 with
  | none => simp [eventOf, hk, notifies, h.absent r.1 hk]
  | some info =>
    obtain ⟨ho, -⟩ := h.owned r.1 (by rw [hk]; rfl)
    simp [eventOf, hk, h.leadsBack _ _ hk, ho]

theorem select_entries (s : Selector J) (evs : List EpollEvent) :
    (select s evs).2.1.entries = (evs.zipIdx.foldl selectOne ⟨s.eventsMap, [], none⟩).entries := by
  unfold select; simp only; split <;> rfl

theorem select_notified (s : Selector J) (evs : List EpollEvent) :
    (select s evs).1 = (evs.zipIdx.foldl selectOne ⟨s.eventsMap, [], none⟩).notify.isSome := by
  unfold select; simp only; split <;> simp_all

/-- A report without its events of the awakener's type. -/
def forJobs (want : Fd → Option (J × TokenEntry)) (rs : List (Fd × BitVec 32)) : List (Fd × BitVec 32) :=
  rs.filter fun r => !notifies (want r.1)

theorem routed_cons (want : Fd → Option (J × TokenEntry)) (r : Fd × BitVec 32) (rs : List (Fd × BitVec 32)) :
    routed want (r :: rs) = ((want r.1).map (entryFor · r.2)).toList ++ routed want rs := by
  cases h : (want r.1).map (entryFor · r.2) <;> simp [routed, h]

theorem routed_forJobs (want : Fd → Option (J × TokenEntry)) (rs : List (Fd × BitVec 32)) :
    routed want (forJobs want rs) =
      rs.filterMap fun r => if notifies (want r.1) then none else (want r.1).map (entryFor · r.2) := by
  rw [routed, forJobs, List.filterMap_filter]
  congr 1
  funext r
  cases notifies (want r.1) <;> rfl

/-- An event of the awakener's type is one entry less. -/
theorem length_routed (want : Fd → Option (J × TokenEntry)) (rs : List (Fd × BitVec 32)) :
    (routed want rs).length = (routed want (forJobs want rs)).length + rs.countP fun r => notifies (want r.1) := by
  induction rs with
  | nil => rfl
  | cons r rs ih =>
    by_cases hn : notifies (want r.1)
    · obtain ⟨w, hw⟩ : ∃ w, want r.1 = some w := by
        cases hw : want r.1 with
        | none => simp [notifies, hw] at hn
        | some w => exact ⟨w, rfl⟩
      have hskip : forJobs want (r :: rs) = forJobs want rs := by simp [forJobs, hn]
      rw [routed_cons, hskip, List.length_append, ih, List.countP_cons, if_pos hn, hw]
      simp only [Option.map_some, Option.toList_some, List.length_singleton]
      omega
    · have hkeep : forJobs want (r :: rs) = r :: forJobs want rs := by simp [forJobs, hn]
      rw [hkeep, routed_cons, routed_cons, List.length_append, List.length_append, ih, List.countP_cons, if_neg hn]
      omega

/-- In every run whose `reregister` calls keep the token and whose tokens number their
    descriptors, `select` pushes on every later report, in order, the job and the latest
    token of each ready descriptor, exactly when none of these tokens is of the awakener's
    type. It always pushes those of the other descriptors, and answers whether there was
    one of that type. -/
theorem events_routed {τ : List (Call J)} {s : Selector J} (h : Run (calls.restrict KeepsToken) τ s)
    (rs : List (Fd × BitVec 32)) :
    ((select s (report s.kernel rs)).2.1.entries = routed (latest τ) rs ↔ ∀ r ∈ rs, notifies (latest τ r.1) = false) ∧
      (select s (report s.kernel rs)).2.1.entries = routed (latest τ) (forJobs (latest τ) rs) ∧
      (select s (report s.kernel rs)).1 = rs.any (fun r => notifies (latest τ r.1)) := by
  have hi := inv h
  obtain ⟨-, h2, h3⟩ := selectLoop_spec (report s.kernel rs).zipIdx ⟨s.eventsMap, [], none⟩ (fun x hx =>
    report_owned hi rs x.1 (List.fst_mem_of_mem_zipIdx hx))
  have hr : report s.kernel rs = rs.filterMap (eventOf s.kernel) := rfl
  have hentries : (select s (report s.kernel rs)).2.1.entries = routed (latest τ) (forJobs (latest τ) rs) := by
    rw [select_entries, h2, List.nil_append, List.zipIdx_map_fst, hr, List.filterMap_filterMap, routed_forJobs]
    exact congrArg (List.filterMap · rs) (funext (eventOf_pushed hi))
  refine ⟨?_, hentries, ?_⟩
  · rw [hentries]
    constructor
    · intro heq r hr
      have hlen := length_routed (latest τ) rs
      rw [← heq] at hlen
      have hcount : rs.countP (fun r => notifies (latest τ r.1)) = 0 := by omega
      simpa using List.countP_eq_zero.mp hcount r hr
    · intro hnone
      have hall : forJobs (latest τ) rs = rs := List.filter_eq_self.mpr fun r hr => by simp [hnone r hr]
      rw [hall]
  · rw [select_notified, h3, List.zipIdx_map_fst, hr, List.any_filterMap]
    simp only [Option.isSome_none, Bool.false_or]
    congr 1
    funext r
    rw [← eventOf_notifies hi r]
    cases eventOf s.kernel r <;> rfl

def sock (n : BitVec 64) : TokenEntry := ⟨.socketEvent, ⟨n⟩⟩

/-- Descriptor 5 registered under its own number, reregistered with it, and ready. -/
theorem events_routed_own_number :
    let s1 := (register (Selector.new : Selector Nat) 5 (sock 5) Ready.readable PollOpt.edge 50 false).2
    let s2 := (reregister s1 5 (sock 5) Ready.writable PollOpt.edge false).2
    (select s2 (report s2.kernel [(5, 4)])).2.1.entries = [⟨sock 5, 50, Ready.writable⟩] := by
  intro s1 s2
  have h1 : Run (calls.restrict KeepsToken) ([] ++ [.register 5 (sock 5) 50]) s1 :=
    .step (.init rfl) ⟨.register _ 5 (sock 5) Ready.readable PollOpt.edge 50 false rfl, trivial⟩
  have h2 : Run (calls.restrict KeepsToken) _ s2 :=
    .step h1 ⟨.reregister _ 5 (sock 5) Ready.writable PollOpt.edge false rfl, by decide, _, rfl, rfl⟩
  exact (events_routed h2 [(5, 4)]).1.mpr (List.forall_mem_singleton.mpr rfl)

/-- Descriptors 5 and 7 with jobs 50 and 70. After `reregister` of 5 with the token
    number 7, an event of 5 is handed to job 70. -/
theorem reregister_misroutes :
    ¬ ∀ (τ : List (Call Nat)) (s : Selector Nat), Run calls τ s → ∀ rs : List (Fd × BitVec 32),
      (select s (report s.kernel rs)).2.1.entries = routed (latest τ) rs := by
  intro h
  let s1 := (register (Selector.new : Selector Nat) 5 (sock 5) Ready.readable PollOpt.edge 50 false).2
  let s2 := (register s1 7 (sock 7) Ready.readable PollOpt.edge 70 false).2
  let s3 := (reregister s2 5 (sock 7) Ready.readable PollOpt.edge false).2
  have h1 : Run calls _ s1 := .step (.init rfl) (.register _ 5 (sock 5) Ready.readable PollOpt.edge 50 false rfl)
  have h2 : Run calls _ s2 := .step h1 (.register _ 7 (sock 7) Ready.readable PollOpt.edge 70 false rfl)
  have h3 : Run calls _ s3 := .step h2 (.reregister _ 5 (sock 7) Ready.readable PollOpt.edge false rfl)
  have hr := h _ _ h3 [(5, 1)]
  exact absurd hr (by decide)

end Sickle.Sys
