/-
  Sickle.Sys.Vectors — the two vectors of `Events`.

  `select` has the kernel fill `events`, pushes an entry for each event whose descriptor
  the map knows, and takes the awakener's event out afterwards; `push_event` appends to
  both vectors, the entry with no readiness.

  - `vectors_agree_iff`: the vectors have one length, and each entry the readiness of its
    event, exactly when every ready descriptor is known, one at most is the awakener's, and
    nothing pushed is readable, writable or priority.
  - `a_pushed_event_has_no_readiness`: a readable event of the readiness queue.
-/

import Sickle.Sys.Selector

namespace Sickle.Sys

open Function (update)

variable {J : Type}

structure Event where
  kind : Ready
  token : TokenEntry
  deriving DecidableEq, Repr

namespace Events

/-- `Events::get_ready`. -/
def getReady (evts : Events J) (idx : Nat) : Option Ready := (evts.events[idx]?).map Sys.getReady

def pushEvent (evts : Events J) (x : Event × J) : Events J where
  events := evts.events ++ [⟨ioeventToEpoll x.1.kind PollOpt.empty, x.1.token.token.val⟩]
  entries := evts.entries ++ [⟨x.1.token, x.2, Ready.empty⟩]

/-- The vectors have one length, and `io_process` hands each job the readiness of its event. -/
def Agree (evts : Events J) : Prop :=
  evts.events.length = evts.entries.length ∧
    ∀ i, i < evts.entries.length → (evts.entries[i]?).map (·.ready) = evts.getReady i

theorem agree_iff (evts : Events J) : evts.Agree ↔ evts.entries.map (·.ready) = evts.events.map Sys.getReady := by
  constructor
  · rintro ⟨hl, h⟩
    apply List.ext_getElem?
    intro i
    rw [List.getElem?_map, List.getElem?_map]
    by_cases hi : i < evts.entries.length
    · exact h i hi
    · rw [List.getElem?_eq_none (Nat.le_of_not_lt hi), List.getElem?_eq_none (by omega)]
      rfl
  · intro h
    have hl := congrArg List.length h
    rw [List.length_map, List.length_map] at hl
    refine ⟨hl.symm, fun i _ => ?_⟩
    have hi := congrArg (fun l => l[i]?) h
    simpa [getReady] using hi

theorem pushEvents (evts : Events J) (xs : List (Event × J)) :
    (xs.foldl pushEvent evts).events =
        evts.events ++ xs.map (fun x => ⟨ioeventToEpoll x.1.kind PollOpt.empty, x.1.token.token.val⟩) ∧
      (xs.foldl pushEvent evts).entries = evts.entries ++ xs.map fun x => ⟨x.1.token, x.2, Ready.empty⟩ := by
  induction xs generalizing evts with
  | nil => simp
  | cons x xs ih =>
    obtain ⟨h1, h2⟩ := ih (evts.pushEvent x)
    rw [List.foldl_cons, h1, h2]
    simp [pushEvent]

end Events

/-! ## `push_event` -/

/-- What a pushed event shows through `get_ready`. -/
theorem getReady_pushed (r : Ready) (u : BitVec 64) : getReady ⟨ioeventToEpoll r PollOpt.empty, u⟩ = Ready.empty ↔
    r.isReadable = false ∧ r.isWritable = false ∧ UnixReady.isPriority r = false := by
  have hopts : PollOpt.empty.isEdge = false ∧ PollOpt.empty.isLevel = false ∧ PollOpt.empty.isOneshot = false := by decide
  obtain ⟨he, hl, ho⟩ := hopts
  unfold ioeventToEpoll
  rw [he, hl, ho]
  cases r.isReadable <;> cases r.isWritable <;> cases UnixReady.isPriority r <;> simp [getReady] <;> decide

/-! ## `select` -/

/-- What `events_map` says of an event: whether its descriptor is the awakener's, or nothing. -/
def mark (map : Fd → Option (JobEntry J)) (ev : EpollEvent) : Option Bool :=
  (map (ev.u64.setWidth 32)).map fun e => e.tokenEntry.ttype = .notifyEvent

/-- A round changes no mark; it pushes the readiness of an event that the map knows and that
    is not the awakener's. -/
theorem selectOne_marks (acc : SelectAcc J) (x : EpollEvent × Nat) :
    mark (selectOne acc x).map = mark acc.map ∧
      (selectOne acc x).entries.map (·.ready) =
        acc.entries.map (·.ready) ++ ([x.1].filter fun ev => mark acc.map ev = some false).map getReady ∧
      (selectOne acc x).notify = if mark acc.map x.1 = some true then some x.2 else acc.notify := by
  cases he : acc.map (x.1.u64.setWidth 32) with
  | none => simp [selectOne, mark, he]
  | some e =>
    by_cases hn : e.tokenEntry.ttype = .notifyEvent
    · simp [selectOne, mark, he, hn]
    · have hm : mark acc.map x.1 = some false := by simp [mark, he, hn]
      simp only [selectOne, he, if_neg hn]
      refine ⟨?_, ?_, ?_⟩
      · funext ev
        unfold mark
        by_cases hfd : ev.u64.setWidth 32 = x.1.u64.setWidth 32
        · rw [hfd, he]
          simp
        · simp only [Function.update_of_ne hfd]
      · simp [hm]
      · simp [hm]

theorem selectLoop_marks (xs : List (EpollEvent × Nat)) (acc : SelectAcc J) :
    (xs.foldl selectOne acc).entries.map (·.ready) =
        acc.entries.map (·.ready) ++ ((xs.map Prod.fst).filter fun ev => mark acc.map ev = some false).map getReady ∧
      ((∀ x ∈ xs, mark acc.map x.1 ≠ some true) → (xs.foldl selectOne acc).notify = acc.notify) ∧
      ((∃ x ∈ xs, mark acc.map x.1 = some true) →
        ∃ x ∈ xs, mark acc.map x.1 = some true ∧ (xs.foldl selectOne acc).notify = some x.2) := by
  induction xs generalizing acc with
  | nil => simp
  | cons x xs ih =>
    obtain ⟨hm, he, hn⟩ := selectOne_marks acc x
    obtain ⟨h1, h2, h3⟩ := ih (selectOne acc x)
    rw [hm] at h1 h2 h3
    rw [List.foldl_cons]
    refine ⟨?_, ?_, ?_⟩
    · rw [h1, he, List.map_cons, List.append_assoc, ← List.map_append, ← List.filter_append, List.singleton_append]
    · intro h
      rw [h2 fun y hy => h y (List.mem_cons_of_mem _ hy), hn, if_neg (h x List.mem_cons_self)]
    · intro h
      by_cases hrest : ∃ y ∈ xs, mark acc.map y.1 = some true
      · obtain ⟨y, hy, hrest⟩ := h3 hrest
        exact ⟨y, List.mem_cons_of_mem _ hy, hrest⟩
      · obtain ⟨y, hy, hty⟩ := h
        obtain rfl : y = x := (List.mem_cons.mp hy).resolve_right fun hy => hrest ⟨y, hy, hty⟩
        have hnone : ∀ z ∈ xs, mark acc.map z.1 ≠ some true := fun z hz ht => hrest ⟨z, hz, ht⟩
        exact ⟨y, hy, hty, by rw [h2 hnone, hn, if_pos hty]⟩

/-- The events of the awakener, of other descriptors, and of descriptors the map does not
    know make up the list. -/
theorem count_marks (m : EpollEvent → Option Bool) (evs : List EpollEvent) :
    evs.length = evs.countP (m · = some false) + evs.countP (m · = some true) + evs.countP (m · = none) := by
  induction evs with
  | nil => rfl
  | cons ev evs ih =>
    rw [List.length_cons, List.countP_cons, List.countP_cons, List.countP_cons, ih]
    rcases m ev with _ | _ | _ <;> simp <;> omega

/-- Where nothing is unknown or the awakener's. -/
theorem filter_known {m : EpollEvent → Option Bool} {evs : List EpollEvent}
    (h : evs.length = evs.countP (m · = some false)) : (evs.filter fun ev => m ev = some false) = evs := by
  rw [List.filter_eq_self]
  exact List.countP_eq_length.mp h.symm

/-- The vectors of a `select`, their readiness: of the known events, and of the events less
    one of the awakener's. -/
theorem select_vectors (s : Selector J) (evs : List EpollEvent) :
    (select s evs).2.1.entries.map (·.ready) = (evs.filter fun ev => mark s.eventsMap ev = some false).map getReady ∧
      ((∀ ev ∈ evs, mark s.eventsMap ev ≠ some true) → (select s evs).2.1.events = evs) ∧
      ((∃ ev ∈ evs, mark s.eventsMap ev = some true) → ∃ l₁ ev l₂, evs = l₁ ++ ev :: l₂ ∧
        mark s.eventsMap ev = some true ∧ (select s evs).2.1.events = l₁ ++ l₂) := by
  obtain ⟨h1, h2, h3⟩ := selectLoop_marks evs.zipIdx ⟨s.eventsMap, [], none⟩
  rw [List.zipIdx_map_fst] at h1
  have hentries : (select s evs).2.1.entries = (evs.zipIdx.foldl selectOne ⟨s.eventsMap, [], none⟩).entries := by
    unfold select
    simp only
    split <;> rfl
  refine ⟨by rw [hentries, h1, List.map_nil, List.nil_append], ?_, ?_⟩
  · intro h
    have hn := h2 fun x hx => h x.1 (List.fst_mem_of_mem_zipIdx hx)
    unfold select
    simp only
    rw [hn]
  · rintro ⟨ev, hev, hm⟩
    obtain ⟨i, hi, rfl⟩ := List.getElem_of_mem hev
    obtain ⟨⟨ev, k⟩, hx, hm, hn⟩ := h3 ⟨(evs[i], i), List.mk_mem_zipIdx_iff_getElem?.mpr (List.getElem?_eq_getElem hi), hm⟩
    have hk : evs[k]? = some ev := List.mk_mem_zipIdx_iff_getElem?.mp hx
    obtain ⟨hlt, hk⟩ := List.getElem?_eq_some_iff.mp hk
    refine ⟨evs.take k, ev, evs.drop (k + 1), ?_, hm, ?_⟩
    · rw [← hk, List.getElem_cons_drop, List.take_append_drop]
    · unfold select
      simp only
      rw [hn]
      exact List.eraseIdx_eq_take_drop_succ ..

/-- The vectors of a `select` have one length when every event is known and one at most is the
    awakener's, and then they agree. -/
theorem select_agree (s : Selector J) (evs : List EpollEvent) :
    ((select s evs).2.1.events.length = (select s evs).2.1.entries.length ↔
      (∀ ev ∈ evs, mark s.eventsMap ev ≠ none) ∧ evs.countP (mark s.eventsMap · = some true) ≤ 1) ∧
    ((select s evs).2.1.events.length = (select s evs).2.1.entries.length → (select s evs).2.1.Agree) := by
  obtain ⟨hentries, hnone, hsome⟩ := select_vectors s evs
  have hlen := congrArg List.length hentries
  rw [List.length_map, List.length_map, ← List.countP_eq_length_filter] at hlen
  have hunknown : (∀ ev ∈ evs, mark s.eventsMap ev ≠ none) ↔ evs.countP (mark s.eventsMap · = none) = 0 := by
    rw [List.countP_eq_zero]
    simp
  rw [hunknown, hlen, Events.agree_iff, hentries]
  by_cases hany : ∃ ev ∈ evs, mark s.eventsMap ev = some true
  · obtain ⟨l₁, ev, l₂, rfl, hev, hevents⟩ := hsome hany
    have hcount := count_marks (mark s.eventsMap) (l₁ ++ l₂)
    have hother : (l₁ ++ ev :: l₂).countP (mark s.eventsMap · = some false) = (l₁ ++ l₂).countP (mark s.eventsMap · = some false) := by
      simp [List.countP_append, hev]
    have hone : (l₁ ++ ev :: l₂).countP (mark s.eventsMap · = some true) = (l₁ ++ l₂).countP (mark s.eventsMap · = some true) + 1 := by
      simp [List.countP_append, hev]
      omega
    have hnew : (l₁ ++ ev :: l₂).countP (mark s.eventsMap · = none) = (l₁ ++ l₂).countP (mark s.eventsMap · = none) := by
      simp [List.countP_append, hev]
    rw [hevents, hother, hone, hnew]
    refine ⟨by omega, fun hknown => ?_⟩
    rw [List.filter_append, List.filter_cons, if_neg (by simp [hev]), ← List.filter_append, filter_known hknown]
  · have hany : ∀ ev ∈ evs, mark s.eventsMap ev ≠ some true := fun ev hev hm => hany ⟨ev, hev, hm⟩
    have hcount := count_marks (mark s.eventsMap) evs
    have hzero : evs.countP (mark s.eventsMap · = some true) = 0 := by
      rw [List.countP_eq_zero]
      simpa using hany
    rw [hnone hany]
    refine ⟨by omega, fun h => ?_⟩
    rw [filter_known h]

/-- For every kernel result, known to the map or not, and whatever is pushed after it: the two
    vectors have one length and each entry the readiness of its event exactly when every
    ready descriptor is known to the map, one at most is of the awakener's type, and
    nothing that is pushed is readable, writable or priority. -/
theorem vectors_agree_iff (s : Selector J) (evs : List EpollEvent) (xs : List (Event × J)) :
    (xs.foldl Events.pushEvent (select s evs).2.1).Agree ↔
      (∀ ev ∈ evs, mark s.eventsMap ev ≠ none) ∧ evs.countP (mark s.eventsMap · = some true) ≤ 1 ∧
        ∀ x ∈ xs, x.1.kind.isReadable = false ∧ x.1.kind.isWritable = false ∧ UnixReady.isPriority x.1.kind = false := by
  obtain ⟨hlen, hagree⟩ := select_agree s evs
  obtain ⟨hev, hen⟩ := Events.pushEvents (select s evs).2.1 xs
  rw [← and_assoc, ← hlen]
  have hpushed : (xs.map fun x => (⟨x.1.token, x.2, Ready.empty⟩ : JobEntry J)).map (·.ready) =
      (xs.map fun x => (⟨ioeventToEpoll x.1.kind PollOpt.empty, x.1.token.token.val⟩ : EpollEvent)).map getReady ↔
      ∀ x ∈ xs, x.1.kind.isReadable = false ∧ x.1.kind.isWritable = false ∧ UnixReady.isPriority x.1.kind = false := by
    rw [List.map_map, List.map_map, List.map_inj_left]
    exact forall₂_congr fun x _ => eq_comm.trans (getReady_pushed ..)
  constructor
  · intro h
    have hl : (select s evs).2.1.events.length = (select s evs).2.1.entries.length := by
      have hl := h.1
      rw [hev, hen] at hl
      simpa using hl
    rw [Events.agree_iff, hev, hen, List.map_append, List.map_append] at h
    exact ⟨hl, hpushed.mp (List.append_inj h (by simpa using hl.symm)).2⟩
  · rintro ⟨hl, hx⟩
    rw [Events.agree_iff, hev, hen, List.map_append, List.map_append, (Events.agree_iff _).mp (hagree hl), hpushed.mpr hx]

/-- A readable event that the readiness queue pushes: its entry has no readiness, `get_ready`
    shows it. -/
theorem a_pushed_event_has_no_readiness : ¬ ∀ (s : Selector Nat) (evs : List EpollEvent) (xs : List (Event × Nat)),
    (xs.foldl Events.pushEvent (select s evs).2.1).Agree := by
  intro h
  have hready := (h .new [] [(⟨Ready.readable, ⟨.otherEvent, ⟨3⟩⟩⟩, 0)]).2 0 (by decide)
  exact absurd hready (by decide)

end Sickle.Sys
