/-
  Sickle.Net.Turns — `enqueue_job` is a waiting line.

  A call joins the line when its node takes its place at the head of the readiness queue;
  from there its closure goes through the poller's hands and the entries to `io_process`,
  and no other overtakes it. The node may go through the queue a second time, when its
  `Registration` is dropped; by then the closure has left it.

  - `line_step`: a step of the loop leaves the line as it is, or a call joins it, or
    `io_process` serves the first.
  - `first_come_first_served`: the callback of a call that had returned before another
    began runs before the other's.
-/

import Sickle.Lib.Fifo
import Sickle.Lib.Simulation
import Sickle.Net.Jobs

namespace Sickle.Net

open Function (update)
open Sickle.Lib Sickle.Lib.Chain Sickle.Poll

variable {κ ν : Type}

/-! ## The line -/

/-- The calls whose closures the entries hold. -/
def callsOf (xs : List (JobEntry (Option (Closure ν)))) : List ν := xs.filterMap fun x => x.job.join

/-- Those that `io_process` has still to come to. -/
def ahead (l : LoopPc ν) (xs : List (JobEntry (Option (Closure ν)))) : List ν :=
  match l with
  | .polling => callsOf xs
  | .processing i => callsOf (xs.drop i)
  | _ => []

/-- The closure of the call has not left its node. -/
def Unpushed (s : EventLoop κ ν) (n : ν) : Prop := s.calls n ≠ .other ∧ n ∉ ahead s.pc s.dst.entries ∧ s.invoked n = 0

instance [DecidableEq ν] (s : EventLoop κ ν) : DecidablePred (Unpushed s) := fun n =>
  inferInstanceAs (Decidable (s.calls n ≠ .other ∧ n ∉ ahead s.pc s.dst.entries ∧ s.invoked n = 0))

/-- What the poller has in hand. -/
def Held (s : EventLoop κ ν) (hand : List ν) : Prop :=
  (hand = [] ∨ ∃ n, hand = [n]) ∧ ∀ n, n ∈ hand ↔ Unpushed s n ∧ (s.nodes n).consumer ≠ .away

/-- The calls whose callbacks are to run, in that order. -/
def Line [DecidableEq ν] (s : EventLoop κ ν) (line : List ν) : Prop :=
  ∃ rest hand, Inv s.poller.queue rest ∧ Held s hand ∧
    line = ahead s.pc s.dst.entries ++ hand ++ (nodes (s.poller.queue.tail :: rest)).filter (Unpushed s)

section Entries

variable {xs : List (JobEntry (Option (Closure ν)))} {l : LoopPc ν} {n : ν}

theorem mem_callsOf : n ∈ callsOf xs ↔ ∃ x ∈ xs, x.job = some (some n) := by
  unfold callsOf
  rw [List.mem_filterMap]
  constructor
  · rintro ⟨x, hx, hj⟩
    exact ⟨x, hx, by rwa [Option.join_eq_some_iff] at hj⟩
  · rintro ⟨x, hx, hj⟩
    exact ⟨x, hx, by rw [hj]; rfl⟩

theorem callsOf_plain (h : ∀ x ∈ xs, Plain x.job) : callsOf xs = [] := by
  rw [List.eq_nil_iff_forall_not_mem]
  intro n hn
  obtain ⟨x, hx, hj⟩ := mem_callsOf.mp hn
  exact h x hx n hj

theorem callsOf_concat (x : JobEntry (Option (Closure ν))) : callsOf (xs ++ [x]) = callsOf xs ++ x.job.join.toList := by
  unfold callsOf
  rw [List.filterMap_append]
  cases h : x.job.join <;> simp [h]

theorem callsOf_cons (x : JobEntry (Option (Closure ν))) : callsOf (x :: xs) = x.job.join.toList ++ callsOf xs := by
  unfold callsOf
  cases h : x.job.join <;> simp [h]

theorem Plain.join {job : Option (Closure ν)} (h : Plain job) : job.join = none := by
  cases hj : job.join with
  | none => rfl
  | some n => exact absurd (Option.join_eq_some_iff.mp hj) (h n)

variable [DecidableEq ν]

theorem mem_ahead : n ∈ ahead l xs ↔ 0 < pendingOf l n xs := by
  have key : ∀ ys : List (JobEntry (Option (Closure ν))), n ∈ callsOf ys ↔ 0 < entriesOf n ys := by
    intro ys
    rw [mem_callsOf, entriesOf, List.countP_pos_iff]
    simp
  unfold ahead pendingOf
  cases l with
  | polling => exact key xs
  | processing i => exact key (xs.drop i)
  | _ => simp

theorem Counted.fresh_ahead {invoked : Nat} (h : Counted n l xs invoked false) : n ∉ ahead l xs ∧ invoked = 0 := by
  obtain ⟨hnone, hinv⟩ := h.fresh rfl
  refine ⟨fun hm => ?_, hinv⟩
  have hpos := mem_ahead.mp hm
  have hle : pendingOf l n xs ≤ entriesOf n xs := by
    unfold pendingOf
    cases l with
    | polling => exact Nat.le_refl _
    | processing i => exact (List.drop_sublist ..).countP_le
    | _ => exact Nat.zero_le _
  omega

omit [DecidableEq ν] in
theorem Takes.ahead {c c' : CallPc} {l' : LoopPc ν} {e : NodeEv (Actor κ) Unit (Closure ν)} {m : ν} (h : Takes m c l e c' l') :
    Net.ahead l' xs = Net.ahead l xs := by
  cases h <;> rfl

omit [DecidableEq ν] in
/-- A call is not another registration's, and stays so. -/
theorem Takes.other_iff {c c' : CallPc} {l' : LoopPc ν} {e : NodeEv (Actor κ) Unit (Closure ν)} {m : ν} (h : Takes m c l e c' l') :
    c' = .other ↔ c = .other := by
  cases h with
  | signalled l ok => cases ok <;> simp
  | _ => simp

end Entries

/-! ## Where an unpushed closure is -/

section Loop

variable [DecidableEq κ] [DecidableEq ν] {n : ν} {more : Nat} {s s' : EventLoop κ ν} {line : List ν}

omit [DecidableEq κ] in
/-- With the thread of its call, or registered and not pushed. -/
theorem LoopInv.unpushed (h : LoopInv s) (hu : Unpushed s n) : s.pc.drops ≠ some n ∧
    (ByCaller n (s.calls n) (s.nodes n) ∨ (Registered n (s.calls n) (s.nodes n) ∧ (s.nodes n).consumer ≠ .resetJob)) := by
  obtain ⟨hother, hahead, hinv⟩ := hu
  obtain ⟨pushed, hstage, hcount⟩ := h.calls n
  have hp : pushed = false := by
    cases pushed with
    | false => rfl
    | true =>
      have hone := hcount.once rfl
      have hpos := mt mem_ahead.mpr hahead
      omega
  subst hp
  cases hstage with
  | other hc => exact absurd hc hother
  | byCaller hcall _ hd => exact ⟨hd, .inl hcall⟩
  | registered _ hreg _ hd hp => exact ⟨hd, .inr ⟨hreg, fun hr => nomatch hp.mpr hr⟩⟩

omit [DecidableEq κ] [DecidableEq ν] in
theorem Registered.linked_iff {c : CallPc} {t : NodeSt (Actor κ) Unit (Closure ν)} (h : Registered n c t) :
    t.linked = 0 ↔ t.consumer ≠ .away := by
  have hp := h.place
  generalize t.node = N at hp
  generalize t.linked = k at hp ⊢
  generalize t.consumer = x at hp ⊢
  cases hp <;> simp

omit [DecidableEq ν] in
/-- An unpushed node does not leave the poller's hands by itself. -/
theorem LoopInv.stays_held [DecidableEq ν] (h : LoopInv s) (hu : Unpushed s n) {e : NodeEv (Actor κ) Unit (Closure ν)}
    {t : NodeSt (Actor κ) Unit (Closure ν)} {c : CallPc} {l : LoopPc ν} (hs : NodeStep (s.nodes n) e t) (he : e.Apart)
    (ht : Takes n (s.calls n) s.pc e c l) : t.consumer ≠ .away ↔ (s.nodes n).consumer ≠ .away := by
  obtain ⟨-, hlinked, -, haway, -⟩ := apart_step hs he
  refine ⟨haway, fun hc => ?_⟩
  obtain ⟨hd, hcall | ⟨hreg, hne⟩⟩ := h.unpushed hu
  · exact absurd hcall.consumer hc
  · have hpass : Passes n c t false e := hreg.step hs ht hd (by simp [hne])
    cases hpass with
    | stays _ _ hreg' =>
      rw [← hreg'.linked_iff, hlinked, hreg.linked_iff]
      exact hc
    | pushes _ hreset => simp [hreset]

/-- Nor does it when it meets the queue. -/
theorem LoopInv.meets_held (h : LoopInv s) (hu : Unpushed s n) {e : NodeEv (Actor κ) Unit (Closure ν)} {f : Ev (Actor κ × ν) ν}
    {t : NodeSt (Actor κ) Unit (Closure ν)} (hm : Meets n e f) (hs : NodeStep (s.nodes n) e t) (he : e ≠ .dequeued) :
    t.consumer ≠ .away ↔ (s.nodes n).consumer ≠ .away := by
  cases hm with
  | enters a =>
    cases hs with
    | loadQueue => exact Iff.rfl
    | updJob => exact Iff.rfl
    | putBack next readiness hc => simp [hc]
  | linked a =>
    cases hs with
    | link => exact Iff.rfl
    | requeueLink next readiness hc =>
      obtain ⟨-, hcall | ⟨hreg, -⟩⟩ := h.unpushed hu
      · exact nomatch hcall.consumer.symm.trans hc
      · obtain ⟨N, k, -, -, hplace⟩ := hreg.at_consumer hc
        cases hplace
  | returned i w =>
    cases hs with
    | wakeup => exact Iff.rfl
  | data => exact absurd rfl he

omit [DecidableEq κ] [DecidableEq ν] in
/-- A node that nobody has put in the queue is not in its chain. -/
theorem unchained {ι J : Type} {w : World ι ν J} (hw : WorldInv w) {rest : List (Ptr ν)} (hinv : Inv w.queue rest)
    (hl : (w.nodes n).linked = 0) (hpc : ∀ i, ((w.nodes n).pc i).stage ≠ .entering)
    (hc : (w.nodes n).consumer.entering = false) : n ∉ nodes (w.queue.tail :: rest) := by
  intro hmem
  rcases (hw.tied n).busy.mp (hinv.flights.busyChain n (mem_nodes.mp hmem)) with hlink | ⟨i, hi⟩ | hent
  · omega
  · exact hpc i hi
  · rw [hc] at hent
    cases hent

omit [DecidableEq κ] [DecidableEq ν] in
theorem After.outside {c : CallPc} {p : Pc Unit (Closure ν)} (h : After c p) : p.stage ≠ .entering := by
  cases h <;> simp [Pc.stage]

omit [DecidableEq κ] [DecidableEq ν] in
/-- The poller has the node in hand: it is not in the queue as well. -/
theorem Registered.held_unchained {c : CallPc} {q : Queue (Actor κ × ν) ν} {ts : ν → NodeSt (Actor κ) Unit (Closure ν)}
    (h : Registered n c (ts n)) (hw : WorldInv ⟨q, ts⟩) {rest : List (Ptr ν)} (hinv : Inv q rest) (hc : (ts n).consumer ≠ .away) :
    n ∉ nodes (q.tail :: rest) := by
  refine unchained hw hinv (h.linked_iff.mpr hc) (fun i => ?_) ?_
  · by_cases hi : i = .caller
    · subst hi
      exact h.after.outside
    · show ((ts n).pc i).stage ≠ .entering
      rw [h.others i hi]
      simp [Pc.stage]
  · have hp := h.place
    show (ts n).consumer.entering = false
    generalize (ts n).node = N at hp
    generalize (ts n).linked = k at hp
    generalize (ts n).consumer = x at hp ⊢
    cases hp <;> rfl

/-! ## A step of the loop -/

omit [DecidableEq κ] in
theorem filter_unpushed (hu : ∀ m, Unpushed s' m ↔ Unpushed s m) (xs : List ν) :
    xs.filter (Unpushed s') = xs.filter (Unpushed s) :=
  List.filter_congr fun m _ => decide_eq_decide.mpr (hu m)

omit [DecidableEq κ] [DecidableEq ν] in
theorem Held.congr {hand : List ν} (h : Held s hand) (hu : ∀ m, Unpushed s' m ↔ Unpushed s m)
    (hc : ∀ m, Unpushed s m → ((s'.nodes m).consumer ≠ .away ↔ (s.nodes m).consumer ≠ .away)) : Held s' hand := by
  refine ⟨h.1, fun m => ?_⟩
  rw [h.2 m, hu m]
  exact and_congr_right fun hm => (hc m hm).symm

omit [DecidableEq κ] in
/-- No call joins, and none is served. -/
theorem Line.stays (h : Line s line) (ha : ahead s'.pc s'.dst.entries = ahead s.pc s.dst.entries)
    (ho : ∀ m, s'.calls m = .other ↔ s.calls m = .other) (hi : s'.invoked = s.invoked)
    (hc : ∀ m, Unpushed s m → ((s'.nodes m).consumer ≠ .away ↔ (s.nodes m).consumer ≠ .away))
    (hq : ∀ rest, Inv s.poller.queue rest → ∃ rest', Inv s'.poller.queue rest' ∧
      nodes (s'.poller.queue.tail :: rest') = nodes (s.poller.queue.tail :: rest)) : Line s' line := by
  obtain ⟨rest, hand, hinv, hheld, rfl⟩ := h
  have hu : ∀ m, Unpushed s' m ↔ Unpushed s m := by
    intro m
    unfold Unpushed
    rw [ha, hi]
    exact and_congr_left fun _ => not_congr (ho m)
  obtain ⟨rest', hinv', hnodes⟩ := hq rest hinv
  exact ⟨rest', hand, hinv', hheld.congr hu hc, by rw [ha, hnodes, filter_unpushed hu]⟩

/-- What a step does to the line, and to the record of the callbacks. -/
inductive Advances (s s' : EventLoop κ ν) (line : List ν) : Prop
  | stays : Line s' line → s'.invoked = s.invoked → Advances s s' line
  | joins (n : ν) : Line s' (line ++ [n]) → s'.invoked = s.invoked → Advances s s' line
  | serves (n : ν) (rest : List ν) : line = n :: rest → Line s' rest → s'.invoked = update s.invoked n (s.invoked n + 1) →
      Advances s s' line

omit [DecidableEq κ] in
theorem Line.advances_here (h : Line s line) (ha : ahead s'.pc s'.dst.entries = ahead s.pc s.dst.entries)
    (ho : ∀ m, s'.calls m = .other ↔ s.calls m = .other) (hi : s'.invoked = s.invoked) (hn : s'.nodes = s.nodes)
    (hq : s'.poller.queue = s.poller.queue) : Advances s s' line :=
  .stays (h.stays ha ho hi (fun m _ => by rw [hn]) fun rest hinv => ⟨rest, by rw [hq]; exact hinv, by rw [hq]⟩) hi

omit [DecidableEq κ] in
theorem other_update {c : CallPc} (h : c = .other ↔ s.calls n = .other) (m : ν) :
    update s.calls n c m = .other ↔ s.calls m = .other := by
  by_cases hm : m = n
  · subst hm
    rw [Function.update_self]
    exact h
  · rw [Function.update_of_ne hm]

omit [DecidableEq κ] in
/-- The poll makes an entry of the closure in its hands. -/
theorem Line.pushes (h : Line s line) (hl : LoopInv s) (hw : WorldInv ⟨s.poller.queue, s.nodes⟩) (hpc : s.pc = .polling)
    {t : NodeSt (Actor κ) Unit (Closure ν)} (hu : Unpushed s n) (hc : (s.nodes n).consumer ≠ .away) :
    Line { s with nodes := update s.nodes n t, dst := s.dst.pushEvent ⟨Ready.readable, OTHER_TOKEN⟩ (some (some n)) } line := by
  obtain ⟨rest, hand, hinv, ⟨hsize, hheld⟩, rfl⟩ := h
  obtain rfl : hand = [n] := by
    have hn := (hheld n).mpr ⟨hu, hc⟩
    rcases hsize with rfl | ⟨m, rfl⟩
    · cases hn
    · rw [List.mem_singleton.mp hn]
  have hahead : ahead s.pc (s.dst.entries ++ [⟨OTHER_TOKEN, some (some n), Ready.empty⟩]) = ahead s.pc s.dst.entries ++ [n] := by
    rw [hpc]
    exact callsOf_concat _
  obtain ⟨-, hcall | ⟨hreg, -⟩⟩ := hl.unpushed hu
  · exact absurd hcall.consumer hc
  have hout : n ∉ nodes (s.poller.queue.tail :: rest) := hreg.held_unchained hw hinv hc
  have hothers : ∀ m, m ≠ n → (Unpushed { s with
      nodes := update s.nodes n t
      dst := s.dst.pushEvent ⟨Ready.readable, OTHER_TOKEN⟩ (some (some n)) } m ↔ Unpushed s m) := by
    intro m hm
    show (s.calls m ≠ .other ∧ m ∉ ahead s.pc (s.dst.entries ++ [⟨OTHER_TOKEN, some (some n), Ready.empty⟩]) ∧ s.invoked m = 0) ↔ _
    rw [hahead, List.mem_append, List.mem_singleton, or_iff_left hm]
    exact Iff.rfl
  refine ⟨rest, [], hinv, ⟨.inl rfl, fun m => ⟨fun hm => absurd hm List.not_mem_nil, fun ⟨hum, hcm⟩ => ?_⟩⟩, ?_⟩
  · by_cases hm : m = n
    · subst hm
      have hin : m ∈ ahead s.pc (s.dst.entries ++ [⟨OTHER_TOKEN, some (some m), Ready.empty⟩]) := by
        rw [hahead]
        exact List.mem_concat_self
      exact absurd hin hum.2.1
    · change (update s.nodes n t m).consumer ≠ .away at hcm
      rw [Function.update_of_ne hm] at hcm
      exact absurd (hw.others_away hc m hm) hcm
  · show _ = ahead s.pc (s.dst.entries ++ [⟨OTHER_TOKEN, some (some n), Ready.empty⟩]) ++ [] ++ _
    rw [hahead, List.append_nil]
    congr 1
    exact List.filter_congr fun m hm => decide_eq_decide.mpr (hothers m fun he => hout (he ▸ hm)).symm

/-- A node moves by itself. -/
theorem Line.node_step (h : Line s line) (hl : LoopInv s) (hw : WorldInv ⟨s.poller.queue, s.nodes⟩)
    {e : NodeEv (Actor κ) Unit (Closure ν)} {t : NodeSt (Actor κ) Unit (Closure ν)} {c : CallPc} {l : LoopPc ν}
    (hs : NodeStep (s.nodes n) e t) (he : e.Apart) (ht : Takes n (s.calls n) s.pc e c l) :
    Advances s { s with nodes := update s.nodes n t, calls := update s.calls n c, pc := l, dst := taking s.dst e } line := by
  have stays : ahead l (taking s.dst e).entries = ahead s.pc s.dst.entries →
      Advances s { s with nodes := update s.nodes n t, calls := update s.calls n c, pc := l, dst := taking s.dst e } line := by
    intro ha
    refine .stays (h.stays ha (other_update ht.other_iff) rfl (fun m hu => ?_) fun rest hinv => ⟨rest, hinv, rfl⟩) rfl
    show (update s.nodes n t m).consumer ≠ .away ↔ _
    by_cases hm : m = n
    · subst hm
      rw [Function.update_self]
      exact hl.stays_held hu hs he ht
    · rw [Function.update_of_ne hm]
  by_cases hev : ∃ x, e = .event x
  · obtain ⟨x, rfl⟩ := hev
    obtain ⟨rfl, rfl⟩ := ht.still trivial
    have hc := event_push hs
    have hpc : s.pc = .polling := by
      by_contra hpc
      exact hc (hl.away hpc n)
    obtain ⟨pushed, hstage, hcount⟩ := hl.calls n
    obtain ⟨-, -, ⟨-, hplain⟩ | ⟨rfl, -, hx⟩⟩ := stage_step hstage hs ht
    · refine stays ?_
      rw [hpc]
      show callsOf (s.dst.entries ++ [⟨x.tokenEntry, x.job, Ready.empty⟩]) = callsOf s.dst.entries
      rw [callsOf_concat, (hplain x rfl).join]
      exact List.append_nil _
    · cases hx
      have hu : Unpushed s n := by
        refine ⟨fun ho => ?_, hcount.fresh_ahead⟩
        cases hstage with
        | other _ hclean =>
          obtain ⟨-, hp⟩ := hclean.step hs (by simp)
          exact hp _ rfl n rfl
        | byCaller hcall => exact hc hcall.consumer
        | registered _ hreg => exact nomatch (ho ▸ hreg.after)
      have hsame : update s.calls n (s.calls n) = s.calls := Function.update_eq_self n s.calls
      rw [hsame]
      exact .stays (h.pushes hl hw hpc hu hc) rfl
  · have hdst : taking s.dst e = s.dst := by
      cases e with
      | event x => exact absurd ⟨x, rfl⟩ hev
      | _ => rfl
    rw [hdst] at stays ⊢
    exact stays ht.ahead

/-- The poller takes the first node of the queue in hand. -/
theorem Line.takes (h : Line s line) (hw : WorldInv ⟨s.poller.queue, s.nodes⟩) {t : NodeSt (Actor κ) Unit (Closure ν)}
    {p : Poller (Actor κ × ν) ν} (hs : NodeStep (s.nodes n) .dequeued t) (hq : QStep s.poller.queue (.answer (.data (.node n))) p.queue) :
    Line { s with poller := p, nodes := update s.nodes n t } line := by
  obtain ⟨rest, hand, hinv, ⟨-, hheld⟩, rfl⟩ := h
  obtain ⟨rest', hinv', m, hm, hnodes⟩ := step_inv hinv hq
  obtain rfl : n = m := by simpa using hm
  obtain ⟨hidle, hreq⟩ := (data_step hq).1
  have haway : ∀ m, (s.nodes m).consumer = .away := by
    intro m
    by_contra hc
    rcases (hw.tied m).later hc with hi | hr
    · exact hidle hi
    · exact hreq hr
  obtain rfl : hand = [] := List.eq_nil_iff_forall_not_mem.mpr fun m hm => ((hheld m).mp hm).2 (haway m)
  have ht : t.consumer ≠ .away := by
    cases hs
    simp
  have hu : ∀ m, Unpushed { s with poller := p, nodes := update s.nodes n t } m ↔ Unpushed s m := fun m => Iff.rfl
  refine ⟨rest', if Unpushed s n then [n] else [], hinv', ⟨?_, fun m => ?_⟩, ?_⟩
  · split
    · exact .inr ⟨n, rfl⟩
    · exact .inl rfl
  · rw [hu m]
    show _ ↔ _ ∧ (update s.nodes n t m).consumer ≠ .away
    by_cases hm : m = n
    · subst hm
      rw [Function.update_self]
      split
      · exact ⟨fun _ => ⟨‹_›, ht⟩, fun _ => List.mem_singleton_self _⟩
      · exact ⟨fun hm => absurd hm List.not_mem_nil, fun hx => absurd hx.1 ‹_›⟩
    · rw [Function.update_of_ne hm]
      refine ⟨fun hx => ?_, fun hx => absurd (haway m) hx.2⟩
      split at hx
      · exact absurd (List.mem_singleton.mp hx) hm
      · cases hx
  · rw [hnodes, filter_unpushed hu, List.filter_cons]
    show _ = ahead s.pc s.dst.entries ++ _ ++ _
    by_cases hn : Unpushed s n
    · simp [hn]
    · simp [hn]

/-- A node and the queue meet. -/
theorem Line.both_step (h : Line s line) (hl : LoopInv s) (hw : WorldInv ⟨s.poller.queue, s.nodes⟩)
    {e : NodeEv (Actor κ) Unit (Closure ν)} {f : Ev (Actor κ × ν) ν} {t : NodeSt (Actor κ) Unit (Closure ν)}
    {p : Poller (Actor κ × ν) ν} (hm : Meets n e f) (hs : NodeStep (s.nodes n) e t) (hp : PollStep more s.poller (.queue f) p) :
    Advances s { s with poller := p, nodes := update s.nodes n t } line := by
  obtain ⟨f', hf, hq, -⟩ | ⟨hne, -⟩ := queue_step hp
  · cases hf
    by_cases he : e = .dequeued
    · subst he
      cases hm
      exact .stays (h.takes hw hs hq) rfl
    · refine .stays (h.stays rfl (fun _ => Iff.rfl) rfl (fun m hu => ?_) fun rest hinv => ?_) rfl
      · show (update s.nodes n t m).consumer ≠ .away ↔ _
        by_cases hmn : m = n
        · subst hmn
          rw [Function.update_self]
          exact hl.meets_held hu hm hs he
        · rw [Function.update_of_ne hmn]
      · obtain ⟨rest', hinv', hmoves⟩ := step_inv hinv hq
        refine ⟨rest', hinv', ?_⟩
        cases hm with
        | data => exact absurd rfl he
        | _ => exact hmoves
  · exact absurd rfl (hne f)

omit [DecidableEq κ] in
theorem ahead_afterPoll {pc pc' : PollPc ν} {xs : List (JobEntry (Option (Closure ν)))} {l : LoopPc ν} (h : pc' ≠ pc → l = .polling) :
    ahead (afterPoll l pc pc') xs = ahead l xs := by
  unfold afterPoll
  split
  · rename_i hpc
    rw [h fun he => hpc.1 (he.symm.trans hpc.2)]
    rfl
  · rfl

/-- The poller, or a thread in the queue, moves by itself. A call joins with the exchange
    of the head. -/
theorem Line.poll_step (h : Line s line) {e : PollEv (Actor κ × ν) ν} {p : Poller (Actor κ × ν) ν}
    (hp : PollStep more s.poller e p) (hap : PollApart e) (hpc : p.pc ≠ s.poller.pc → s.pc = .polling) :
    Advances s { s with poller := p, pc := afterPoll s.pc s.poller.pc p.pc } line := by
  have ha : ahead (afterPoll s.pc s.poller.pc p.pc) s.dst.entries = ahead s.pc s.dst.entries := ahead_afterPoll hpc
  have stays : (∀ rest, Inv s.poller.queue rest → ∃ rest', Inv p.queue rest' ∧
      nodes (p.queue.tail :: rest') = nodes (s.poller.queue.tail :: rest)) →
      Advances s { s with poller := p, pc := afterPoll s.pc s.poller.pc p.pc } line :=
    fun hq => .stays (h.stays ha (fun _ => Iff.rfl) rfl (fun _ _ => Iff.rfl) hq) rfl
  obtain ⟨f, rfl, hq, -⟩ | ⟨-, hsame⟩ := queue_step hp
  · cases f with
    | swapped a x =>
      obtain ⟨rest, hand, hinv, hheld, rfl⟩ := h
      obtain ⟨rest', hinv', hmoves⟩ := step_inv hinv hq
      have hu : ∀ m, Unpushed { s with poller := p, pc := afterPoll s.pc s.poller.pc p.pc } m ↔ Unpushed s m := by
        intro m
        unfold Unpushed
        rw [ha]
      have hline : Line { s with poller := p, pc := afterPoll s.pc s.poller.pc p.pc }
          (ahead s.pc s.dst.entries ++ hand ++ (nodes (s.poller.queue.tail :: rest)).filter (Unpushed s) ++
            x.node?.toList.filter (Unpushed s)) := by
        refine ⟨rest', hand, hinv', hheld.congr hu (fun _ _ => Iff.rfl), ?_⟩
        show _ = ahead (afterPoll s.pc s.poller.pc p.pc) s.dst.entries ++ _ ++ _
        rw [ha, filter_unpushed hu, hmoves, List.filter_append]
        simp only [List.append_assoc]
      cases x with
      | node n =>
        by_cases hn : Unpushed s n
        · exact .joins n (by simpa [Ptr.node?, hn] using hline) rfl
        · exact .stays (by simpa [Ptr.node?, hn] using hline) rfl
      | _ => exact .stays (by simpa [Ptr.node?] using hline) rfl
    | answer r =>
      refine stays fun rest hinv => ?_
      obtain ⟨rest', hinv', hmoves⟩ := step_inv hinv hq
      refine ⟨rest', hinv', ?_⟩
      cases r with
      | data x => exact hap.elim
      | _ => exact hmoves
    | _ =>
      refine stays fun rest hinv => ?_
      obtain ⟨rest', hinv', hmoves⟩ := step_inv hinv hq
      exact ⟨rest', hinv', hmoves⟩
  · exact stays fun rest hinv => ⟨rest, by rw [hsame]; exact hinv, by rw [hsame]⟩

omit [DecidableEq κ] in
/-- `io_process` comes to an entry. -/
theorem Line.process_step (h : Line s line) (hl : LoopInv s) {i : Nat} {x : JobEntry (Option (Closure ν))}
    (hpc : s.pc = .processing i) (hx : s.dst.entries[i]? = some x) :
    Advances s { s with pc := .processing (i + 1), invoked := invoke x s.invoked } line := by
  obtain ⟨hi, hxi⟩ := List.getElem?_eq_some_iff.mp hx
  have hmem : x ∈ s.dst.entries := hxi ▸ List.getElem_mem hi
  have ha : ahead s.pc s.dst.entries = x.job.join.toList ++ ahead (.processing (i + 1)) s.dst.entries := by
    rw [hpc]
    show callsOf (s.dst.entries.drop i) = _
    rw [List.drop_eq_getElem_cons hi, hxi]
    exact callsOf_cons x
  have hinvoke : ∀ m, invoke x s.invoked m = s.invoked m + if x.job = some (some m) then 1 else 0 :=
    fun m => invoke_apply (hl.entries x hmem) s.invoked
  have hu : ∀ m, Unpushed { s with pc := .processing (i + 1), invoked := invoke x s.invoked } m ↔ Unpushed s m := by
    intro m
    show (s.calls m ≠ .other ∧ m ∉ ahead (.processing (i + 1)) s.dst.entries ∧ invoke x s.invoked m = 0) ↔
      (s.calls m ≠ .other ∧ m ∉ ahead s.pc s.dst.entries ∧ s.invoked m = 0)
    rw [ha, hinvoke, List.mem_append, Option.mem_toList, Option.join_eq_some_iff]
    by_cases hj : x.job = some (some m)
    · simp [hj]
    · simp [hj]
  obtain ⟨rest, hand, hinv, hheld, rfl⟩ := h
  have hline : Line { s with pc := .processing (i + 1), invoked := invoke x s.invoked }
      (ahead (.processing (i + 1)) s.dst.entries ++ hand ++ (nodes (s.poller.queue.tail :: rest)).filter (Unpushed s)) :=
    ⟨rest, hand, hinv, hheld.congr hu (fun _ _ => Iff.rfl), by rw [filter_unpushed hu]⟩
  rw [ha]
  cases hj : x.job.join with
  | none =>
    refine .stays hline (funext fun m => ?_)
    show invoke x s.invoked m = s.invoked m
    rw [hinvoke, if_neg fun h => by rw [h] at hj; cases hj]
    exact Nat.add_zero _
  | some n =>
    refine .serves n _ (by simp) hline (funext fun m => ?_)
    show invoke x s.invoked m = _
    rw [hinvoke, Option.join_eq_some_iff.mp hj]
    by_cases hm : m = n
    · subst hm
      rw [Function.update_self, if_pos rfl]
    · rw [Function.update_of_ne hm, if_neg fun h => hm (by simpa using h.symm), Nat.add_zero]

theorem line_step {e : LoopEv κ ν} (h : Line s line) (hl : LoopInv s) (hw : WorldInv ⟨s.poller.queue, s.nodes⟩)
    (hs : LoopStep more s e s') : Advances s s' line := by
  cases hs with
  | enqueueJob n hc => exact h.advances_here rfl (other_update (by rw [hc]; simp)) rfl rfl rfl
  | letGo n ok hc =>
    refine h.advances_here rfl (other_update ?_) rfl rfl rfl
    rw [hc]
    split <;> simp
  | node n e t c l hn he ht => exact h.node_step hl hw hn he ht
  | both n e f t p hm hn hp _ => exact h.both_step hl hw hm hn hp
  | poll e p hp hap _ hpc => exact h.poll_step hp hap fun hne => (hpc hne).1
  | select p events entries hp hpol haway hplain =>
    have hempty := hl.empty hpol (selected_step hp).1
    obtain ⟨f, hf, -⟩ | ⟨-, hsame⟩ := queue_step hp
    · cases hf
    · refine h.advances_here ?_ (fun _ => Iff.rfl) rfl rfl hsame
      rw [hpol]
      show callsOf entries = callsOf s.dst.entries
      rw [hempty]
      exact callsOf_plain hplain
  | process i x hpc hx => exact h.process_step hl hpc hx
  | processed i hpc hlen =>
    refine h.advances_here ?_ (fun _ => Iff.rfl) rfl rfl rfl
    rw [hpc]
    show [] = callsOf (s.dst.entries.drop i)
    rw [List.drop_eq_nil_of_le hlen]
    rfl
  | dropEntry x rest hpc hx =>
    refine h.advances_here ?_ (fun _ => Iff.rfl) rfl rfl rfl
    rw [hpc]
    show ahead (dropArc x s.arcs).2 rest = []
    unfold dropArc
    split
    · split <;> rfl
    · rfl
  | cleared hpc hnil =>
    refine h.advances_here ?_ (fun _ => Iff.rfl) rfl rfl rfl
    rw [hpc]
    show callsOf s.dst.entries = []
    rw [hnil]
    rfl

/-! ## Over whole runs -/

section Runs

variable {capacity : Nat} {τ : List (LoopEv κ ν)}

/-- The loop and a waiting line that does what it does. -/
structure InLine (more capacity : Nat) (s : EventLoop κ ν) (f : Fifo ν) : Prop where
  reached : ∃ τ, Run (eventLoop κ ν more capacity) τ s
  line : Line s f.waiting
  served : ∀ n, s.invoked n = f.served.count n

theorem inLine_step {e : LoopEv κ ν} {f : Fifo ν} (h : InLine more capacity s f) (hs : LoopStep more s e s') :
    ∃ q f', Path (fifo ν) f q f' ∧ InLine more capacity s' f' := by
  obtain ⟨τ, hr⟩ := h.reached
  obtain ⟨τ₁, hw⟩ := project_world hr
  have hreached : ∃ τ, Run (eventLoop κ ν more capacity) τ s' := ⟨_, hr.step hs⟩
  cases line_step h.line (loop_inv hr) (world_inv hw) hs with
  | stays hline hi => exact ⟨_, f, .nil, hreached, hline, fun n => by rw [hi]; exact h.served n⟩
  | joins n hline hi =>
    exact ⟨_, { f with waiting := f.waiting ++ [n] }, Path.nil.step (.join f n), hreached, hline, fun n => by
      rw [hi]
      exact h.served n⟩
  | serves n rest hw hline hi =>
    refine ⟨_, ⟨rest, f.served ++ [n]⟩, Path.nil.step (.serve f n rest hw), hreached, hline, fun m => ?_⟩
    rw [hi, List.count_append, ← h.served m]
    by_cases hm : m = n
    · subst hm
      rw [Function.update_self, List.count_singleton_self]
    · rw [Function.update_of_ne hm, List.count_singleton, if_neg (by simpa using Ne.symm hm), Nat.add_zero]

theorem inLine_run (h : Run (eventLoop κ ν more capacity) τ s) : ∃ f, InLine more capacity s f := by
  induction h with
  | @init s hi =>
    obtain ⟨hp, hn, -, -, hpc, hdst, hinv⟩ := id hi
    refine ⟨⟨[], []⟩, ⟨_, .init hi⟩, ⟨[], [], ?_, ⟨.inl rfl, fun m => ?_⟩, ?_⟩, hinv⟩
    · rw [hp]
      exact new_inv
    · refine ⟨fun hm => absurd hm List.not_mem_nil, fun hm => ?_⟩
      obtain ⟨N, hN, -⟩ := hn m
      exact absurd (by rw [hN]) hm.2
    · rw [hp, hpc, hdst]
      rfl
  | step _ hs ih =>
    obtain ⟨f, hf⟩ := ih
    obtain ⟨-, f', -, hf'⟩ := inLine_step hf hs
    exact ⟨f', hf'⟩

/-- Who has returned has joined the line. -/
theorem InLine.done {f : Fifo ν} (h : InLine more capacity s f) {ok : Bool} (hc : s.calls n = .done ok) : n ∈ f.joined := by
  obtain ⟨τ, hr⟩ := h.reached
  obtain ⟨τ₁, hw⟩ := project_world hr
  have hl := loop_inv hr
  obtain ⟨rest, hand, hinv, ⟨-, hheld⟩, hline⟩ := h.line
  obtain ⟨pushed, hstage, hcount⟩ := hl.calls n
  unfold Fifo.joined
  rw [List.mem_append]
  cases pushed with
  | true =>
    have hone := hcount.once rfl
    rcases Nat.eq_zero_or_pos (s.invoked n) with hz | hpos
    · refine .inr ?_
      rw [hline]
      exact List.mem_append_left _ (List.mem_append_left _ (mem_ahead.mpr (by omega)))
    · rw [h.served n] at hpos
      exact .inl (List.count_pos_iff.mp hpos)
  | false =>
    have hu : Unpushed s n := ⟨by rw [hc]; simp, hcount.fresh_ahead⟩
    refine .inr ?_
    rw [hline]
    obtain ⟨-, hcall | ⟨hreg, -⟩⟩ := hl.unpushed hu
    · have hb := hcall.before
      rw [hc] at hb
      generalize (s.nodes n).pc .caller = q at hb
      generalize (s.nodes n).node = N at hb
      cases hb
    · by_cases haway : (s.nodes n).consumer = .away
      · have hlinked : 0 < (s.nodes n).linked := Nat.pos_of_ne_zero fun hz => hreg.linked_iff.mp hz haway
        have hmem := mem_nodes.mpr ((world_inv hw).in_chain hinv hlinked)
        exact List.mem_append_right _ (List.mem_filter.mpr ⟨hmem, decide_eq_true hu⟩)
      · exact List.mem_append_left _ (List.mem_append_right _ ((hheld n).mpr ⟨hu, haway⟩))

/-- Who has not begun has not. -/
theorem InLine.idle {f : Fifo ν} (h : InLine more capacity s f) (hc : s.calls n = .idle) : n ∉ f.joined := by
  obtain ⟨τ, hr⟩ := h.reached
  obtain ⟨τ₁, hw⟩ := project_world hr
  obtain ⟨rest, hand, hinv, ⟨-, hheld⟩, hline⟩ := h.line
  obtain ⟨pushed, hstage, hcount⟩ := (loop_inv hr).calls n
  rw [hc] at hstage
  cases hstage with
  | other ho => cases ho
  | registered _ hreg => exact nomatch hreg.after
  | spent _ hlate => cases hlate
  | byCaller hcall =>
    obtain ⟨hahead, hinvoked⟩ := hcount.fresh_ahead
    unfold Fifo.joined
    rw [hline, List.mem_append, List.mem_append, List.mem_append]
    rintro (hm | (hm | hm) | hm)
    · have hpos := List.count_pos_iff.mpr hm
      rw [← h.served n] at hpos
      omega
    · exact hahead hm
    · exact ((hheld n).mp hm).2 hcall.consumer
    · refine unchained (world_inv hw) hinv hcall.linked (fun i => ?_) ?_ (List.mem_filter.mp hm).1
      · by_cases hi : i = .caller
        · subst hi
          have hb := hcall.before
          show ((s.nodes n).pc .caller).stage ≠ .entering
          generalize (s.nodes n).pc .caller = q at hb ⊢
          generalize (s.nodes n).node = N at hb
          cases hb
          simp [Pc.stage]
        · show ((s.nodes n).pc i).stage ≠ .entering
          rw [hcall.others i hi]
          simp [Pc.stage]
      · show (s.nodes n).consumer.entering = false
        rw [hcall.consumer]
        rfl

/-- A call that returns before another begins has its callback run first: until it has run,
    the other's has not. -/
theorem first_come_first_served {m : ν} {ok : Bool} {p : List (LoopEv κ ν × EventLoop κ ν)}
    (h : Run (eventLoop κ ν more capacity) τ s) (hm : s.calls m = .done ok) (hn : s.calls n = .idle)
    (hp : Path (eventLoop κ ν more capacity) s p s') (hi : s'.invoked m = 0) : s'.invoked n = 0 := by
  obtain ⟨f, hf⟩ := inLine_run h
  obtain ⟨q, f', hq, hf'⟩ := hp.follow (R := InLine more capacity) (fun _ _ _ _ ht hs => inLine_step ht hs) hf
  rw [hf'.served] at hi ⊢
  rw [List.count_eq_zero] at hi ⊢
  exact fun hserved => hi (served_first hq (hf.done hm) (hf.idle hn) hserved)

end Runs

end Loop

/-- Two calls one after the other, and the loop has come to neither. -/
theorem first_come_first_served_two : ∃ (s : EventLoop Unit Bool) (p : List (LoopEv Unit Bool × EventLoop Unit Bool))
    (s' : EventLoop Unit Bool), Path (eventLoop Unit Bool 0 4096) s p s' ∧ s.calls true = .done true ∧ s.calls false = .idle ∧
      s'.calls false = .done true ∧ s'.invoked false = 0 := by
  have h0 : Run (eventLoop Unit Bool 0 4096) [] ⟨⟨Queue.new _ _, .start, 0, none⟩,
      fun _ => ⟨.unregistered, fun _ => .idle, .away, 0, false, false⟩, fun _ => .idle, fun _ => 0, .polling, ⟨[], [], 4096⟩,
      fun _ => 0⟩ :=
    .init ⟨rfl, fun _ => ⟨_, rfl, .inl rfl⟩, fun _ => .inr ⟨rfl, rfl⟩, fun _ => rfl, rfl, rfl, fun _ => rfl⟩
  have h1 := h0.step (.enqueueJob _ true rfl)
  have h2 := h1.step (.node _ true _ _ _ _ (.setCall _ .caller READABLE4 rfl) trivial (.signal _))
  have h3 := h2.step (.node _ true _ _ _ _ (.setLoad _ .caller READABLE4 rfl) trivial (.inCall _ _ _ trivial))
  have h4 := h3.step (.node _ true _ _ _ _ (.setSwap _ .caller READABLE4 created rfl rfl) trivial (.inCall _ _ _ trivial))
  have h5 := h4.step (.node _ true _ _ _ _ (.returned _ .caller true rfl) trivial (.signalled _ true))
  have h6 := h5.step (.node _ true _ _ _ _ (.updCall _ .caller (jobArgs true) rfl rfl) trivial (.register _))
  have h7 := h6.step (.node _ true _ _ _ _ (.updNull _ .caller (jobArgs true) rfl rfl) trivial (.inCall _ _ _ trivial))
  have h8 := h7.step (.node _ true _ _ _ _ (.updAssociate _ .caller (jobArgs true) rfl rfl) trivial (.inCall _ _ _ trivial))
  have h9 := h8.step (.node _ true _ _ _ _ (.updRef _ .caller (jobArgs true) rfl) trivial (.inCall _ _ _ trivial))
  have h10 := h9.step (.node _ true _ _ _ _ (.updLock _ .caller (jobArgs true) rfl rfl) trivial (.inCall _ _ _ trivial))
  have h11 := h10.step (.node _ true _ _ _ _ (.updLoad _ .caller (jobArgs true) rfl) trivial (.inCall _ _ _ trivial))
  have h12 := h11.step (.node _ true _ _ _ _ (.updToken _ .caller (jobArgs true) signalled rfl) trivial (.inCall _ _ _ trivial))
  have h13 := h12.step (.node _ true _ _ _ _ (.updSlot _ .caller (jobArgs true) signalled 1#64 rfl) trivial (.inCall _ _ _ trivial))
  have h14 := h13.step (.node _ true _ _ _ _ (.updSwap _ .caller (jobArgs true) signalled 1#64 rfl rfl) trivial
    (.inCall _ _ _ trivial))
  have h15 := h14.step (.node _ true _ _ _ _ (.updUnlock _ .caller (jobArgs true) true rfl) trivial (.inCall _ _ _ trivial))
  have h16 := h15.step (.both _ true _ _ _ _ (.enters (some Actor.caller)) (.updJob _ Actor.caller (jobArgs true) rfl)
    (.queue _ _ _ (.enqueue _ (Actor.caller, true) true rfl rfl) trivial) fun hne => absurd rfl hne)
  have h17 := h16.step (.poll _ _ _ (.queue _ _ _ (.store _ (some (Actor.caller, true)) (.node true) rfl) trivial) trivial (by simp)
    fun hne => absurd rfl hne)
  have h18 := h17.step (.poll _ _ _ (.queue _ _ _ (.load _ (some (Actor.caller, true)) (.node true) rfl) trivial) trivial (by simp)
    fun hne => absurd rfl hne)
  have h19 := h18.step (.poll _ _ _ (.queue _ _ _ (.swap _ (some (Actor.caller, true)) (.node true) .endMarker rfl (by decide) rfl)
    trivial) trivial (by simp) fun hne => absurd rfl hne)
  have h20 := h19.step (.both _ true _ _ _ _ (.linked (some Actor.caller)) (.link _ Actor.caller rfl)
    (.queue _ _ _ (.link _ (some (Actor.caller, true)) (.node true) .endMarker rfl) trivial) fun hne => absurd rfl hne)
  have h21 := h20.step (.both _ true _ _ _ _ (.returned Actor.caller false) (.wakeup _ Actor.caller true rfl)
    (.returned _ (Actor.caller, true) false _ (.returned _ (Actor.caller, true) false rfl)) fun hne => absurd rfl hne)
  have h22 := h21.step (.node _ true _ _ _ _ (.returned _ .caller true rfl) trivial (.registered _ true))
  have h23 := h22.step (.letGo _ true true rfl)
  have after : ∀ {τ : List (LoopEv Unit Bool)} {s s' : EventLoop Unit Bool} {e : LoopEv Unit Bool},
      Run (eventLoop Unit Bool 0 4096) τ s → LoopStep 0 s e s' → Path (eventLoop Unit Bool 0 4096) s [(e, s')] s' :=
    fun _ hs => Path.nil.step hs
  have p1 := after h23 (.enqueueJob _ false rfl)
  have p2 := p1.step (.node _ false _ _ _ _ (.setCall _ .caller READABLE4 rfl) trivial (.signal _))
  have p3 := p2.step (.node _ false _ _ _ _ (.setLoad _ .caller READABLE4 rfl) trivial (.inCall _ _ _ trivial))
  have p4 := p3.step (.node _ false _ _ _ _ (.setSwap _ .caller READABLE4 created rfl rfl) trivial (.inCall _ _ _ trivial))
  have p5 := p4.step (.node _ false _ _ _ _ (.returned _ .caller true rfl) trivial (.signalled _ true))
  have p6 := p5.step (.node _ false _ _ _ _ (.updCall _ .caller (jobArgs false) rfl rfl) trivial (.register _))
  have p7 := p6.step (.node _ false _ _ _ _ (.updNull _ .caller (jobArgs false) rfl rfl) trivial (.inCall _ _ _ trivial))
  have p8 := p7.step (.node _ false _ _ _ _ (.updAssociate _ .caller (jobArgs false) rfl rfl) trivial (.inCall _ _ _ trivial))
  have p9 := p8.step (.node _ false _ _ _ _ (.updRef _ .caller (jobArgs false) rfl) trivial (.inCall _ _ _ trivial))
  have p10 := p9.step (.node _ false _ _ _ _ (.updLock _ .caller (jobArgs false) rfl rfl) trivial (.inCall _ _ _ trivial))
  have p11 := p10.step (.node _ false _ _ _ _ (.updLoad _ .caller (jobArgs false) rfl) trivial (.inCall _ _ _ trivial))
  have p12 := p11.step (.node _ false _ _ _ _ (.updToken _ .caller (jobArgs false) signalled rfl) trivial (.inCall _ _ _ trivial))
  have p13 := p12.step (.node _ false _ _ _ _ (.updSlot _ .caller (jobArgs false) signalled 1#64 rfl) trivial (.inCall _ _ _ trivial))
  have p14 := p13.step (.node _ false _ _ _ _ (.updSwap _ .caller (jobArgs false) signalled 1#64 rfl rfl) trivial
    (.inCall _ _ _ trivial))
  have p15 := p14.step (.node _ false _ _ _ _ (.updUnlock _ .caller (jobArgs false) true rfl) trivial (.inCall _ _ _ trivial))
  have p16 := p15.step (.both _ false _ _ _ _ (.enters (some Actor.caller)) (.updJob _ Actor.caller (jobArgs false) rfl)
    (.queue _ _ _ (.enqueue _ (Actor.caller, false) false rfl rfl) trivial) fun hne => absurd rfl hne)
  have p17 := p16.step (.poll _ _ _ (.queue _ _ _ (.store _ (some (Actor.caller, false)) (.node false) rfl) trivial) trivial (by simp)
    fun hne => absurd rfl hne)
  have p18 := p17.step (.poll _ _ _ (.queue _ _ _ (.load _ (some (Actor.caller, false)) (.node false) rfl) trivial) trivial (by simp)
    fun hne => absurd rfl hne)
  have p19 := p18.step (.poll _ _ _ (.queue _ _ _ (.swap _ (some (Actor.caller, false)) (.node false) (.node true) rfl (by decide) rfl)
    trivial) trivial (by simp) fun hne => absurd rfl hne)
  have p20 := p19.step (.both _ false _ _ _ _ (.linked (some Actor.caller)) (.link _ Actor.caller rfl)
    (.queue _ _ _ (.link _ (some (Actor.caller, false)) (.node false) (.node true) rfl) trivial) fun hne => absurd rfl hne)
  have p21 := p20.step (.both _ false _ _ _ _ (.returned Actor.caller false) (.wakeup _ Actor.caller true rfl)
    (.returned _ (Actor.caller, false) false _ (.returned _ (Actor.caller, false) false rfl)) fun hne => absurd rfl hne)
  have p22 := p21.step (.node _ false _ _ _ _ (.returned _ .caller true rfl) trivial (.registered _ true))
  have p23 := p22.step (.letGo _ false true rfl)
  exact ⟨_, _, _, p23, rfl, rfl, rfl, first_come_first_served h23 (m := true) rfl rfl p23 rfl⟩

end Sickle.Net
