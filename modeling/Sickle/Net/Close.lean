/-
  Sickle.Net.Close — closing a connection.

  `handle_close` goes through `closed` once; it clears `write_enabled`, which `send` looks
  at, and `read_enabled`, which nothing looks at. The jobs of a connection run with the
  connection borrowed, so they do not call back into it.

  - `closed_once`: over all calls, `close_job` and the deregistration happen once at most,
    and then no byte is written and `send` returns 0.
  - `silent_iff`: after it nothing is read and no job is run exactly when no later event
    is readable; `a_closed_connection_reads` is such an event.
-/

import Sickle.Lib.Run
import Sickle.Net.Stream

namespace Sickle.Net

open Sickle.Lib TcpConnection

/-- The three calls, with what the world answers and what `send` returns. -/
inductive Call where
  | event (word : BitVec 64) (a : EventAnswers)
  | send (bytes : Bytes) (w : IoRes Nat) (ans : Bool) (len : Nat)
  | shutdown (how : Shutdown)

inductive CallStep : TcpConnection → Call → TcpConnection → Prop
  | event (c : TcpConnection) (word : BitVec 64) (a : EventAnswers) : CallStep c (.event word a) (c.handleEvent word a)
  | send (c : TcpConnection) (bytes : Bytes) (w : IoRes Nat) (ans : Bool) :
      CallStep c (.send bytes w ans (c.send bytes w ans).2) (c.send bytes w ans).1
  | shutdown (c : TcpConnection) (how : Shutdown) : CallStep c (.shutdown how) (c.shutdown how)

def calls : Lts TcpConnection Call := ⟨(· = new), CallStep⟩

/-- What `handle_close` does. -/
def Eff.closes : Eff → Bool
  | .closeJob | .deregister => true
  | _ => false

/-- Neither a read nor a call of `read_job` or `writ_job`. -/
def Eff.silent : Eff → Bool
  | .read _ | .readJob _ _ | .writJob => false
  | _ => true

/-- Whatever comes after the close. -/
def AfterClose (ok : Eff → Prop) (log : List Eff) : Prop :=
  ∀ l₁ e l₂, log = l₁ ++ e :: l₂ → e.closes = true → ∀ x ∈ l₂, ok x

def Call.isReadable : Call → Bool
  | .event word _ => Ready.isReadable ⟨word⟩
  | _ => false

/-- The call is no readable event on a connection that is closed. -/
def Unread (c : TcpConnection) (m : Call) : Prop := c.closed = true → m.isReadable = false

/-! ## The guard -/

theorem AfterClose.snoc {ok : Eff → Prop} {log : List Eff} {x : Eff} (h : AfterClose ok log)
    (hx : (∃ e ∈ log, e.closes = true) → ok x) : AfterClose ok (log ++ [x]) := by
  intro l₁ e l₂ hl he y hy
  rcases List.eq_nil_or_concat' l₂ with rfl | ⟨l₂, z, rfl⟩
  · cases hy
  · rw [← List.cons_append, ← List.append_assoc] at hl
    obtain ⟨rfl, hz⟩ := List.append_inj' hl rfl
    obtain rfl : x = z := by simpa using hz
    rcases List.mem_append.mp hy with hy | hy
    · exact h l₁ e l₂ rfl he y hy
    · obtain rfl := List.mem_singleton.mp hy
      exact hx ⟨e, by simp, he⟩

theorem AfterClose.of_prefix {ok : Eff → Prop} {log log' : List Eff} (h : AfterClose ok log') (hp : log <+: log') :
    AfterClose ok log := by
  obtain ⟨t, rfl⟩ := hp
  intro l₁ e l₂ hl he y hy
  exact h l₁ e (l₂ ++ t) (by rw [hl, List.append_assoc, List.cons_append]) he y (List.mem_append_left _ hy)

/-- The connection was closed as often as `closed` says, and `ok` is all that came after. -/
structure Shut (ok : Eff → Prop) (closed writeEnabled : Bool) (log : List Eff) : Prop where
  job : log.count .closeJob = closed.toNat
  gone : log.count .deregister = closed.toNat
  off : closed = true → writeEnabled = false
  after : AfterClose ok log

abbrev Tidy (ok : Eff → Prop) (c : TcpConnection) : Prop := Shut ok c.closed c.writeEnabled c.log

namespace Shut

variable {ok : Eff → Prop} {closed writeEnabled : Bool} {log : List Eff}

theorem closed_of_closes (h : Shut ok closed writeEnabled log) (he : ∃ e ∈ log, e.closes = true) : closed = true := by
  obtain ⟨e, hm, he⟩ := he
  have hpos := List.count_pos_iff.mpr hm
  cases closed with
  | true => rfl
  | false =>
    cases e with
    | closeJob => rw [h.job] at hpos; cases hpos
    | deregister => rw [h.gone] at hpos; cases hpos
    | _ => cases he

theorem emit (h : Shut ok closed writeEnabled log) {x : Eff} (hx : x.closes = false) (hok : closed = true → ok x) :
    Shut ok closed writeEnabled (log ++ [x]) := by
  have hne : ∀ e : Eff, e.closes = true → [x].count e = 0 := by
    intro e he
    rw [List.count_eq_zero, List.mem_singleton]
    rintro rfl
    rw [hx] at he
    cases he
  refine ⟨?_, ?_, h.off, h.after.snoc fun he => hok (h.closed_of_closes he)⟩
  · rw [List.count_append, hne _ rfl, h.job, Nat.add_zero]
  · rw [List.count_append, hne _ rfl, h.gone, Nat.add_zero]

theorem close (h : Shut ok false writeEnabled log) (hd : ok .deregister) :
    Shut ok true false (log ++ [.closeJob] ++ [.deregister]) := by
  have hopen : ¬ ∃ e ∈ log, e.closes = true := fun he => Bool.noConfusion (h.closed_of_closes he)
  refine ⟨?_, ?_, fun _ => rfl, (h.after.snoc fun he => absurd he hopen).snoc fun _ => hd⟩
  · rw [List.count_append, List.count_append, h.job]
    rfl
  · rw [List.count_append, List.count_append, h.gone]
    rfl

end Shut

section Ops

variable {ok : Eff → Prop} {c : TcpConnection}

theorem handleClose_tidy (h : Tidy ok c) (hd : ok .deregister) : Tidy ok (handleClose c) := by
  unfold handleClose
  split
  · exact h
  next hc =>
    unfold Tidy at h
    rw [Bool.eq_false_iff.mpr hc] at h
    exact h.close hd

theorem readChunks_tidy (hr : c.closed = true → (∀ r, ok (.read r)) ∧ ∀ shown left, ok (.readJob shown left))
    (ds : List (Bytes × (Bytes → Bytes))) (h : Tidy ok c) :
    Tidy ok (ds.foldl readChunk c) ∧ (ds.foldl readChunk c).closed = c.closed := by
  induction ds generalizing c with
  | nil => exact ⟨h, rfl⟩
  | cons d ds ih =>
    have h : Tidy ok (readChunk c d) := (h.emit (x := .read (.ok d.1)) rfl fun hc => (hr hc).1 _).emit rfl fun hc => (hr hc).2 _ _
    exact ih hr h

theorem handleRead_tidy (r : ReadScript) (h : Tidy ok c) (hd : ok .deregister)
    (hr : c.closed = true → (∀ r, ok (.read r)) ∧ ∀ shown left, ok (.readJob shown left)) : Tidy ok (handleRead c r) := by
  obtain ⟨h, hc⟩ := readChunks_tidy hr r.chunks h
  rw [← hc] at hr
  unfold handleRead
  simp only
  split
  · exact h.emit rfl fun hc => (hr hc).1 _
  · exact handleClose_tidy ((h.emit (x := .read (.ok [])) rfl fun hc => (hr hc).1 _).emit (x := .readJob _ _) rfl fun hc =>
      (hr hc).2 _ _) hd
  · exact handleClose_tidy (h.emit (x := .read .err) rfl fun hc => (hr hc).1 _) hd

theorem writeChunk_tidy (buf : Bytes) (w : IoRes Nat) (ans : Bool) (h : Tidy ok c) (hc : c.closed = false) (hd : ok .deregister) :
    Tidy ok (writeChunk c buf w ans) := by
  have stays : ∀ {x : Eff}, c.closed = true → ok x := fun hc' => Bool.noConfusion (hc.symm.trans hc')
  unfold writeChunk
  split
  · exact h.emit rfl stays
  next cnt rest _ =>
    have hw : Tidy ok (c.emit (.write buf cnt)) := h.emit rfl stays
    simp only
    split
    · exact hw
    · have hj : Tidy ok (emit { c.emit (.write buf cnt) with writeTriggered := false } .writJob) := hw.emit rfl stays
      split
      · exact handleClose_tidy hj hd
      · exact hj
  · exact handleClose_tidy (h.emit (x := .write buf 0) rfl stays) hd

theorem writeData_tidy (w : IoRes Nat) (ans : Bool) (h : Tidy ok c) (hc : c.closed = false) (hd : ok .deregister) :
    Tidy ok (c.writeData w ans) := by
  unfold writeData
  split
  · exact writeChunk_tidy _ w ans h hc hd
  · split
    · exact writeChunk_tidy _ w ans h hc hd
    · exact h

theorem send_tidy (bytes : Bytes) (w : IoRes Nat) (ans : Bool) (h : Tidy ok c) (hd : ok .deregister) :
    Tidy ok (c.send bytes w ans).1 := by
  unfold send
  split
  · exact h
  next he =>
    split
    · exact h
    · have hc : c.closed = false := Bool.eq_false_iff.mpr fun hc => he (h.off hc)
      exact writeData_tidy (c := { c with writeBufferWaiting := c.writeBufferWaiting ++ bytes }) w ans h hc hd

theorem shutdown_tidy (how : Shutdown) (h : Tidy ok c) : Tidy ok (c.shutdown how) := by
  cases how with
  | read => exact h
  | write => exact ⟨h.job, h.gone, fun _ => rfl, h.after⟩
  | both => exact ⟨h.job, h.gone, fun _ => rfl, h.after⟩

end Ops

/-! ## Nothing is left pending -/

/-- Between two calls both buffers are empty. -/
def Empty (c : TcpConnection) : Prop := c.writeBufferSending = [] ∧ c.writeBufferWaiting = []

theorem Empty.same {c d : TcpConnection} (h : Empty c) (hs : Same c d) : Empty d := ⟨hs.2.1.trans h.1, hs.2.2.trans h.2⟩

theorem writeChunk_empty {c : TcpConnection} (buf : Bytes) (w : IoRes Nat) (ans : Bool) (h : Empty c) :
    Empty (writeChunk c buf w ans) := by
  have closes : ∀ {d : TcpConnection}, Empty d → Empty (handleClose d) := fun hd => hd.same (handleClose_same _)
  unfold writeChunk
  split
  · exact h
  · simp only
    split
    · exact h
    · split
      · exact closes h
      · exact h
  · exact closes h

/-- Whatever waited is in the local buffer of `write_data`, or on the wire. -/
theorem writeData_empty {c : TcpConnection} (w : IoRes Nat) (ans : Bool) (h : c.writeBufferSending = []) :
    Empty (c.writeData w ans) := by
  unfold writeData
  have hs : ¬ 0 < c.writeBufferSending.length := by rw [h]; exact Nat.lt_irrefl 0
  rw [if_neg hs]
  split
  · exact writeChunk_empty _ w ans ⟨h, rfl⟩
  next hw => exact ⟨h, List.eq_nil_of_length_eq_zero (by omega)⟩

theorem send_empty {c : TcpConnection} (bytes : Bytes) (w : IoRes Nat) (ans : Bool) (h : Empty c) :
    Empty (c.send bytes w ans).1 := by
  unfold send
  split
  · exact h
  · split
    · exact h
    · exact writeData_empty w ans h.1

theorem handleWrite_of_empty {c : TcpConnection} (w : IoRes Nat) (ans : Bool) (h : Empty c) : handleWrite c w ans = c := by
  unfold handleWrite
  rw [h.1, h.2]
  exact if_pos ⟨rfl, rfl⟩

/-! ## Every call -/

/-- A connection between two calls. -/
structure Rest (ok : Eff → Prop) (c : TcpConnection) : Prop where
  tidy : Tidy ok c
  empty : Empty c

theorem handleClose_rest {ok : Eff → Prop} {c : TcpConnection} (h : Rest ok c) (hd : ok .deregister) : Rest ok (handleClose c) :=
  ⟨handleClose_tidy h.tidy hd, h.empty.same (handleClose_same c)⟩

theorem handleEvent_rest {ok : Eff → Prop} {c : TcpConnection} (word : BitVec 64) (a : EventAnswers) (h : Rest ok c)
    (hd : ok .deregister)
    (hr : Ready.isReadable ⟨word⟩ = true → c.closed = true → (∀ r, ok (.read r)) ∧ ∀ shown left, ok (.readJob shown left)) :
    Rest ok (c.handleEvent word a) := by
  have hread : Rest ok (if Ready.isReadable ⟨word⟩ then handleRead { c with readTriggered := true } a.reads else c) := by
    split
    next hw =>
      have hs := handleRead_same { c with readTriggered := true } a.reads
      exact ⟨handleRead_tidy (c := { c with readTriggered := true }) a.reads h.tidy hd (hr hw), h.empty.same hs⟩
    next => exact h
  have hwrite : ∀ d, Rest ok d → Rest ok (if Ready.isWritable ⟨word⟩ then
      handleWrite { d with writeTriggered := true } a.write a.writJob else d) := by
    intro d h
    split
    · rw [handleWrite_of_empty (c := { d with writeTriggered := true }) a.write a.writJob h.empty]
      exact ⟨h.tidy, h.empty⟩
    · exact h
  have hclose : ∀ d, Rest ok d → Rest ok (if (Ready.isError ⟨word⟩ || Ready.isHup ⟨word⟩) = true then
      handleClose { d with readTriggered := true, writeTriggered := true } else d) := by
    intro d h
    split
    · exact handleClose_rest ⟨h.tidy, h.empty⟩ hd
    · exact h
  exact hclose _ (hwrite _ hread)

theorem rest_step {ok : Eff → Prop} {c d : TcpConnection} {m : Call} (h : Rest ok c) (hs : CallStep c m d) (hd : ok .deregister)
    (hr : m.isReadable = true → c.closed = true → (∀ r, ok (.read r)) ∧ ∀ shown left, ok (.readJob shown left)) :
    Rest ok d := by
  cases hs with
  | event word a => exact handleEvent_rest word a h hd hr
  | send bytes w ans => exact ⟨send_tidy bytes w ans h.tidy hd, send_empty bytes w ans h.empty⟩
  | shutdown how =>
    refine ⟨shutdown_tidy how h.tidy, ?_⟩
    cases how <;> exact h.empty

theorem new_rest (ok : Eff → Prop) : Rest ok new := by
  refine ⟨⟨rfl, rfl, fun hc => Bool.noConfusion hc, ?_⟩, rfl, rfl⟩
  intro l₁ e l₂ hl
  exact absurd hl (by simp [new])

/-- Where bytes go to the socket. -/
theorem rest_run {τ : List Call} {c : TcpConnection} (h : Run calls τ c) : Rest (fun e => e.accepted = []) c := by
  induction h with
  | init hi =>
    cases hi
    exact new_rest _
  | step _ hs ih => exact rest_step ih hs rfl fun _ _ => ⟨fun _ => rfl, fun _ _ => rfl⟩

/-- In every run of the calls, whatever the socket and the jobs answer: the close job is run
    once at most, the stream is deregistered once at most, and after either no byte goes
    to the socket and `send` returns 0. -/
theorem closed_once {τ : List Call} {c : TcpConnection} (h : Run calls τ c) :
    c.log.count .closeJob ≤ 1 ∧ c.log.count .deregister ≤ 1 ∧ AfterClose (fun e => e.accepted = []) c.log ∧
      ((∃ e ∈ c.log, e.closes = true) → ∀ bytes w ans, (c.send bytes w ans).2 = 0) := by
  obtain ⟨hc, -⟩ := rest_run h
  have hone : c.closed.toNat ≤ 1 := Bool.toNat_le _
  refine ⟨hc.job ▸ hone, hc.gone ▸ hone, hc.after, fun he bytes w ans => ?_⟩
  unfold send
  rw [if_pos (hc.off (hc.closed_of_closes he))]

/-- A socket with nothing to read that takes nothing. -/
def STALLED : EventAnswers := ⟨⟨[], .wouldBlock⟩, .wouldBlock, true⟩

/-- An event with a hang-up, and two more of the same. -/
theorem closed_once_hup :
    let c := ((new.handleEvent Ready.HUP STALLED).handleEvent Ready.HUP STALLED).handleEvent Ready.HUP STALLED
    c.log.count .closeJob ≤ 1 ∧ c.log.count .deregister ≤ 1 ∧ AfterClose (fun e => e.accepted = []) c.log ∧
      ((∃ e ∈ c.log, e.closes = true) → ∀ bytes w ans, (c.send bytes w ans).2 = 0) := by
  have h0 : Run calls [] new := .init rfl
  exact closed_once (((h0.step (.event _ Ready.HUP STALLED)).step (.event _ Ready.HUP STALLED)).step (.event _ Ready.HUP STALLED))

/-! ## After the close -/

theorem handleClose_grows {c : TcpConnection} {l : List Eff} (h : l <+: c.log) : l <+: (handleClose c).log := by
  refine h.trans ?_
  unfold handleClose
  split
  · exact List.prefix_refl _
  · exact (List.prefix_append ..).trans (List.prefix_append ..)

theorem readChunks_grows (ds : List (Bytes × (Bytes → Bytes))) (c : TcpConnection) : c.log <+: (ds.foldl readChunk c).log := by
  induction ds generalizing c with
  | nil => exact List.prefix_refl _
  | cons d ds ih =>
    have h : c.log <+: (readChunk c d).log := (List.prefix_append ..).trans (List.prefix_append ..)
    exact h.trans (ih _)

/-- `handle_read` reads. -/
theorem handleRead_reads (c : TcpConnection) (r : ReadScript) :
    ∃ x, (r.chunks.foldl readChunk c).log ++ [.read x] <+: (handleRead c r).log := by
  unfold handleRead
  simp only
  split
  · exact ⟨.wouldBlock, List.prefix_refl _⟩
  · exact ⟨.ok [], handleClose_grows (List.prefix_append _ [Eff.readJob _ _])⟩
  · exact ⟨.err, handleClose_grows (List.prefix_refl _)⟩

theorem handleRead_grows (c : TcpConnection) (r : ReadScript) : c.log <+: (handleRead c r).log := by
  obtain ⟨x, hx⟩ := handleRead_reads c r
  exact (readChunks_grows r.chunks c).trans ((List.prefix_append ..).trans hx)

theorem writeChunk_grows (c : TcpConnection) (buf : Bytes) (w : IoRes Nat) (ans : Bool) : c.log <+: (writeChunk c buf w ans).log := by
  unfold writeChunk
  split
  · exact List.prefix_append ..
  · simp only
    split
    · exact List.prefix_append ..
    · split
      · exact handleClose_grows ((List.prefix_append c.log _).trans (List.prefix_append _ [Eff.writJob]))
      · exact (List.prefix_append ..).trans (List.prefix_append ..)
  · exact handleClose_grows (List.prefix_append c.log [.write buf 0])

theorem writeData_grows (c : TcpConnection) (w : IoRes Nat) (ans : Bool) : c.log <+: (c.writeData w ans).log := by
  unfold writeData
  split
  · exact writeChunk_grows { c with writeBufferSending := [] } ..
  · split
    · exact writeChunk_grows { c with writeBufferWaiting := [] } ..
    · exact List.prefix_refl _

theorem send_grows (c : TcpConnection) (bytes : Bytes) (w : IoRes Nat) (ans : Bool) : c.log <+: (c.send bytes w ans).1.log := by
  unfold send
  split
  · exact List.prefix_refl _
  · split
    · exact List.prefix_refl _
    · exact writeData_grows { c with writeBufferWaiting := c.writeBufferWaiting ++ bytes } w ans

/-- The event's log, from where its read has brought it. -/
theorem handleEvent_grows (c : TcpConnection) (word : BitVec 64) (a : EventAnswers) :
    (if Ready.isReadable ⟨word⟩ then handleRead { c with readTriggered := true } a.reads else c).log <+:
      (c.handleEvent word a).log := by
  have hwrite : ∀ d : TcpConnection, d.log <+: (if Ready.isWritable ⟨word⟩ then
      handleWrite { d with writeTriggered := true } a.write a.writJob else d).log := by
    intro d
    split
    · unfold handleWrite
      split
      · exact List.prefix_refl _
      · exact writeData_grows { d with writeTriggered := true } ..
    · exact List.prefix_refl _
  have hclose : ∀ d : TcpConnection, d.log <+: (if (Ready.isError ⟨word⟩ || Ready.isHup ⟨word⟩) = true then
      handleClose { d with readTriggered := true, writeTriggered := true } else d).log := by
    intro d
    split
    · exact handleClose_grows (List.prefix_refl d.log)
    · exact List.prefix_refl _
  exact (hwrite _).trans (hclose _)

theorem step_grows {c d : TcpConnection} {m : Call} (hs : CallStep c m d) : c.log <+: d.log := by
  cases hs with
  | event word a =>
    refine List.IsPrefix.trans ?_ (handleEvent_grows c word a)
    split
    · exact handleRead_grows { c with readTriggered := true } a.reads
    · exact List.prefix_refl _
  | send bytes w ans => exact send_grows c bytes w ans
  | shutdown how => cases how <;> exact List.prefix_refl _

/-- A readable event on a connection that is closed. -/
theorem readable_not_silent {c d : TcpConnection} {m : Call} (hc : ∃ e ∈ c.log, e.closes = true) (hs : CallStep c m d)
    (hm : m.isReadable = true) : ¬ AfterClose (fun e => e.silent = true) d.log := by
  intro h
  cases hs with
  | send | shutdown => cases hm
  | event word a =>
    have hw : Ready.isReadable ⟨word⟩ = true := hm
    obtain ⟨x, hx⟩ := handleRead_reads { c with readTriggered := true } a.reads
    have hlog := handleEvent_grows c word a
    rw [if_pos hw] at hlog
    have h := h.of_prefix (hx.trans hlog)
    obtain ⟨u, hu⟩ := readChunks_grows a.reads.chunks { c with readTriggered := true }
    obtain ⟨e, he, hcl⟩ := hc
    obtain ⟨l₁, l₂, hl⟩ := List.append_of_mem he
    have hl : c.log ++ u ++ [.read x] = l₁ ++ e :: (l₂ ++ u ++ [.read x]) := by
      rw [hl]
      simp
    have hbad := h l₁ e (l₂ ++ u ++ [.read x]) (by rw [← hu]; exact hl) hcl (.read x) (by simp)
    cases hbad

theorem silent_or_not {τ : List Call} {c : TcpConnection} (h : Run calls τ c) :
    (Run (calls.restrict Unread) τ c ∧ Rest (fun e => e.silent = true) c) ∨ ¬ AfterClose (fun e => e.silent = true) c.log := by
  induction h with
  | init hi =>
    cases hi
    exact .inl ⟨.init rfl, new_rest _⟩
  | @step τ c d m _ hs ih =>
    rcases ih with ⟨hr, hi⟩ | hn
    · by_cases hu : Unread c m
      · exact .inl ⟨hr.step ⟨hs, hu⟩, rest_step hi hs rfl fun hm hc => by rw [hu hc] at hm; cases hm⟩
      · obtain ⟨hc, hm⟩ := Classical.not_imp.mp hu
        have hjob := hi.tidy.job
        rw [hc] at hjob
        have hmem : Eff.closeJob ∈ c.log := List.count_pos_iff.mp (by rw [hjob]; exact Nat.one_pos)
        exact .inr (readable_not_silent ⟨_, hmem, rfl⟩ hs (by simpa using hm))
    · exact .inr fun ha => hn (ha.of_prefix (step_grows hs))

theorem silent_run {τ : List Call} {c : TcpConnection} (h : Run (calls.restrict Unread) τ c) :
    Rest (fun e => e.silent = true) c := by
  induction h with
  | init hi =>
    cases hi
    exact new_rest _
  | step _ hs ih => exact rest_step ih hs.1 rfl fun hm hc => by rw [hs.2 hc] at hm; cases hm

/-- Over all runs: after the close nothing is read from the socket, and neither `read_job`
    nor `writ_job` is run, exactly when no readable event comes after it. -/
theorem silent_iff {τ : List Call} {c : TcpConnection} (h : Run calls τ c) :
    AfterClose (fun e => e.silent = true) c.log ↔ Run (calls.restrict Unread) τ c := by
  constructor
  · intro ha
    rcases silent_or_not h with ⟨hr, -⟩ | hn
    · exact hr
    · exact absurd ha hn
  · intro hr
    exact (silent_run hr).tidy.after

/-- A hang-up closes, and a writable event comes after. -/
theorem silent_iff_writable :
    AfterClose (fun e => e.silent = true) ((new.handleEvent Ready.HUP STALLED).handleEvent Ready.WRITABLE STALLED).log ↔
      Run (calls.restrict Unread) [.event Ready.HUP STALLED, .event Ready.WRITABLE STALLED]
        ((new.handleEvent Ready.HUP STALLED).handleEvent Ready.WRITABLE STALLED) := by
  have h0 : Run calls [] new := .init rfl
  exact silent_iff ((h0.step (.event _ Ready.HUP STALLED)).step (.event _ Ready.WRITABLE STALLED))

/-- A `send` that the socket refuses closes the connection; the readable event that was
    already in the batch reads a byte and runs `read_job` on it. -/
theorem a_closed_connection_reads :
    ¬ ∀ (τ : List Call) (c : TcpConnection), Run calls τ c → AfterClose (fun e => e.silent = true) c.log := by
  intro h
  have h0 : Run calls [] new := .init rfl
  have h2 := (h0.step (.send _ [1] .err true)).step (.event _ Ready.READABLE ⟨⟨[([7], id)], .wouldBlock⟩, .ok 0, true⟩)
  have h := h _ _ h2 [.write [1] 0] .closeJob [.deregister, .read (.ok [7]), .readJob [7] [7], .read .wouldBlock] rfl rfl
    (.readJob [7] [7]) (by simp)
  cases h

end Sickle.Net
