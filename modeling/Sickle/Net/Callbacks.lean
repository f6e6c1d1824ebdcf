/-
  Sickle.Net.Callbacks — a connection with the jobs it runs (`net/connection.rs`).

  In `Sickle.Net.Connection` what the jobs answer is an argument. Here the jobs are
  programs: they run in any monad, where the source calls them, and what they change
  outside the connection is there for what follows. The connection is borrowed while they
  run. What the socket answers to a write is a program too.

  - `handleEventWith_runs`, `sendWith_runs`: whatever the jobs do, the connection ends as
    it does there for some answers.
  - `Keeps`: an invariant of the bytes received and the buffer is kept by the connection
    where each job keeps it.
-/

import Sickle.Lib.Locks
import Sickle.Net.Receive

namespace Sickle.Net

open Sickle.Lib Sickle.Lib.Guarded

/-- What a connection is given to run, by `set_read_job` and the like. -/
structure Jobs (m : Type → Type) where
  /-- What it leaves of the buffer. -/
  readJob : Bytes → m Bytes
  writJob : m Bool
  closeJob : m Unit

/-- What the reads of one `handle_read` bring; `ok` as the last is the end of the stream. -/
structure Answered where
  chunks : List Bytes
  last : IoRes Unit
  deriving DecidableEq, Repr

namespace TcpConnection

section Ops

variable {m : Type → Type} [Monad m] (jobs : Jobs m) (write : m (IoRes Nat))

def handleCloseWith (c : TcpConnection) : m TcpConnection :=
  if c.closed then pure c
  else do
    jobs.closeJob
    pure (closeStream (emit { c.setEnabled false with closed := true } .closeJob))

/-- One read that brought `d`, and `read_job`. -/
def readWith (c : TcpConnection) (d : Bytes) : m TcpConnection := do
  let buf ← jobs.readJob (c.readBuffer ++ d)
  pure (readChunk c (d, fun _ => buf))

def readsWith (c : TcpConnection) (ds : List Bytes) : m TcpConnection :=
  match ds with
  | [] => pure c
  | d :: ds => do
    let c ← readWith jobs c d
    readsWith c ds

def handleReadWith (c : TcpConnection) (r : Answered) : m TcpConnection := do
  let c ← readsWith jobs c r.chunks
  match mapNonBlock r.last with
  | some none => pure { c.emit (.read .wouldBlock) with readTriggered := false }
  | some (some ()) => do
    let c ← readWith jobs c []
    handleCloseWith jobs { c with readTriggered := false }
  | none => handleCloseWith jobs { c.emit (.read .err) with readTriggered := false }

def writeChunkWith (c : TcpConnection) (buf : Bytes) (w : IoRes Nat) : m TcpConnection :=
  match tryWriteBuf w buf with
  | (some none, _) => pure { c.emit (.write buf 0) with writeTriggered := false }
  | (some (some cnt), rest) =>
    if 0 < rest.length then pure (c.emit (.write buf cnt))
    else do
      let ret ← jobs.writJob
      let c := emit { c.emit (.write buf cnt) with writeTriggered := false } .writJob
      if ret = false then handleCloseWith jobs c else pure c
  | (none, _) => handleCloseWith jobs { c.emit (.write buf 0) with writeTriggered := false }

def writeDataWith (c : TcpConnection) : m TcpConnection :=
  if 0 < c.writeBufferSending.length then do
    let w ← write
    writeChunkWith jobs { c with writeBufferSending := [] } c.writeBufferSending w
  else if 0 < c.writeBufferWaiting.length then do
    let w ← write
    writeChunkWith jobs { c with writeBufferWaiting := [] } c.writeBufferWaiting w
  else pure c

def sendWith (c : TcpConnection) (bytes : Bytes) : m TcpConnection :=
  if c.writeEnabled = false then pure c
  else if bytes.length = 0 then pure c
  else writeDataWith jobs write { c with writeBufferWaiting := c.writeBufferWaiting ++ bytes }

def handleWriteWith (c : TcpConnection) : m TcpConnection :=
  if c.writeBufferWaiting.length = 0 ∧ c.writeBufferSending.length = 0 then pure c
  else writeDataWith jobs write c

/-- One bit of the event word. -/
def onReady (bit : Bool) (p : TcpConnection → m TcpConnection) (c : TcpConnection) : m TcpConnection :=
  if bit then p c else pure c

def handleEventWith (c : TcpConnection) (event : BitVec 64) (r : Answered) : m TcpConnection := do
  let ready : Ready := ⟨event⟩
  let c ← onReady ready.isReadable (fun c => handleReadWith jobs { c with readTriggered := true } r) c
  let c ← onReady ready.isWritable (fun c => handleWriteWith jobs write { c with writeTriggered := true }) c
  onReady (ready.isError || ready.isHup) (fun c => handleCloseWith jobs { c with readTriggered := true, writeTriggered := true }) c

end Ops

/-! ## The connection alone -/

section Runs

variable {L S : Type} {jobs : Jobs (Guarded L S)} {write : Guarded L S (IoRes Nat)} {held : List L} {s : S}

/-- Nothing is said about the state, nor about how a job stops. -/
abbrev Runs {α : Type} (p : Guarded L S α) (held : List L) (s : S) (post : α → Prop) : Prop :=
  Wp p held s (fun a _ => post a) fun _ => True

theorem Runs.bind {α β : Type} {p : Guarded L S α} {f : α → Guarded L S β} {mid : α → Prop} {post : β → Prop}
    (h : Runs p held s mid) (hf : ∀ a s', mid a → Runs (f a) held s' post) : Runs (p >>= f) held s post :=
  Wp.bind h hf

theorem runs_any {α : Type} (p : Guarded L S α) : Runs p held s fun _ => True := wp_true

theorem handleCloseWith_runs (c : TcpConnection) : Runs (handleCloseWith jobs c) held s (· = c.handleClose) := by
  unfold handleCloseWith handleClose
  split
  · exact rfl
  · exact Runs.bind (runs_any _) fun _ _ _ => rfl

theorem readWith_runs (c : TcpConnection) (d : Bytes) :
    Runs (readWith jobs c d) held s fun c' => ∃ job, c' = readChunk c (d, job) :=
  Runs.bind (runs_any _) fun buf _ _ => ⟨fun _ => buf, rfl⟩

theorem readsWith_runs (ds : List Bytes) : ∀ (c : TcpConnection) (s : S), Runs (readsWith jobs c ds) held s fun c' =>
    ∃ chunks : List (Bytes × (Bytes → Bytes)), chunks.map Prod.fst = ds ∧ c' = chunks.foldl readChunk c := by
  induction ds with
  | nil => exact fun c s => ⟨[], rfl, rfl⟩
  | cons d ds ih =>
    intro c s
    refine Runs.bind (readWith_runs c d) ?_
    rintro _ s' ⟨job, rfl⟩
    refine (ih _ s').mono ?_ fun _ he => he
    rintro _ _ ⟨chunks, rfl, rfl⟩
    exact ⟨(d, job) :: chunks, rfl, rfl⟩

/-- A script brings what was answered. -/
def Brings (r : ReadScript) (a : Answered) : Prop :=
  r.chunks.map Prod.fst = a.chunks ∧ (match a.last with
    | .ok _ => ∃ job, r.last = .ok job
    | .wouldBlock => r.last = .wouldBlock
    | .err => r.last = .err)

theorem handleReadWith_runs (c : TcpConnection) (a : Answered) :
    Runs (handleReadWith jobs c a) held s fun c' => ∃ r, Brings r a ∧ c' = c.handleRead r := by
  obtain ⟨ds, last⟩ := a
  refine Runs.bind (readsWith_runs ds c s) ?_
  rintro _ s' ⟨chunks, rfl, rfl⟩
  cases last with
  | ok u =>
    refine Runs.bind (readWith_runs _ []) ?_
    rintro _ s'' ⟨job, rfl⟩
    refine (handleCloseWith_runs _).mono ?_ fun _ he => he
    rintro _ _ rfl
    refine ⟨⟨chunks, .ok job⟩, ⟨rfl, job, rfl⟩, ?_⟩
    simp only [handleRead, mapNonBlock, readChunk, List.append_nil]
  | wouldBlock => exact ⟨⟨chunks, .wouldBlock⟩, ⟨rfl, rfl⟩, rfl⟩
  | err =>
    refine (handleCloseWith_runs _).mono ?_ fun _ he => he
    rintro _ _ rfl
    exact ⟨⟨chunks, .err⟩, ⟨rfl, rfl⟩, rfl⟩

theorem writeChunkWith_runs (c : TcpConnection) (buf : Bytes) (w : IoRes Nat) :
    Runs (writeChunkWith jobs c buf w) held s fun c' => ∃ ans, c' = c.writeChunk buf w ans := by
  unfold writeChunkWith writeChunk
  rcases tryWriteBuf w buf with ⟨_ | _ | cnt, rest⟩
  · refine (handleCloseWith_runs _).mono ?_ fun _ he => he
    rintro _ _ rfl
    exact ⟨true, rfl⟩
  · exact ⟨true, rfl⟩
  · by_cases hr : 0 < rest.length
    · simp only [if_pos hr]
      exact ⟨true, rfl⟩
    · simp only [if_neg hr]
      refine Runs.bind (runs_any _) fun ans s' _ => ?_
      by_cases ha : ans = false
      · rw [if_pos ha]
        refine (handleCloseWith_runs _).mono ?_ fun _ he => he
        rintro _ _ rfl
        exact ⟨ans, by rw [if_pos ha]⟩
      · rw [if_neg ha]
        exact ⟨ans, by rw [if_neg ha]⟩

theorem writeDataWith_runs (c : TcpConnection) :
    Runs (writeDataWith jobs write c) held s fun c' => ∃ w ans, c' = c.writeData w ans := by
  unfold writeDataWith writeData
  split
  · refine Runs.bind (runs_any _) fun w s' _ => (writeChunkWith_runs _ _ w).mono ?_ fun _ he => he
    exact fun _ _ ⟨ans, h⟩ => ⟨w, ans, h⟩
  · split
    · refine Runs.bind (runs_any _) fun w s' _ => (writeChunkWith_runs _ _ w).mono ?_ fun _ he => he
      exact fun _ _ ⟨ans, h⟩ => ⟨w, ans, h⟩
    · exact ⟨.wouldBlock, true, rfl⟩

theorem sendWith_runs (c : TcpConnection) (bytes : Bytes) :
    Runs (sendWith jobs write c bytes) held s fun c' => ∃ w ans, c' = (c.send bytes w ans).1 := by
  unfold sendWith send
  split
  · exact ⟨.wouldBlock, true, rfl⟩
  · split
    · exact ⟨.wouldBlock, true, rfl⟩
    · exact writeDataWith_runs _

theorem handleWriteWith_runs (c : TcpConnection) :
    Runs (handleWriteWith jobs write c) held s fun c' => ∃ w ans, c' = c.handleWrite w ans := by
  unfold handleWriteWith handleWrite
  split
  · exact ⟨.wouldBlock, true, rfl⟩
  · exact writeDataWith_runs _

theorem onReady_runs {bit : Bool} {p : TcpConnection → Guarded L S TcpConnection} {α : Type} {f : α → TcpConnection → TcpConnection}
    (hp : ∀ c, Runs (p c) held s fun c' => ∃ a, c' = f a c) (a₀ : α) (c : TcpConnection) :
    Runs (onReady bit p c) held s fun c' => ∃ a, c' = if bit then f a c else c := by
  unfold onReady
  cases bit with
  | true => exact hp c
  | false => exact ⟨a₀, rfl⟩

/-- Whatever the jobs do, the connection handles the event as for some answers. -/
theorem handleEventWith_runs (c : TcpConnection) (event : BitVec 64) (r : Answered) :
    Runs (handleEventWith jobs write c event r) held s fun c' => ∃ a : EventAnswers, c' = c.handleEvent event a := by
  unfold handleEventWith
  refine Runs.bind (onReady_runs (f := fun reads c => handleRead { c with readTriggered := true } reads)
    (fun c => (handleReadWith_runs _ r).mono (fun _ _ ⟨reads, _, he⟩ => ⟨reads, he⟩) fun _ he => he) ⟨[], .wouldBlock⟩ c) ?_
  rintro _ s' ⟨reads, rfl⟩
  refine Runs.bind (onReady_runs (f := fun (x : IoRes Nat × Bool) c => handleWrite { c with writeTriggered := true } x.1 x.2)
    (fun c => (handleWriteWith_runs _).mono (fun _ _ ⟨w, ans, he⟩ => ⟨(w, ans), he⟩) fun _ he => he) (.wouldBlock, true) _) ?_
  rintro _ s'' ⟨⟨w, ans⟩, rfl⟩
  refine (onReady_runs (f := fun (_ : Unit) c => handleClose { c with readTriggered := true, writeTriggered := true })
    (fun c => (handleCloseWith_runs _).mono (fun _ _ he => ⟨(), he⟩) fun _ he => he) () _).mono ?_ fun _ he => he
  rintro _ _ ⟨_, rfl⟩
  exact ⟨⟨reads, w, ans⟩, rfl⟩

end Runs

/-! ## Invariants of what is read -/

/-- `J` is about the bytes received, the buffer and the state: what a write and a close run
    keeps it. -/
structure KeepsWrites {L S : Type} (jobs : Jobs (Guarded L S)) (write : Guarded L S (IoRes Nat)) (held : List L)
    (J : Bytes → Bytes → S → Prop) (stopped : Stop → Prop) : Prop where
  writ : ∀ r b s, J r b s → Wp jobs.writJob held s (fun _ s' => J r b s') stopped
  close : ∀ r b s, J r b s → Wp jobs.closeJob held s (fun _ s' => J r b s') stopped
  write : ∀ r b s, J r b s → Wp write held s (fun _ s' => J r b s') stopped

/-- And so does `read_job`: the bytes of a read are received. -/
structure Keeps {L S : Type} (jobs : Jobs (Guarded L S)) (write : Guarded L S (IoRes Nat)) (held : List L)
    (J : Bytes → Bytes → S → Prop) (stopped : Stop → Prop) : Prop extends KeepsWrites jobs write held J stopped where
  read : ∀ r b d s, J r b s → Wp (jobs.readJob (b ++ d)) held s (fun buf s' => J (r ++ d) buf s') stopped

theorem received_emit (c : TcpConnection) (e : Eff) : received (c.emit e) = received c ++ (e.read?.map Eff.got).getD [] := by
  unfold received
  rw [readLog_emit]
  cases e.read? <;> simp

theorem received_readChunk (c : TcpConnection) (d : Bytes) (job : Bytes → Bytes) :
    received (readChunk c (d, job)) = received c ++ d := by
  unfold readChunk
  rw [received_emit, received_emit]
  simp [received, readLog, Eff.read?, Eff.got]

namespace KeepsWrites

variable {L S : Type} {jobs : Jobs (Guarded L S)} {write : Guarded L S (IoRes Nat)} {held : List L} {s : S}
  {J : Bytes → Bytes → S → Prop} {stopped : Stop → Prop}

theorem handleCloseWith (h : KeepsWrites jobs write held J stopped) (c : TcpConnection) (hj : J (received c) c.readBuffer s) :
    Wp (handleCloseWith jobs c) held s (fun c' s' => J (received c') c'.readBuffer s') stopped := by
  unfold TcpConnection.handleCloseWith
  split
  · exact hj
  · refine Wp.bind (h.close _ _ _ hj) fun _ s' hj' => ?_
    have hr : received (closeStream (emit { c.setEnabled false with closed := true } .closeJob)) = received c := by
      simp [received, readLog, closeStream, emit, setEnabled, Eff.read?]
    rw [wp_pure, hr]
    exact hj'

theorem writeChunkWith (h : KeepsWrites jobs write held J stopped) (c : TcpConnection) (buf : Bytes) (w : IoRes Nat)
    (hj : J (received c) c.readBuffer s) :
    Wp (writeChunkWith jobs c buf w) held s (fun c' s' => J (received c') c'.readBuffer s') stopped := by
  have hr : ∀ n, received (c.emit (.write buf n)) = received c := by
    intro n
    rw [received_emit]
    simp [Eff.read?]
  unfold TcpConnection.writeChunkWith
  rcases tryWriteBuf w buf with ⟨_ | _ | cnt, rest⟩
  · refine h.handleCloseWith _ ?_
    show J (received (c.emit (.write buf 0))) _ _
    rw [hr]
    exact hj
  · show J (received (c.emit (.write buf 0))) _ _
    rw [hr]
    exact hj
  · dsimp only
    split
    · show J (received (c.emit (.write buf cnt))) _ _
      rw [hr]
      exact hj
    · refine Wp.bind (h.writ _ _ _ hj) fun ret s' hj' => ?_
      have hw : received (emit { c.emit (.write buf cnt) with writeTriggered := false } .writJob) = received c := by
        rw [received_emit]
        exact (List.append_nil _).trans (hr cnt)
      split
      · refine h.handleCloseWith _ ?_
        rw [hw]
        exact hj'
      · rw [wp_pure, hw]
        exact hj'

theorem writeDataWith (h : KeepsWrites jobs write held J stopped) (c : TcpConnection) (hj : J (received c) c.readBuffer s) :
    Wp (writeDataWith jobs write c) held s (fun c' s' => J (received c') c'.readBuffer s') stopped := by
  unfold TcpConnection.writeDataWith
  split
  · exact Wp.bind (h.write _ _ _ hj) fun w s' hj' => h.writeChunkWith _ _ w hj'
  · split
    · exact Wp.bind (h.write _ _ _ hj) fun w s' hj' => h.writeChunkWith _ _ w hj'
    · exact hj

theorem sendWith (h : KeepsWrites jobs write held J stopped) (c : TcpConnection) (bytes : Bytes) (hj : J (received c) c.readBuffer s) :
    Wp (sendWith jobs write c bytes) held s (fun c' s' => J (received c') c'.readBuffer s') stopped := by
  unfold TcpConnection.sendWith
  split
  · exact hj
  · split
    · exact hj
    · exact h.writeDataWith _ hj

theorem handleWriteWith (h : KeepsWrites jobs write held J stopped) (c : TcpConnection) (hj : J (received c) c.readBuffer s) :
    Wp (handleWriteWith jobs write c) held s (fun c' s' => J (received c') c'.readBuffer s') stopped := by
  unfold TcpConnection.handleWriteWith
  split
  · exact hj
  · exact h.writeDataWith _ hj

end KeepsWrites

namespace Keeps

variable {L S : Type} {jobs : Jobs (Guarded L S)} {write : Guarded L S (IoRes Nat)} {held : List L} {s : S}
  {J : Bytes → Bytes → S → Prop} {stopped : Stop → Prop}

theorem readWith (h : Keeps jobs write held J stopped) (c : TcpConnection) (d : Bytes) (hj : J (received c) c.readBuffer s) :
    Wp (readWith jobs c d) held s (fun c' s' => J (received c') c'.readBuffer s') stopped := by
  refine Wp.bind (h.read _ _ d _ hj) fun buf s' hj' => ?_
  rw [wp_pure, received_readChunk]
  exact hj'

theorem readsWith (h : Keeps jobs write held J stopped) (ds : List Bytes) : ∀ (c : TcpConnection) (s : S),
    J (received c) c.readBuffer s → Wp (readsWith jobs c ds) held s (fun c' s' => J (received c') c'.readBuffer s') stopped := by
  induction ds with
  | nil => exact fun c s hj => hj
  | cons d ds ih => exact fun c s hj => Wp.bind (h.readWith c d hj) fun c' s' hj' => ih c' s' hj'

theorem handleReadWith (h : Keeps jobs write held J stopped) (c : TcpConnection) (a : Answered) (hj : J (received c) c.readBuffer s) :
    Wp (handleReadWith jobs c a) held s (fun c' s' => J (received c') c'.readBuffer s') stopped := by
  refine Wp.bind (h.readsWith a.chunks c s hj) fun c' s' hj' => ?_
  have hr : ∀ x : IoRes Bytes, Eff.got x = [] → received (c'.emit (.read x)) = received c' := by
    intro x hx
    rw [received_emit]
    simp [Eff.read?, hx]
  cases a.last with
  | ok u => exact Wp.bind (h.readWith c' [] hj') fun c'' s'' hj'' => h.toKeepsWrites.handleCloseWith _ hj''
  | wouldBlock =>
    show J (received (c'.emit (.read .wouldBlock))) _ _
    rw [hr _ rfl]
    exact hj'
  | err =>
    refine h.toKeepsWrites.handleCloseWith _ ?_
    show J (received (c'.emit (.read .err))) _ _
    rw [hr _ rfl]
    exact hj'

theorem handleEventWith (h : Keeps jobs write held J stopped) (c : TcpConnection) (event : BitVec 64) (r : Answered)
    (hj : J (received c) c.readBuffer s) :
    Wp (handleEventWith jobs write c event r) held s (fun c' s' => J (received c') c'.readBuffer s') stopped := by
  have ready : ∀ (bit : Bool) (p : TcpConnection → Guarded L S TcpConnection) (c : TcpConnection) (s : S),
      (J (received c) c.readBuffer s → Wp (p c) held s (fun c' s' => J (received c') c'.readBuffer s') stopped) →
      J (received c) c.readBuffer s → Wp (onReady bit p c) held s (fun c' s' => J (received c') c'.readBuffer s') stopped := by
    intro bit p c s hp hj
    cases bit with
    | true => exact hp hj
    | false => exact hj
  refine Wp.bind (ready _ _ c s (fun hj => h.handleReadWith _ r hj) hj) fun c' s' hj' => ?_
  refine Wp.bind (ready _ _ c' s' (fun hj => h.toKeepsWrites.handleWriteWith _ hj) hj') fun c'' s'' hj'' => ?_
  exact ready _ _ c'' s'' (fun hj => h.toKeepsWrites.handleCloseWith _ hj) hj''

end Keeps

end TcpConnection

end Sickle.Net
