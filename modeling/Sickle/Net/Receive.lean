/-
  Sickle.Net.Receive — the incoming byte stream of a connection.

  The peer sends bytes and may end its side of the stream once. The socket is a source of
  `Sickle.Lib.Edge`; bytes come in between the reads of one `handle_read`, before the
  first and after the last, so what `try_read_buf` answers is tied to what is there when
  it is asked (`Reads`): a read brings any part of what waits, WouldBlock means nothing
  does, and a read of no bytes is the end of the stream (a `BytesMut` always has room).
  An event that is not readable comes to an open connection only when nothing waits. To a
  closed one, which is deregistered, the event comes that was in the batch before.

  - `input_in_order`: what was read, then what waits in the socket, is what the peer sent;
    a connection that has seen the end of the stream has read all of it. Each read was
    given to `read_job` behind what the call before had left (`Fed`); so what jobs that
    eat from the front have eaten, and the read buffer, is what was read.
  - `no_input_stranded`: on an open connection for which no event is due everything has
    been read, and the peer has not ended the stream.
-/

import Sickle.Lib.Edge
import Sickle.Lib.Simulation
import Sickle.Net.Connection

namespace Sickle.Net

open Sickle.Lib TcpConnection

inductive Input where
  | byte (b : UInt8)
  | fin
  deriving DecidableEq, Repr

/-- `arrived` is a record. -/
structure Socket where
  input : Source Input
  arrived : List Input

namespace Socket

/-- What the peer and the kernel do. -/
inductive Arrives : Socket → Socket → Prop
  | item (k : Socket) (x : Input) (due : Bool) : .fin ∉ k.arrived → (k.input.waiting = [] ∨ k.input.due = true → due = true) →
      Arrives k ⟨⟨k.input.waiting ++ [x], due⟩, k.arrived ++ [x]⟩
  | spurious (k : Socket) : Arrives k { k with input := { k.input with due := true } }

def notice (k : Socket) : Socket := { k with input := k.input.notice }

def take (k : Socket) (n : Nat) : Socket := { k with input := k.input.take n }

/-- The reads of one `handle_read`, with what arrives meanwhile. -/
inductive Reads : Socket → ReadScript → Socket → Prop
  | arrives {k k' k'' : Socket} {r : ReadScript} : Arrives k k' → Reads k' r k'' → Reads k r k''
  | chunk {k k' : Socket} {r : ReadScript} (bs : Bytes) (job : Bytes → Bytes) (rest : List Input) : bs ≠ [] →
      k.input.waiting = bs.map .byte ++ rest → Reads (k.take bs.length) r k' → Reads k { r with chunks := (bs, job) :: r.chunks } k'
  | wouldBlock (k : Socket) : k.input.waiting = [] → Reads k ⟨[], .wouldBlock⟩ k
  | fin (k : Socket) (job : Bytes → Bytes) (rest : List Input) : k.input.waiting = .fin :: rest → Reads k ⟨[], .ok job⟩ k
  | err (k : Socket) : Reads k ⟨[], .err⟩ k

end Socket

structure Incoming where
  conn : TcpConnection
  socket : Socket
  registered : Bool

inductive IncomingEv where
  | arrives
  | register
  | event (word : BitVec 64) (answers : EventAnswers)
  | send (bytes : Bytes) (w : IoRes Nat) (ans : Bool)

inductive IncomingStep : Incoming → IncomingEv → Incoming → Prop
  | arrives (s : Incoming) (k : Socket) : s.socket.Arrives k → IncomingStep s .arrives { s with socket := k }
  | register (s : Incoming) : s.registered = false →
      IncomingStep s .register { s with socket := { s.socket with input := s.socket.input.attach }, registered := true }
  /-- A readable event, and the `handle_read` in it. -/
  | readable (s : Incoming) (k : Socket) (word : BitVec 64) (a : EventAnswers) : s.registered = true → s.conn.closed = false →
      s.socket.input.due = true → Ready.isReadable ⟨word⟩ = true → s.socket.notice.Reads a.reads k →
      IncomingStep s (.event word a) { s with conn := s.conn.handleEvent word a, socket := k }
  | other (s : Incoming) (word : BitVec 64) (a : EventAnswers) : s.registered = true → s.conn.closed = false →
      s.socket.input.due = true → Ready.isReadable ⟨word⟩ = false → s.socket.input.waiting = [] →
      IncomingStep s (.event word a) { s with conn := s.conn.handleEvent word a, socket := s.socket.notice }
  /-- `handle_event` does not look at `closed`. -/
  | lateReadable (s : Incoming) (k : Socket) (word : BitVec 64) (a : EventAnswers) : s.registered = true → s.conn.closed = true →
      Ready.isReadable ⟨word⟩ = true → s.socket.Reads a.reads k →
      IncomingStep s (.event word a) { s with conn := s.conn.handleEvent word a, socket := k }
  | lateOther (s : Incoming) (word : BitVec 64) (a : EventAnswers) : s.registered = true → s.conn.closed = true →
      Ready.isReadable ⟨word⟩ = false → IncomingStep s (.event word a) { s with conn := s.conn.handleEvent word a }
  | send (s : Incoming) (bytes : Bytes) (w : IoRes Nat) (ans : Bool) :
      IncomingStep s (.send bytes w ans) { s with conn := (s.conn.send bytes w ans).1 }

def incoming : Lts Incoming IncomingEv := ⟨fun s => s = ⟨new, ⟨.empty, []⟩, false⟩, IncomingStep⟩

/-! ## What a connection has read -/

def Eff.read? : Eff → Option (IoRes Bytes)
  | .read r => some r
  | _ => none

def Eff.got : IoRes Bytes → Bytes
  | .ok bs => bs
  | _ => []

/-- The answers to the reads so far. -/
def readLog (c : TcpConnection) : List (IoRes Bytes) := c.log.filterMap Eff.read?

def received (c : TcpConnection) : Bytes := (readLog c).flatMap Eff.got

/-- The stream has ended: a read brought no bytes. -/
def Ended (c : TcpConnection) : Prop := IoRes.ok [] ∈ readLog c

def Eff.given? : Eff → Option (Bytes × Bytes)
  | .readJob shown left => some (shown, left)
  | _ => none

/-- The calls of `read_job` so far: what each was shown and what it left. -/
def jobLog (c : TcpConnection) : List (Bytes × Bytes) := c.log.filterMap Eff.given?

def Eff.bytes? : IoRes Bytes → Option Bytes
  | .ok bs => some bs
  | _ => none

/-- What the successful reads brought, each by itself. -/
def reads (c : TcpConnection) : List Bytes := (readLog c).filterMap Eff.bytes?

/-- Each read has its call of the job, which is shown the bytes read behind those that the
    call before has left. -/
inductive Fed : List Bytes → List (Bytes × Bytes) → Bytes → Prop
  | none : Fed [] [] []
  | call {reads : List Bytes} {jobs : List (Bytes × Bytes)} {kept : Bytes} (bs left : Bytes) : Fed reads jobs kept →
      Fed (reads ++ [bs]) (jobs ++ [(kept ++ bs, left)]) left

/-- What a call took, if it took from the front. -/
def taken (j : Bytes × Bytes) : Bytes := j.1.take (j.1.length - j.2.length)

theorem taken_append {j : Bytes × Bytes} (h : j.2 <:+ j.1) : taken j ++ j.2 = j.1 := by
  obtain ⟨front, hfront⟩ := h
  have hlen : j.1.length - j.2.length = front.length := by rw [← hfront, List.length_append, Nat.add_sub_cancel]
  rw [taken, hlen, ← hfront, List.take_left]

/-- Jobs that take from the front take what was read, in order. -/
theorem Fed.taken {reads : List Bytes} {jobs : List (Bytes × Bytes)} {kept : Bytes} (h : Fed reads jobs kept)
    (hfront : ∀ j ∈ jobs, j.2 <:+ j.1) : jobs.flatMap taken ++ kept = reads.flatten := by
  induction h with
  | none => rfl
  | @call reads jobs kept bs left _ ih =>
    have hbefore := ih fun j hj => hfront j (List.mem_append_left _ hj)
    have hlast : Net.taken (kept ++ bs, left) ++ left = kept ++ bs :=
      taken_append (hfront _ (List.mem_append_right _ List.mem_cons_self))
    calc (jobs ++ [(kept ++ bs, left)]).flatMap Net.taken ++ left
        = jobs.flatMap Net.taken ++ (Net.taken (kept ++ bs, left) ++ left) := by simp
      _ = jobs.flatMap Net.taken ++ kept ++ bs := by rw [hlast, List.append_assoc]
      _ = (reads ++ [bs]).flatten := by rw [hbefore]; simp

/-- What a script's last read answers. -/
def lastRead (r : ReadScript) : IoRes Bytes :=
  match r.last with
  | .ok _ => .ok []
  | .wouldBlock => .wouldBlock
  | .err => .err

/-- The reads of a script. -/
def answers (r : ReadScript) : List (IoRes Bytes) := r.chunks.map (fun d => .ok d.1) ++ [lastRead r]

/-- Neither a read nor a call of `read_job`. -/
def Eff.quiet : Eff → Bool
  | .read _ | .readJob _ _ => false
  | _ => true

/-- From `c` to `d` nothing was read and the read buffer was left alone. -/
def Quiet (c d : TcpConnection) : Prop := readLog d = readLog c ∧ jobLog d = jobLog c ∧ d.readBuffer = c.readBuffer

theorem Quiet.trans {c d e : TcpConnection} (h : Quiet c d) (h' : Quiet d e) : Quiet c e :=
  ⟨h'.1.trans h.1, h'.2.1.trans h.2.1, h'.2.2.trans h.2.2⟩

section ReadLog

variable (c : TcpConnection)

theorem readLog_emit (e : Eff) : readLog (c.emit e) = readLog c ++ e.read?.toList := by
  show (c.log ++ [e]).filterMap Eff.read? = _
  rw [List.filterMap_append]
  cases h : e.read? <;> simp [readLog, h]

theorem jobLog_emit (e : Eff) : jobLog (c.emit e) = jobLog c ++ e.given?.toList := by
  show (c.log ++ [e]).filterMap Eff.given? = _
  rw [List.filterMap_append]
  cases h : e.given? <;> simp [jobLog, h]

theorem emit_quiet {e : Eff} (h : e.quiet = true) : Quiet c (c.emit e) := by
  refine ⟨?_, ?_, rfl⟩
  · rw [readLog_emit]
    cases e <;> first | exact List.append_nil _ | cases h
  · rw [jobLog_emit]
    cases e <;> first | exact List.append_nil _ | cases h

theorem handleClose_quiet : Quiet c (handleClose c) := by
  unfold handleClose
  split
  · exact ⟨rfl, rfl, rfl⟩
  · have hjob : Quiet c (emit { c.setEnabled false with closed := true } .closeJob) :=
      emit_quiet { c.setEnabled false with closed := true } rfl
    exact hjob.trans (emit_quiet _ rfl)

theorem writeChunk_quiet (buf : Bytes) (w : IoRes Nat) (ans : Bool) : Quiet c (writeChunk c buf w ans) := by
  unfold writeChunk
  split
  · exact emit_quiet c rfl
  next cnt rest _ =>
    have hw : Quiet c (c.emit (.write buf cnt)) := emit_quiet c rfl
    dsimp only
    split
    · exact hw
    · have hj : Quiet c (emit { c.emit (.write buf cnt) with writeTriggered := false } .writJob) :=
        hw.trans (emit_quiet { c.emit (.write buf cnt) with writeTriggered := false } rfl)
      split
      · exact hj.trans (handleClose_quiet _)
      · exact hj
  · have hw : Quiet c { c.emit (.write buf 0) with writeTriggered := false } := emit_quiet c rfl
    exact hw.trans (handleClose_quiet _)

theorem writeData_quiet (w : IoRes Nat) (ans : Bool) : Quiet c (c.writeData w ans) := by
  unfold writeData
  split
  · exact writeChunk_quiet { c with writeBufferSending := [] } _ w ans
  · split
    · exact writeChunk_quiet { c with writeBufferWaiting := [] } _ w ans
    · exact ⟨rfl, rfl, rfl⟩

theorem send_quiet (bytes : Bytes) (w : IoRes Nat) (ans : Bool) : Quiet c (c.send bytes w ans).1 := by
  unfold send
  split
  · exact ⟨rfl, rfl, rfl⟩
  · split
    · exact ⟨rfl, rfl, rfl⟩
    · exact writeData_quiet { c with writeBufferWaiting := c.writeBufferWaiting ++ bytes } w ans

theorem handleWrite_quiet (w : IoRes Nat) (ans : Bool) : Quiet c (handleWrite c w ans) := by
  unfold handleWrite
  split
  · exact ⟨rfl, rfl, rfl⟩
  · exact writeData_quiet c w ans

/-- Once an event has read, it reads no more. -/
theorem handleEvent_quiet (word : BitVec 64) (a : EventAnswers) :
    Quiet (if Ready.isReadable ⟨word⟩ then handleRead { c with readTriggered := true } a.reads else c) (c.handleEvent word a) := by
  have hwrite : ∀ b : TcpConnection, Quiet b
      (if Ready.isWritable ⟨word⟩ then handleWrite { b with writeTriggered := true } a.write a.writJob else b) := by
    intro b
    split
    · exact handleWrite_quiet { b with writeTriggered := true } _ _
    · exact ⟨rfl, rfl, rfl⟩
  have hclose : ∀ b : TcpConnection, Quiet b (if (Ready.isError ⟨word⟩ || Ready.isHup ⟨word⟩) = true then
      handleClose { b with readTriggered := true, writeTriggered := true } else b) := by
    intro b
    split
    · exact handleClose_quiet { b with readTriggered := true, writeTriggered := true }
    · exact ⟨rfl, rfl, rfl⟩
  exact (hwrite _).trans (hclose _)

theorem readLog_readChunks (ds : List (Bytes × (Bytes → Bytes))) :
    readLog (ds.foldl readChunk c) = readLog c ++ ds.map fun d => .ok d.1 := by
  induction ds generalizing c with
  | nil => exact (List.append_nil _).symm
  | cons d ds ih =>
    rw [List.foldl_cons, ih, readChunk, readLog_emit, readLog_emit, List.map_cons]
    simp [readLog, Eff.read?]

theorem readLog_handleRead (r : ReadScript) : readLog (handleRead c r) = readLog c ++ answers r := by
  have hchunks := readLog_readChunks c r.chunks
  unfold handleRead answers lastRead mapNonBlock
  rw [← List.append_assoc, ← hchunks]
  cases r.last with
  | ok job =>
    simp only
    rw [(handleClose_quiet _).1]
    simp [readLog, emit, Eff.read?]
  | wouldBlock => simp [readLog, emit, Eff.read?]
  | err =>
    simp only
    rw [(handleClose_quiet _).1]
    simp [readLog, emit, Eff.read?]

/-- An event reads if it is readable. -/
theorem readLog_handleEvent (word : BitVec 64) (a : EventAnswers) :
    readLog (c.handleEvent word a) = readLog c ++ if Ready.isReadable ⟨word⟩ then answers a.reads else [] := by
  rw [(handleEvent_quiet c word a).1]
  split
  · exact readLog_handleRead _ _
  · exact (List.append_nil _).symm

end ReadLog

/-! ## Every read is given to the job -/

/-- The job has been fed what was read, and the read buffer is what it has left. -/
def Feeds (c : TcpConnection) : Prop := Fed (reads c) (jobLog c) c.readBuffer

namespace Feeds

variable {c : TcpConnection}

theorem quiet {d : TcpConnection} (h : Feeds c) (hq : Quiet c d) : Feeds d := by
  unfold Feeds reads
  rw [hq.1, hq.2.1, hq.2.2]
  exact h

/-- A read of `bs`, and the call of the job that goes with it. -/
theorem read (h : Feeds c) (bs left : Bytes) :
    Feeds ((emit { c with readBuffer := left } (.read (.ok bs))).emit (.readJob (c.readBuffer ++ bs) left)) := by
  have hreads : reads ((emit { c with readBuffer := left } (.read (.ok bs))).emit (.readJob (c.readBuffer ++ bs) left)) =
      reads c ++ [bs] := by
    rw [reads, readLog_emit, readLog_emit]
    simp [reads, readLog, Eff.read?, Eff.bytes?]
  have hjobs : jobLog ((emit { c with readBuffer := left } (.read (.ok bs))).emit (.readJob (c.readBuffer ++ bs) left)) =
      jobLog c ++ [(c.readBuffer ++ bs, left)] := by
    rw [jobLog_emit, jobLog_emit]
    simp [jobLog, Eff.given?]
  unfold Feeds
  rw [hreads, hjobs]
  exact Fed.call bs left h

/-- A read that brings nothing to the buffer. -/
theorem failed (h : Feeds c) {r : IoRes Bytes} (hr : Eff.bytes? r = none) : Feeds (c.emit (.read r)) := by
  have hreads : reads (c.emit (.read r)) = reads c := by
    rw [reads, readLog_emit]
    simp [reads, Eff.read?, hr]
  have hjobs : jobLog (c.emit (.read r)) = jobLog c := by
    rw [jobLog_emit]
    simp [Eff.given?]
  unfold Feeds
  rw [hreads, hjobs]
  exact h

theorem readChunks (ds : List (Bytes × (Bytes → Bytes))) (h : Feeds c) : Feeds (ds.foldl readChunk c) := by
  induction ds generalizing c with
  | nil => exact h
  | cons d ds ih => exact ih (h.read d.1 (d.2 (c.readBuffer ++ d.1)))

theorem handleRead (r : ReadScript) (h : Feeds c) : Feeds (handleRead c r) := by
  have hchunks := h.readChunks r.chunks
  unfold TcpConnection.handleRead
  simp only
  split
  · exact hchunks.failed (r := .wouldBlock) rfl
  next job _ =>
    have hend := hchunks.read [] (job (r.chunks.foldl readChunk c).readBuffer)
    rw [List.append_nil] at hend
    exact hend.quiet (handleClose_quiet _)
  · have herr := hchunks.failed (r := .err) rfl
    exact herr.quiet (handleClose_quiet _)

theorem handleEvent (word : BitVec 64) (a : EventAnswers) (h : Feeds c) : Feeds (c.handleEvent word a) := by
  refine Feeds.quiet ?_ (handleEvent_quiet c word a)
  split
  · exact Feeds.handleRead (c := { c with readTriggered := true }) a.reads h
  · exact h

end Feeds

theorem feeds_run {τ : List IncomingEv} {s : Incoming} (h : Run incoming τ s) : Feeds s.conn := by
  refine Run.inv (P := fun s : Incoming => Feeds s.conn) ?_ (fun s e s' ih hs => ?_) h
  · rintro s rfl
    exact .none
  · cases hs with
    | arrives | register => exact ih
    | readable | other | lateReadable | lateOther => exact ih.handleEvent _ _
    | send bytes w ans => exact ih.quiet (send_quiet _ bytes w ans)

theorem received_eq (c : TcpConnection) : received c = (reads c).flatten := by
  unfold received reads
  induction readLog c with
  | nil => rfl
  | cons r rs ih =>
    rw [List.flatMap_cons, ih]
    cases r <;> rfl

/-! ## An event that leaves the connection open -/

section Open

variable {c : TcpConnection}

theorem handleClose_closed (c : TcpConnection) : (handleClose c).closed = true := by
  unfold handleClose
  split
  · assumption
  · rfl

theorem writeChunk_closed (buf : Bytes) (w : IoRes Nat) (ans : Bool) (h : c.closed = true) : (writeChunk c buf w ans).closed = true := by
  unfold writeChunk
  split
  · exact h
  · dsimp only
    split
    · exact h
    · split
      · exact handleClose_closed _
      · exact h
  · exact handleClose_closed _

theorem writeData_closed (w : IoRes Nat) (ans : Bool) (h : c.closed = true) : (writeData c w ans).closed = true := by
  unfold writeData
  split
  · exact writeChunk_closed _ w ans h
  · split
    · exact writeChunk_closed _ w ans h
    · exact h

theorem handleWrite_closed (w : IoRes Nat) (ans : Bool) (h : c.closed = true) : (handleWrite c w ans).closed = true := by
  unfold handleWrite
  split
  · exact h
  · exact writeData_closed w ans h

theorem send_closed (bytes : Bytes) (w : IoRes Nat) (ans : Bool) (h : c.closed = true) : (c.send bytes w ans).1.closed = true := by
  unfold send
  split
  · exact h
  · split
    · exact h
    · exact writeData_closed w ans h

/-- The end of the stream and a failed read close the connection. -/
theorem handleRead_closed (r : ReadScript) (h : r.last ≠ .wouldBlock) : (handleRead c r).closed = true := by
  unfold handleRead mapNonBlock
  cases hl : r.last with
  | ok job => exact handleClose_closed _
  | wouldBlock => exact absurd hl h
  | err => exact handleClose_closed _

theorem handleRead_keeps_closed (r : ReadScript) (h : c.closed = true) : (handleRead c r).closed = true := by
  have hchunks : ∀ (ds : List (Bytes × (Bytes → Bytes))) (c : TcpConnection), (ds.foldl readChunk c).closed = c.closed := by
    intro ds
    induction ds with
    | nil => exact fun _ => rfl
    | cons d ds ih => exact fun c => ih (readChunk c d)
  unfold handleRead mapNonBlock
  cases r.last with
  | ok job => exact handleClose_closed _
  | wouldBlock => exact (hchunks r.chunks c).trans h
  | err => exact handleClose_closed _

/-- After its read an event leaves a closed connection closed. -/
theorem handleEvent_stays_closed (word : BitVec 64) (a : EventAnswers)
    (h : (if Ready.isReadable ⟨word⟩ then handleRead { c with readTriggered := true } a.reads else c).closed = true) :
    (c.handleEvent word a).closed = true := by
  unfold handleEvent
  simp only
  split
  · exact handleClose_closed _
  · split
    · exact handleWrite_closed _ _ h
    · exact h

theorem handleEvent_keeps_closed (word : BitVec 64) (a : EventAnswers) (h : c.closed = true) :
    (c.handleEvent word a).closed = true := by
  refine handleEvent_stays_closed word a ?_
  split
  · exact handleRead_keeps_closed (c := { c with readTriggered := true }) a.reads h
  · exact h

theorem handleEvent_closed (word : BitVec 64) (a : EventAnswers) (hr : Ready.isReadable ⟨word⟩ = true)
    (h : a.reads.last ≠ .wouldBlock) : (c.handleEvent word a).closed = true := by
  refine handleEvent_stays_closed word a ?_
  rw [if_pos hr]
  exact handleRead_closed a.reads h

end Open

/-! ## The stream is read in order -/

/-- `pre` and what waits is what arrived, and the end of the stream comes last. -/
structure Straight (pre : List Input) (k : Socket) : Prop where
  order : pre ++ k.input.waiting = k.arrived
  last : ∀ xs ys, k.arrived = xs ++ .fin :: ys → ys = []

namespace Straight

variable {pre : List Input} {k k' : Socket}

theorem arrives (h : Straight pre k) (ha : k.Arrives k') : Straight pre k' := by
  cases ha with
  | item x due hfin _ =>
    refine ⟨?_, fun xs ys he => ?_⟩
    · show pre ++ (k.input.waiting ++ [x]) = k.arrived ++ [x]
      rw [← List.append_assoc, h.order]
    · change k.arrived ++ [x] = xs ++ .fin :: ys at he
      rcases List.eq_nil_or_concat' ys with rfl | ⟨ys, y, rfl⟩
      · rfl
      · rw [← List.cons_append, ← List.append_assoc] at he
        obtain ⟨he, -⟩ := List.append_inj' he rfl
        exact absurd (he ▸ List.mem_append_right _ List.mem_cons_self) hfin
  | spurious => exact ⟨h.order, h.last⟩

theorem take (h : Straight pre k) {xs rest : List Input} (hw : k.input.waiting = xs ++ rest) :
    Straight (pre ++ xs) (k.take xs.length) := by
  refine ⟨?_, h.last⟩
  show pre ++ xs ++ k.input.waiting.drop xs.length = k.arrived
  rw [hw, List.drop_left, List.append_assoc, ← hw, h.order]

/-- The end of the stream waits alone. -/
theorem fin_alone (h : Straight pre k) {rest : List Input} (hw : k.input.waiting = .fin :: rest) : k.input.waiting = [.fin] := by
  have ho := h.order
  rw [hw] at ho ⊢
  rw [h.last pre rest ho.symm]

end Straight

theorem answers_cons (d : Bytes × (Bytes → Bytes)) (r : ReadScript) :
    answers { r with chunks := d :: r.chunks } = .ok d.1 :: answers r := rfl

/-- The reads of a `handle_read` go on with the stream where it was left, and find its end
    only where it is. -/
theorem reads_straight {k k' : Socket} {r : ReadScript} (h : k.Reads r k') : ∀ {pre : List Input}, Straight pre k →
    Straight (pre ++ ((answers r).flatMap Eff.got).map .byte) k' ∧
      (.ok [] ∈ answers r → r.last ≠ .wouldBlock ∧ k'.input.waiting = [.fin]) := by
  have hend : ∀ {pre : List Input} {k : Socket} (r : ReadScript), r.chunks = [] → Straight pre k →
      Straight (pre ++ ((answers r).flatMap Eff.got).map .byte) k := by
    intro pre k r hc h
    have hnone : (answers r).flatMap Eff.got = [] := by
      unfold answers lastRead
      rw [hc]
      cases r.last <;> rfl
    rw [hnone, List.map_nil, List.append_nil]
    exact h
  induction h with
  | arrives ha _ ih => exact fun hpre => ih (hpre.arrives ha)
  | @chunk k k' r bs job rest hne hw _ ih =>
    intro pre hpre
    have htake := hpre.take hw
    rw [List.length_map] at htake
    obtain ⟨hst, hfin⟩ := ih htake
    rw [answers_cons, List.flatMap_cons, List.map_append, ← List.append_assoc]
    refine ⟨hst, fun hm => hfin ?_⟩
    rcases List.mem_cons.mp hm with he | hm
    · injection he with he
      exact absurd he.symm hne
    · exact hm
  | wouldBlock k _ => exact fun hpre => ⟨hend _ rfl hpre, fun hm => absurd hm (by simp [answers, lastRead])⟩
  | fin k job rest hw => exact fun hpre => ⟨hend _ rfl hpre, fun _ => ⟨by simp, hpre.fin_alone hw⟩⟩
  | err k => exact fun hpre => ⟨hend _ rfl hpre, fun hm => absurd hm (by simp [answers, lastRead])⟩

/-- At the end of the stream there is nothing more to read. -/
theorem reads_at_end {k k' : Socket} {r : ReadScript} (h : k.Reads r k') (hw : k.input.waiting = [.fin])
    (hfin : .fin ∈ k.arrived) : k'.input.waiting = [.fin] := by
  induction h with
  | arrives ha _ ih =>
    cases ha with
    | item x due hno _ => exact absurd hfin hno
    | spurious => exact ih hw hfin
  | chunk bs job rest hne hbs _ _ =>
    rw [hw] at hbs
    cases bs with
    | nil => exact absurd rfl hne
    | cons b bs => cases hbs
  | wouldBlock k _ => exact hw
  | fin k job rest _ => exact hw
  | err k => exact hw

structure InOrder (s : Incoming) : Prop where
  straight : Straight ((received s.conn).map .byte) s.socket
  ended : Ended s.conn → s.conn.closed = true ∧ s.socket.input.waiting = [.fin]

namespace InOrder

variable {s s' : Incoming} {e : IncomingEv}

/-- Nothing more is read, and nothing comes after the end of the stream. -/
theorem arrives (h : InOrder s) {k : Socket} (ha : s.socket.Arrives k) : InOrder { s with socket := k } := by
  refine ⟨h.straight.arrives ha, fun hend => ?_⟩
  obtain ⟨hc, hw⟩ := h.ended hend
  cases ha with
  | item x due hfin _ =>
    have ho := h.straight.order
    rw [hw] at ho
    exact absurd (ho ▸ List.mem_append_right _ List.mem_cons_self) hfin
  | spurious => exact ⟨hc, hw⟩

/-- A readable event, open or late. -/
theorem readable (h : InOrder s) {k k' : Socket} (word : BitVec 64) (a : EventAnswers) (hr : Ready.isReadable ⟨word⟩ = true)
    (hk : Straight ((received s.conn).map .byte) k) (hend : Ended s.conn → k.input.waiting = [.fin]) (hreads : k.Reads a.reads k') :
    InOrder { s with conn := s.conn.handleEvent word a, socket := k' } := by
  have hlog := readLog_handleEvent s.conn word a
  rw [hr, if_pos rfl] at hlog
  obtain ⟨hst, hfin⟩ := reads_straight hreads hk
  constructor
  · show Straight ((received (s.conn.handleEvent word a)).map .byte) k'
    rw [received, hlog, List.flatMap_append, List.map_append]
    exact hst
  · intro hended
    change IoRes.ok [] ∈ readLog (s.conn.handleEvent word a) at hended
    rw [hlog] at hended
    rcases List.mem_append.mp hended with hended | hended
    · have hwaits := hend hended
      have harrived := hk.order
      rw [hwaits] at harrived
      have hfin : .fin ∈ k.arrived := harrived ▸ List.mem_append_right _ List.mem_cons_self
      exact ⟨handleEvent_keeps_closed word a (h.ended hended).1, reads_at_end hreads hwaits hfin⟩
    · obtain ⟨hl, hw⟩ := hfin hended
      exact ⟨handleEvent_closed word a hr hl, hw⟩

theorem other (h : InOrder s) {k : Socket} (word : BitVec 64) (a : EventAnswers) (hr : Ready.isReadable ⟨word⟩ = false)
    (hk : Straight ((received s.conn).map .byte) k) (hend : Ended s.conn → k.input.waiting = [.fin]) :
    InOrder { s with conn := s.conn.handleEvent word a, socket := k } := by
  have hlog := readLog_handleEvent s.conn word a
  rw [hr, if_neg (by decide), List.append_nil] at hlog
  constructor
  · show Straight ((received (s.conn.handleEvent word a)).map .byte) k
    rw [received, hlog]
    exact hk
  · intro hended
    change IoRes.ok [] ∈ readLog (s.conn.handleEvent word a) at hended
    rw [hlog] at hended
    exact ⟨handleEvent_keeps_closed word a (h.ended hended).1, hend hended⟩

theorem step (h : InOrder s) (hs : IncomingStep s e s') : InOrder s' := by
  have hnotice : Straight ((received s.conn).map .byte) s.socket.notice := ⟨h.straight.order, h.straight.last⟩
  have hended : Ended s.conn → s.socket.input.waiting = [.fin] := fun hend => (h.ended hend).2
  cases hs with
  | arrives k ha => exact h.arrives ha
  | register => exact ⟨⟨h.straight.order, h.straight.last⟩, h.ended⟩
  | readable k word a hreg hopen hdue hr hk => exact h.readable word a hr hnotice hended hk
  | other word a hreg hopen hdue hr hw => exact h.other word a hr hnotice hended
  | lateReadable k word a hreg hclosed hr hk => exact h.readable word a hr h.straight hended hk
  | lateOther word a hreg hclosed hr => exact h.other word a hr h.straight hended
  | send bytes w ans =>
    have hlog := (send_quiet s.conn bytes w ans).1
    constructor
    · show Straight ((received (s.conn.send bytes w ans).1).map .byte) s.socket
      rw [received, hlog]
      exact h.straight
    · intro hend
      change IoRes.ok [] ∈ readLog (s.conn.send bytes w ans).1 at hend
      rw [hlog] at hend
      exact ⟨send_closed bytes w ans (h.ended hend).1, (h.ended hend).2⟩

end InOrder

theorem InOrder.of_run {τ : List IncomingEv} {s : Incoming} (h : Run incoming τ s) : InOrder s := by
  refine Run.inv (P := InOrder) ?_ (fun _ _ _ ih hs => ih.step hs) h
  rintro s rfl
  exact ⟨⟨rfl, fun xs ys he => by simp at he⟩, fun hend => nomatch hend⟩

/-- What was read and what waits is what the peer sent, in order, and a connection that has
    seen the end of the stream has read all of it. Each read was given to the job; with
    jobs that take from the front, what they took, then the read buffer, then what waits
    is what the peer sent. -/
theorem input_in_order {τ : List IncomingEv} {s : Incoming} (h : Run incoming τ s) :
    (received s.conn).map .byte ++ s.socket.input.waiting = s.socket.arrived ∧
      (Ended s.conn → (received s.conn).map .byte ++ [.fin] = s.socket.arrived) ∧
      Fed (reads s.conn) (jobLog s.conn) s.conn.readBuffer ∧
      ((∀ j ∈ jobLog s.conn, j.2 <:+ j.1) →
        ((jobLog s.conn).flatMap taken ++ s.conn.readBuffer).map .byte ++ s.socket.input.waiting = s.socket.arrived) := by
  have hs := InOrder.of_run h
  have hfed : Fed (reads s.conn) (jobLog s.conn) s.conn.readBuffer := feeds_run h
  refine ⟨hs.straight.order, fun hend => ?_, hfed, fun hfront => ?_⟩
  · rw [← hs.straight.order, (hs.ended hend).2]
  · rw [hfed.taken hfront, ← received_eq]
    exact hs.straight.order

/-- A job that leaves the last byte, and one that takes all. The connection is closed at
    the end of the stream, and another event finds the end again. -/
theorem input_in_order_end : ∃ s : Incoming, s.conn.closed = true ∧ s.socket.arrived = [.byte 1, .byte 2, .byte 3, .fin] ∧
    jobLog s.conn = [([1, 2], [2]), ([2, 3], []), ([], []), ([], [])] ∧
    (received s.conn).map .byte ++ s.socket.input.waiting = s.socket.arrived ∧
      (Ended s.conn → (received s.conn).map .byte ++ [.fin] = s.socket.arrived) ∧
      Fed (reads s.conn) (jobLog s.conn) s.conn.readBuffer ∧
      ((∀ j ∈ jobLog s.conn, j.2 <:+ j.1) →
        ((jobLog s.conn).flatMap taken ++ s.conn.readBuffer).map .byte ++ s.socket.input.waiting = s.socket.arrived) := by
  have h0 : Run incoming [] _ := .init rfl
  have h1 := h0.step (.register _ rfl)
  have h2 := h1.step (.arrives _ _ (.item _ (.byte 1) true (by simp) fun _ => rfl))
  have h3 := h2.step (.arrives _ _ (.item _ (.byte 2) true (by simp) fun _ => rfl))
  have h4 := h3.step (.arrives _ _ (.item _ (.byte 3) true (by simp) fun _ => rfl))
  have h5 := h4.step (.arrives _ _ (.item _ .fin true (by simp) fun _ => rfl))
  have h6 := h5.step (.readable _ _ Ready.readable.bits ⟨⟨[([1, 2], List.drop 1), ([3], fun _ => [])], .ok id⟩, .wouldBlock, true⟩
    rfl rfl rfl (by decide) (.chunk [1, 2] _ [.byte 3, .fin] (by decide) rfl
      (.chunk [3] _ [.fin] (by decide) rfl (.fin _ id [] rfl))))
  have h7 := h6.step (.lateReadable _ _ Ready.readable.bits ⟨⟨[], .ok id⟩, .wouldBlock, true⟩ rfl rfl (by decide) (.fin _ id [] rfl))
  exact ⟨_, rfl, rfl, rfl, input_in_order h7⟩

/-! ## No input stranded -/

/-- An open connection watches its socket. -/
def Incoming.watch (s : Incoming) : Watch := if s.registered = true ∧ s.conn.closed = false then .idle else .away

theorem arrives_stir {k k' : Socket} (h : k.Arrives k') : Source.Stir k.input k'.input := by
  cases h with
  | item x due _ hdue => exact .arrive k.input x due hdue
  | spurious => exact .spurious k.input

theorem reads_path {k k' : Socket} {r : ReadScript} (h : k.Reads r k') {w : Watch} (hw : w ≠ .idle) :
    (∃ p, Path (watched Input) (k.input, w) p (k'.input, w)) ∧ (r.last = .wouldBlock → k'.input.waiting = []) := by
  induction h with
  | @arrives k k' k'' r ha _ ih =>
    obtain ⟨⟨p, hp⟩, hl⟩ := ih
    have hstir : Path (watched Input) (k.input, w) _ _ := Path.nil.step (.stir w (arrives_stir ha))
    exact ⟨⟨_, hstir.trans hp⟩, hl⟩
  | @chunk k k' r bs job rest _ _ _ ih =>
    obtain ⟨⟨p, hp⟩, hl⟩ := ih
    have htake : Path (watched Input) (k.input, w) _ _ := Path.nil.step (.take k.input w bs.length hw)
    exact ⟨⟨_, htake.trans hp⟩, hl⟩
  | wouldBlock k hnil => exact ⟨⟨_, .nil⟩, fun _ => hnil⟩
  | fin k job rest _ => exact ⟨⟨_, .nil⟩, fun hl => nomatch hl⟩
  | err k => exact ⟨⟨_, .nil⟩, fun hl => nomatch hl⟩

/-- A round that found nothing may end the watch or keep it. -/
theorem path_end {k : Source Input} {q : Source Input × Watch} {p : List (WatchEv × (Source Input × Watch))} {d : Incoming}
    (hp : Path (watched Input) q p (k, .draining)) (hd : d.socket.input = k)
    (h : d.registered = true → d.conn.closed = false → k.waiting = []) :
    ∃ p, Path (watched Input) q p (d.socket.input, d.watch) := by
  subst hd
  unfold Incoming.watch
  split
  · rename_i hopen
    exact ⟨_, hp.step (.foundNone _ (h hopen.1 hopen.2))⟩
  · exact ⟨_, hp.step (.leave _ _)⟩

theorem socket_watched {s s' : Incoming} {e : IncomingEv} (h : IncomingStep s e s') :
    ∃ p, Path (watched Input) (s.socket.input, s.watch) p (s'.socket.input, s'.watch) := by
  have hidle : s.registered = true → s.conn.closed = false → s.watch = .idle := fun hr hc => if_pos ⟨hr, hc⟩
  have haway : ∀ d : Incoming, d.conn.closed = true → d.watch = .away := fun d hd => if_neg fun h => by
    rw [hd] at h
    cases h.2
  cases h with
  | arrives k ha => exact ⟨_, Path.nil.step (.stir s.watch (arrives_stir ha))⟩
  | register hr =>
    have haway : s.watch = .away := if_neg (by rw [hr]; simp)
    rw [haway]
    have hatt : Path (watched Input) (s.socket.input, .away) _ _ := Path.nil.step (.attach s.socket.input .away (by decide))
    unfold Incoming.watch
    split
    · exact ⟨_, hatt⟩
    · exact ⟨_, hatt.step (.leave _ _)⟩
  | readable k word a hreg hopen hdue hr hk =>
    rw [hidle hreg hopen]
    obtain ⟨⟨p, hp⟩, hl⟩ := reads_path hk (w := .draining) (by decide)
    have hnote : Path (watched Input) (s.socket.input, .idle) _ _ := Path.nil.step (.notice s.socket.input .idle (by decide) hdue)
    refine path_end (hnote.trans hp) rfl fun _ hc => hl ?_
    by_contra hne
    have := handleEvent_closed (c := s.conn) word a hr hne
    rw [this] at hc
    cases hc
  | other word a hreg hopen hdue _ hw =>
    rw [hidle hreg hopen]
    have hnote : Path (watched Input) (s.socket.input, .idle) _ _ := Path.nil.step (.notice s.socket.input .idle (by decide) hdue)
    exact path_end hnote rfl fun _ _ => hw
  | lateReadable k word a hreg hclosed hr hk =>
    rw [haway s hclosed, haway _ (handleEvent_keeps_closed word a hclosed)]
    exact (reads_path hk (w := .away) (by decide)).1
  | lateOther word a hreg hclosed hr =>
    rw [haway s hclosed, haway _ (handleEvent_keeps_closed word a hclosed)]
    exact ⟨_, .nil⟩
  | send bytes w ans =>
    by_cases hd : (s.conn.send bytes w ans).1.closed = s.conn.closed
    · have heq : Incoming.watch { s with conn := (s.conn.send bytes w ans).1 } = s.watch := by
        unfold Incoming.watch
        rw [hd]
      rw [heq]
      exact ⟨_, .nil⟩
    · have hclosed : (s.conn.send bytes w ans).1.closed = true := by
        rw [← Bool.not_eq_false]
        intro hopen
        refine hd ?_
        cases hc : s.conn.closed with
        | false => exact hopen
        | true => exact send_closed bytes w ans hc
      rw [haway { s with conn := (s.conn.send bytes w ans).1 } hclosed]
      exact ⟨_, Path.nil.step (.leave _ _)⟩

/-- An open connection with no event due has read everything that came in, and the stream
    has not ended. -/
theorem no_input_stranded {τ : List IncomingEv} {s : Incoming} (h : Run incoming τ s) (hr : s.registered = true)
    (hc : s.conn.closed = false) (hd : s.socket.input.due = false) : (received s.conn).map .byte = s.socket.arrived := by
  obtain ⟨τ', hw⟩ := h.coarse (T := watched Input) (fun s => (s.socket.input, s.watch)) (by rintro s rfl; exact .inl rfl)
    (fun s e s' hs => socket_watched hs)
  have hnil : s.socket.input.waiting = [] := by
    by_contra hne
    have := attended hw (if_pos ⟨hr, hc⟩) hne
    simp only at this
    rw [hd] at this
    cases this
  have ho := (InOrder.of_run h).straight.order
  rwa [hnil, List.append_nil] at ho

/-- Two bytes, and a third that comes in between the reads. -/
theorem no_input_stranded_three : ∃ s : Incoming, s.socket.arrived = [.byte 1, .byte 2, .byte 3] ∧
    (received s.conn).map .byte = s.socket.arrived := by
  have h0 : Run incoming [] _ := .init rfl
  have h1 := h0.step (.register _ rfl)
  have h2 := h1.step (.arrives _ _ (.item _ (.byte 1) true (by simp) fun _ => rfl))
  have h3 := h2.step (.arrives _ _ (.item _ (.byte 2) true (by simp) fun _ => rfl))
  have h4 := h3.step (.readable _ _ (Ready.readable.bits) ⟨⟨[([1], id), ([2, 3], id)], .wouldBlock⟩, .wouldBlock, true⟩ rfl rfl
    rfl (by decide)
    (.chunk [1] id _ (by decide) rfl (.arrives (.item _ (.byte 3) false (by simp [Socket.take, Socket.notice]) (by decide))
      (.chunk [2, 3] id [] (by decide) rfl (.wouldBlock _ rfl)))))
  exact ⟨_, rfl, no_input_stranded h4 rfl rfl rfl⟩

end Sickle.Net
