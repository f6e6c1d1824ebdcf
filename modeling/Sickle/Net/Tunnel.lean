/-
  Sickle.Net.Tunnel — the tunnel (`examples/tunnel.rs`, with `on_accept_connection` and
  `start_connect` of `net/tcp_server.rs`).

  A connection of a client is accepted, and the tunnel connects to its server; both run
  on the loop that accepted. What the client sends waits in the client's read buffer
  until the connection to the server is there; then `on_connect` enqueues a job that
  sends it on (`flush`), and each later read enqueues a job that sends what it brought.
  What the server sends is sent to the client at once, inside the server's event.

  The loop's thread runs one thing at a time: an event of one of the two connections, the
  connector's job, or the oldest job enqueued. Everything is behind a mutex, and the
  callbacks lock their way from one connection to the other. A connection is there as
  long as the loop or a job that was enqueued holds it; `upgrade` finds it or does not.

  - `tunnel_in_order`: in each direction, what was sent on, what waits in jobs and what
    is in the read buffer are what was read, in order.
  - `tunnel_end_to_end`: the server's socket has taken what was read from the client,
    where nothing is left to run and no write was cut short or refused.
  Where the thread does not come back is in `Sickle.Net.TunnelStops`.
-/

import Sickle.Net.Callbacks
import Sickle.Net.Close

namespace Sickle.Net

open Sickle.Lib Sickle.Lib.Guarded TcpConnection

inductive Mutex where
  /-- Of the job that the loop runs. -/
  | job
  | clientConn
  | serverConn
  /-- The session of the client's connection. -/
  | tunnelServer
  | tunnel
  | serverSession
  | connector
  | connJob
  deriving DecidableEq, Repr

/-- What `enqueue_job` was given, in the order of the source. -/
inductive TunnelJob where
  | flush
  | shutdownClient
  | send (bytes : Bytes)
  | shutdownServer
  deriving DecidableEq, Repr

/-- `attached`: `ServerSession::server_conn` is set. A connection is gone when nobody holds
    it. The sockets answer the writes to come from a list for each event. `upSent`,
    `downSent` and `flushed` are records: what was given to `send` of the server's and of
    the client's connection, and that `on_connect` has enqueued its job. -/
structure Tunnel where
  client : TcpConnection
  server : TcpConnection
  connecting : Bool
  attached : Bool
  clientGone : Bool
  serverGone : Bool
  jobs : List TunnelJob
  clientWrites : Nat → IoRes Nat
  serverWrites : Nat → IoRes Nat
  upSent : Bytes
  downSent : Bytes
  flushed : Bool

abbrev TunnelM := Guarded Mutex Tunnel

namespace Tunnel

def enqueueJob (j : TunnelJob) : TunnelM Unit := modify fun s => { s with jobs := s.jobs ++ [j] }

def clientWrite : TunnelM (IoRes Nat) := do
  let s ← get
  modify fun s => { s with clientWrites := fun k => s.clientWrites (k + 1) }
  pure (s.clientWrites 0)

def serverWrite : TunnelM (IoRes Nat) := do
  let s ← get
  modify fun s => { s with serverWrites := fun k => s.serverWrites (k + 1) }
  pure (s.serverWrites 0)

/-! ## The client's session -/

/-- `Tunnel::get_server_conn`, and `get_server_session` in it. -/
def getServerConn : TunnelM Bool := withLock .serverSession do
  let s ← get
  pure (s.attached && !s.serverGone)

namespace TunnelServer

def getServerConn : TunnelM Bool := withLock .tunnel Tunnel.getServerConn

def onRecv (bytes : Bytes) : TunnelM Bytes :=
  if bytes.length ≤ 0 then pure bytes
  else do
    let ss ← TunnelServer.getServerConn
    if ss then do
      enqueueJob (.send bytes)
      pure []
    else pure bytes

def onWritten : TunnelM Bool := pure true

def onError : TunnelM Unit := do
  let ss ← TunnelServer.getServerConn
  if ss then enqueueJob .shutdownServer else pure ()

/-- What `on_accept_connection` gives to the connection. -/
def jobs : Jobs TunnelM :=
  ⟨fun bytes => withLock .tunnelServer (onRecv bytes), withLock .tunnelServer onWritten, withLock .tunnelServer onError⟩

end TunnelServer

/-- `send` of the client's connection, which is locked. -/
def clientSend (bytes : Bytes) : TunnelM Unit := do
  let s ← get
  let c ← sendWith TunnelServer.jobs clientWrite s.client bytes
  modify fun s => { s with client := c, downSent := s.downSent ++ bytes }

/-! ## The server's session -/

namespace ServerSession

def getClientConn : TunnelM Bool := do
  let s ← get
  pure !s.clientGone

/-- `err`: what `take_error` finds. -/
def onConnect (err : Bool) : TunnelM Unit := do
  withLock .serverConn (pure ())
  if err then pure ()
  else do
    let cs ← getClientConn
    if cs then modify fun s => { s with jobs := s.jobs ++ [.flush], flushed := true } else pure ()

def onRecv (bytes : Bytes) : TunnelM Bytes := do
  let cs ← getClientConn
  if cs then
    if 0 < bytes.length then do
      withLock .clientConn (clientSend bytes)
      pure []
    else pure bytes
  else pure bytes

def onWritten : TunnelM Bool := pure true

def onError : TunnelM Unit := do
  let cs ← getClientConn
  if cs then enqueueJob .shutdownClient else pure ()

/-- What `start_connect` gives to the connection. -/
def jobs : Jobs TunnelM :=
  ⟨fun bytes => withLock .serverSession (onRecv bytes), withLock .serverSession onWritten, withLock .serverSession onError⟩

end ServerSession

def serverSend (bytes : Bytes) : TunnelM Unit := do
  let s ← get
  let c ← sendWith ServerSession.jobs serverWrite s.server bytes
  modify fun s => { s with server := c, upSent := s.upSent ++ bytes }

/-! ## What the loop runs -/

def clientEvent (word : BitVec 64) (r : Answered) : TunnelM Unit := withLock .job (withLock .clientConn do
  let s ← get
  let c ← handleEventWith TunnelServer.jobs clientWrite s.client word r
  modify fun s => { s with client := c })

def serverEvent (word : BitVec 64) (r : Answered) : TunnelM Unit := withLock .job (withLock .serverConn do
  let s ← get
  let c ← handleEventWith ServerSession.jobs serverWrite s.server word r
  modify fun s => { s with server := c })

/-- The job of `start_connect`; `err` and `err'` are what the two `take_error` find. The
    first is made with the connection locked up to the end of its `match`. -/
def connJob (err err' : Bool) : TunnelM Unit := withLock .job (withLock .connector (withLock .connJob (
  if err then withLock .serverConn (withLock .serverSession ServerSession.onError)
  else do
    withLock .serverSession (modify fun s => { s with attached := true })
    withLock .serverConn (modify fun s => { s with server := s.server.setEnabled true })
    withLock .serverSession (ServerSession.onConnect err'))))

/-- `ok`: what the socket answers to a shutdown. -/
def runJob (j : TunnelJob) (ok : Bool) : TunnelM Unit := withLock .job (
  match j with
  | .flush => withLock .serverConn (withLock .clientConn do
    let s ← get
    if 0 < s.client.readBuffer.length then do
      serverSend s.client.readBuffer
      modify fun s => { s with client := { s.client with readBuffer := [] } }
    else pure ())
  | .shutdownClient => withLock .clientConn do
    modify fun s => { s with client := s.client.shutdown .write }
    if ok then pure () else stop .panic
  | .send bytes => withLock .serverConn (serverSend bytes)
  | .shutdownServer => withLock .serverConn (modify fun s => { s with server := s.server.shutdown .write }))

end Tunnel

open Tunnel

/-- Jobs hold the connections they are about. -/
def TunnelJob.holdsServer (j : TunnelJob) : Bool :=
  match j with
  | .flush | .send _ | .shutdownServer => true
  | .shutdownClient => false

def TunnelJob.holdsClient (j : TunnelJob) : Bool :=
  match j with
  | .flush | .shutdownClient => true
  | .send _ | .shutdownServer => false

inductive TunnelEv where
  | client (word : BitVec 64) (r : Answered)
  | server (word : BitVec 64) (r : Answered)
  | connected (err err' : Bool)
  | job (ok : Bool)
  | clientGone
  | serverGone

/-- When the loop runs what, with no mutex held. A read that does not end the loop brings
    bytes. -/
inductive LoopRuns : Tunnel → TunnelEv → TunnelM Unit → Prop
  | client (s : Tunnel) (word : BitVec 64) (r : Answered) : s.clientGone = false → [] ∉ r.chunks →
      LoopRuns s (.client word r) (clientEvent word r)
  | server (s : Tunnel) (word : BitVec 64) (r : Answered) : s.attached = true → s.serverGone = false → [] ∉ r.chunks →
      LoopRuns s (.server word r) (serverEvent word r)
  | connected (s : Tunnel) (err err' : Bool) : s.connecting = true →
      LoopRuns s (.connected err err') (do
        modify fun s => { s with connecting := false }
        connJob err err')
  | job (s : Tunnel) (j : TunnelJob) (rest : List TunnelJob) (ok : Bool) : s.jobs = j :: rest →
      LoopRuns s (.job ok) (do
        modify fun s => { s with jobs := rest }
        runJob j ok)

inductive TunnelStep : Tunnel → TunnelEv → Tunnel → Prop
  | call (s s' : Tunnel) (e : TunnelEv) (p : TunnelM Unit) (cw sw : Nat → IoRes Nat) : LoopRuns s e p →
      p [] { s with clientWrites := cw, serverWrites := sw } = .ok ((), s') → TunnelStep s e s'
  /-- The loop dropped the job of a closed connection, and no other holds it. -/
  | clientGone (s : Tunnel) : s.client.closed = true → (∀ j ∈ s.jobs, j.holdsClient = false) →
      TunnelStep s .clientGone { s with clientGone := true }
  | serverGone (s : Tunnel) : s.server.closed = true → (∀ j ∈ s.jobs, j.holdsServer = false) →
      TunnelStep s .serverGone { s with serverGone := true }

/-- `on_accept_connection` has run: the tunnel is connecting. -/
def Tunnel.new : Tunnel :=
  ⟨.new, .new, true, false, false, false, [], fun _ => .wouldBlock, fun _ => .wouldBlock, [], [], false⟩

def tunnel : Lts Tunnel TunnelEv := ⟨(· = .new), TunnelStep⟩

/-! ## Writes that are not cut short -/

/-- Each write of the connection took all it was offered. -/
def Full (c : TcpConnection) : Prop := ∀ offered taken, .write offered taken ∈ c.log → taken = offered.length

theorem Full.of_prefix {c d : TcpConnection} (h : Full d) (hp : c.log <+: d.log) : Full c :=
  fun offered taken hm => h offered taken (hp.subset hm)

theorem handleClose_enabled (c : TcpConnection) : (handleClose c).writeEnabled = true → c.writeEnabled = true := by
  unfold handleClose
  split
  · exact id
  · exact fun h => by cases h

theorem writeChunk_enabled (c : TcpConnection) (buf : Bytes) (w : IoRes Nat) (ans : Bool) :
    (writeChunk c buf w ans).writeEnabled = true → c.writeEnabled = true := by
  unfold writeChunk
  rcases tryWriteBuf w buf with ⟨_ | _ | cnt, rest⟩
  · exact handleClose_enabled { c.emit (.write buf 0) with writeTriggered := false }
  · exact id
  · dsimp only
    split
    · exact id
    · split
      · exact handleClose_enabled (emit { c.emit (.write buf cnt) with writeTriggered := false } .writJob)
      · exact id

/-- The write of a chunk, and what follows it. -/
theorem writeChunk_log (c : TcpConnection) (buf : Bytes) (w : IoRes Nat) (ans : Bool) :
    ∃ taken l, (writeChunk c buf w ans).log = c.log ++ .write buf taken :: l ∧ l.flatMap Eff.accepted = [] := by
  have close : ∀ d : TcpConnection, ∃ l, (handleClose d).log = d.log ++ l ∧ l.flatMap Eff.accepted = [] := by
    intro d
    unfold handleClose
    split
    · exact ⟨[], (List.append_nil _).symm, rfl⟩
    · exact ⟨[.closeJob, .deregister], by simp [closeStream, emit, setEnabled], rfl⟩
  unfold writeChunk
  rcases tryWriteBuf w buf with ⟨_ | _ | cnt, rest⟩
  · obtain ⟨l, hl, ha⟩ := close { c.emit (.write buf 0) with writeTriggered := false }
    exact ⟨0, l, by simpa [emit] using hl, ha⟩
  · exact ⟨0, [], rfl, rfl⟩
  · dsimp only
    split
    · exact ⟨cnt, [], rfl, rfl⟩
    · split
      · obtain ⟨l, hl, ha⟩ := close (emit { c.emit (.write buf cnt) with writeTriggered := false } .writJob)
        exact ⟨cnt, .writJob :: l, by simpa [emit] using hl, by simpa [Eff.accepted] using ha⟩
      · exact ⟨cnt, [.writJob], by simp [emit], rfl⟩

theorem writeChunk_full {c : TcpConnection} (buf : Bytes) (w : IoRes Nat) (ans : Bool) (h : Full (writeChunk c buf w ans)) :
    (writeChunk c buf w ans).wire = c.wire ++ buf := by
  obtain ⟨taken, l, hl, ha⟩ := writeChunk_log c buf w ans
  obtain rfl : taken = buf.length := h buf taken (by rw [hl]; simp)
  simp only [wire, hl, List.flatMap_append, List.flatMap_cons, ha, List.append_nil, Eff.accepted, List.take_length]

/-- A connection between two calls that was given `sent` to send. -/
structure Given (c : TcpConnection) (sent : Bytes) : Prop where
  rest : Rest (fun _ => True) c
  wire : Full c → c.writeEnabled = true → c.wire = sent

namespace Given

variable {c : TcpConnection} {sent : Bytes}

theorem new : Given .new [] := ⟨new_rest _, fun _ _ => rfl⟩

/-- The triggers and the read buffer do not matter. -/
theorem marked (h : Given c sent) (a b : Bool) (buf : Bytes) :
    Given { c with readBuffer := buf, readTriggered := a, writeTriggered := b } sent :=
  ⟨⟨h.rest.tidy, h.rest.empty⟩, h.wire⟩

theorem emit (h : Given c sent) {e : Eff} (hc : e.closes = false) (ha : e.accepted = []) : Given (c.emit e) sent := by
  refine ⟨⟨h.rest.tidy.emit hc fun _ => trivial, h.rest.empty⟩, fun hf he => ?_⟩
  have hw : (c.emit e).wire = c.wire := by simp [TcpConnection.wire, TcpConnection.emit, ha]
  rw [hw]
  exact h.wire (hf.of_prefix (List.prefix_append _ _)) he

theorem close (h : Given c sent) : Given (handleClose c) sent := by
  refine ⟨handleClose_rest h.rest trivial, ?_⟩
  unfold handleClose
  split
  · exact h.wire
  · exact fun _ he => by cases he

theorem read (h : Given c sent) (bs shown left : Bytes) :
    Given ((TcpConnection.emit { c with readBuffer := left } (.read (.ok bs))).emit (.readJob shown left)) sent :=
  ((h.marked _ _ left).emit (e := .read (.ok bs)) rfl rfl).emit (e := .readJob shown left) rfl rfl

theorem handleRead (h : Given c sent) (r : ReadScript) : Given (handleRead c r) sent := by
  have hchunks : Given (r.chunks.foldl TcpConnection.readChunk c) sent := by
    induction r.chunks generalizing c with
    | nil => exact h
    | cons d ds ih => exact ih (h.read d.1 _ _)
  unfold TcpConnection.handleRead
  cases r.last with
  | ok job =>
    have hjob := hchunks.read [] (r.chunks.foldl TcpConnection.readChunk c).readBuffer
      (job (r.chunks.foldl TcpConnection.readChunk c).readBuffer)
    exact (hjob.marked _ _ _).close
  | wouldBlock => exact (hchunks.emit (e := .read .wouldBlock) rfl rfl).marked ..
  | err => exact ((hchunks.emit (e := .read .err) rfl rfl).marked _ _ _).close

theorem event (h : Given c sent) (word : BitVec 64) (a : EventAnswers) : Given (c.handleEvent word a) sent := by
  have ready : ∀ (bit : Bool) (f : TcpConnection → TcpConnection) {d : TcpConnection}, (Given d sent → Given (f d) sent) →
      Given d sent → Given (if bit then f d else d) sent := by
    intro bit f d hf hd
    cases bit with
    | true => exact hf hd
    | false => exact hd
  refine ready _ (fun c => handleClose { c with readTriggered := true, writeTriggered := true })
    (fun h => (h.marked _ _ _).close) ?_
  refine ready _ (fun c => handleWrite { c with writeTriggered := true } a.write a.writJob) (fun h => ?_) ?_
  · have hd : ∀ {d : TcpConnection}, Given d sent → Given (handleWrite d a.write a.writJob) sent := fun hd => by
      rw [handleWrite_of_empty a.write a.writJob hd.rest.empty]
      exact hd
    exact hd (h.marked _ _ _)
  · exact ready _ (fun c => TcpConnection.handleRead { c with readTriggered := true } a.reads)
      (fun h => (h.marked _ _ _).handleRead _) h

theorem send (h : Given c sent) (bytes : Bytes) (w : IoRes Nat) (ans : Bool) : Given (c.send bytes w ans).1 (sent ++ bytes) := by
  refine ⟨⟨send_tidy bytes w ans h.rest.tidy trivial, send_empty bytes w ans h.rest.empty⟩, ?_⟩
  unfold TcpConnection.send
  split
  · next he => exact fun _ he' => absurd (he'.symm.trans he) (by decide)
  · split
    · next hb =>
      rw [List.eq_nil_of_length_eq_zero hb, List.append_nil]
      exact h.wire
    · next hb =>
      have hwrite : writeData { c with writeBufferWaiting := c.writeBufferWaiting ++ bytes } w ans = writeChunk c bytes w ans := by
        have hpos : 0 < bytes.length := Nat.pos_of_ne_zero hb
        obtain ⟨hs, hw⟩ := h.rest.empty
        obtain ⟨rb, sending, waiting, re, we, rt, wt, cl, log⟩ := c
        cases hs
        cases hw
        simp [writeData, hpos]
      dsimp only
      rw [hwrite]
      intro hf he
      obtain ⟨taken, l, hl, -⟩ := writeChunk_log c bytes w ans
      rw [writeChunk_full bytes w ans hf, h.wire (hf.of_prefix ⟨_, hl.symm⟩) (writeChunk_enabled c bytes w ans he)]

theorem shutdown (h : Given c sent) : Given (c.shutdown .write) sent :=
  ⟨⟨shutdown_tidy .write h.rest.tidy, h.rest.empty⟩, fun _ he => by cases he⟩

end Given

/-! ## What each callback does -/

section Spec

variable {held : List Mutex} {s : Tunnel} {stopped : Stop → Prop}

/-- The server's connection is found. -/
def Tunnel.reachable (s : Tunnel) : Bool := s.attached && !s.serverGone

@[simp] theorem wp_enqueueJob (j : TunnelJob) {post : Unit → Tunnel → Prop} :
    Wp (enqueueJob j) held s post stopped ↔ post () { s with jobs := s.jobs ++ [j] } := Iff.rfl

@[simp] theorem wp_clientWrite {post : IoRes Nat → Tunnel → Prop} : Wp clientWrite held s post stopped ↔
    post (s.clientWrites 0) { s with clientWrites := fun k => s.clientWrites (k + 1) } := by
  simp [clientWrite]

@[simp] theorem wp_serverWrite {post : IoRes Nat → Tunnel → Prop} : Wp serverWrite held s post stopped ↔
    post (s.serverWrites 0) { s with serverWrites := fun k => s.serverWrites (k + 1) } := by
  simp [serverWrite]

theorem wp_getServerConn {post : Bool → Tunnel → Prop} : Wp TunnelServer.getServerConn held s post stopped ↔
    if .tunnel ∈ held ∨ .serverSession ∈ held then stopped .deadlock else post s.reachable s := by
  by_cases ht : Mutex.tunnel ∈ held <;> by_cases hs : Mutex.serverSession ∈ held <;>
    simp [TunnelServer.getServerConn, Tunnel.getServerConn, Tunnel.reachable, ht, hs]

theorem wp_clientOnError {post : Unit → Tunnel → Prop} : Wp TunnelServer.onError held s post stopped ↔
    if .tunnel ∈ held ∨ .serverSession ∈ held then stopped .deadlock
    else if s.reachable then post () { s with jobs := s.jobs ++ [.shutdownServer] } else post () s := by
  simp [TunnelServer.onError, wp_getServerConn]

theorem wp_clientOnRecv (bytes : Bytes) {post : Bytes → Tunnel → Prop} : Wp (TunnelServer.onRecv bytes) held s post stopped ↔
    if bytes = [] then post bytes s
    else if .tunnel ∈ held ∨ .serverSession ∈ held then stopped .deadlock
    else if s.reachable then post [] { s with jobs := s.jobs ++ [.send bytes] } else post bytes s := by
  simp [TunnelServer.onRecv, wp_getServerConn]

theorem wp_serverOnError {post : Unit → Tunnel → Prop} : Wp ServerSession.onError held s post stopped ↔
    if s.clientGone then post () s else post () { s with jobs := s.jobs ++ [.shutdownClient] } := by
  cases hg : s.clientGone <;> simp [ServerSession.onError, ServerSession.getClientConn, hg]

theorem wp_serverOnRecv (bytes : Bytes) {post : Bytes → Tunnel → Prop} : Wp (ServerSession.onRecv bytes) held s post stopped ↔
    if s.clientGone = true ∨ bytes = [] then post bytes s
    else if .clientConn ∈ held then stopped .deadlock
    else Wp (clientSend bytes) (.clientConn :: held) s (fun _ s' => post [] s') stopped := by
  cases hg : s.clientGone <;> cases bytes <;> simp [ServerSession.onRecv, ServerSession.getClientConn, hg]

end Spec

/-! ## From the client to the server -/

def TunnelJob.bytes (j : TunnelJob) : Bytes :=
  match j with
  | .send bytes => bytes
  | _ => []

/-- What waits in the jobs. -/
def waiting (jobs : List TunnelJob) : Bytes := jobs.flatMap TunnelJob.bytes

theorem waiting_snoc (jobs : List TunnelJob) (j : TunnelJob) : waiting (jobs ++ [j]) = waiting jobs ++ j.bytes := by
  simp [waiting]

theorem waiting_cons (j : TunnelJob) (jobs : List TunnelJob) : waiting (j :: jobs) = j.bytes ++ waiting jobs := rfl

theorem holdsServer_of_waiting {jobs : List TunnelJob} (h : waiting jobs ≠ []) : ∃ j ∈ jobs, j.holdsServer = true := by
  obtain ⟨b, hb⟩ := List.exists_mem_of_ne_nil _ h
  obtain ⟨j, hj, hb⟩ := List.mem_flatMap.mp hb
  cases j with
  | send bytes => exact ⟨_, hj, rfl⟩
  | flush => cases hb
  | shutdownClient => cases hb
  | shutdownServer => cases hb

/-- The client's connection has received `r` and has `b` in its read buffer; `mid` is on its
    way in the job that runs. -/
structure UpInv (s : Tunnel) (mid r b : Bytes) : Prop where
  order : r = s.upSent ++ mid ++ waiting s.jobs ++ b
  /-- What waits in jobs is older than what is in the buffer, which `flush` sends. -/
  first : mid ++ waiting s.jobs ≠ [] → b = []
  flush : s.flushed = true → s.serverGone = false → .flush ∈ s.jobs ∨ b = []
  sending : mid ≠ [] → s.reachable = true
  held : ∀ j ∈ s.jobs, j.holdsServer = true → s.reachable = true
  attached : s.flushed = true → s.attached = true

namespace UpInv

variable {s : Tunnel} {mid r b : Bytes}

theorem moved {t : Tunnel} (h : UpInv s mid r b) (hj : t.jobs = s.jobs) (hu : t.upSent = s.upSent) (hf : t.flushed = s.flushed)
    (ha : t.attached = s.attached) (hg : t.serverGone = s.serverGone) : UpInv t mid r b where
  order := by rw [h.order, hj, hu]
  first := by rw [hj]; exact h.first
  flush := by rw [hf, hg, hj]; exact h.flush
  sending := by unfold Tunnel.reachable; rw [ha, hg]; exact h.sending
  held := by unfold Tunnel.reachable; rw [hj, ha, hg]; exact h.held
  attached := by rw [hf, ha]; exact h.attached

theorem enqueue (h : UpInv s mid r b) {j : TunnelJob} (hj : j.holdsServer = true → s.reachable = true) (hb : j.bytes = []) :
    UpInv { s with jobs := s.jobs ++ [j] } mid r b where
  order := by
    rw [h.order]
    simp only [waiting_snoc, hb, List.append_nil]
  first hne := h.first (by simpa only [waiting_snoc, hb, List.append_nil] using hne)
  flush hf hg := (h.flush hf hg).imp_left fun hm => List.mem_append_left _ hm
  sending := h.sending
  held k hk hs := by
    rcases List.mem_append.mp hk with hk | hk
    · exact h.held k hk hs
    · obtain rfl := List.mem_singleton.mp hk
      exact hj hs
  attached := h.attached

/-- A read is enqueued: all that was in the buffer, and what it brought. -/
theorem recv (h : UpInv s mid r b) (d : Bytes) (hr : s.reachable = true) :
    UpInv { s with jobs := s.jobs ++ [.send (b ++ d)] } mid (r ++ d) [] where
  order := by
    rw [h.order]
    simp only [waiting_snoc, TunnelJob.bytes, List.append_assoc, List.append_nil]
  first _ := rfl
  flush _ _ := .inr rfl
  sending := h.sending
  held k hk hs := by
    rcases List.mem_append.mp hk with hk | hk
    · exact h.held k hk hs
    · exact hr
  attached := h.attached

/-- A read stays in the buffer. -/
theorem keep (h : UpInv s mid r b) (d : Bytes) (hr : s.reachable = false) : UpInv s mid (r ++ d) (b ++ d) where
  order := by
    rw [h.order]
    simp only [List.append_assoc]
  first hne := by
    by_cases hm : mid = []
    · rw [hm, List.nil_append] at hne
      obtain ⟨j, hj, hs⟩ := holdsServer_of_waiting hne
      exact absurd ((h.held j hj hs).symm.trans hr) (by decide)
    · exact absurd ((h.sending hm).symm.trans hr) (by decide)
  flush hf hg := by
    simp [Tunnel.reachable, h.attached hf, hg] at hr
  sending := h.sending
  held := h.held
  attached := h.attached

/-- Whatever is held, a callback of the client's connection keeps it, or does not come back. -/
theorem client_keeps (s : Tunnel) (mid : Bytes) (held : List Mutex) :
    Keeps TunnelServer.jobs clientWrite held
      (fun r b s' => UpInv s' mid r b ∧ ∃ js cw, s' = { s with jobs := js, clientWrites := cw }) fun _ => True where
  read := by
    rintro r b d s' ⟨hu, js, cw, rfl⟩
    simp only [TunnelServer.jobs, wp_lock, wp_clientOnRecv]
    split
    · trivial
    split
    · next hbd =>
      obtain ⟨rfl, rfl⟩ := List.append_eq_nil_iff.mp hbd
      rw [List.append_nil, List.append_nil]
      exact ⟨hu, js, cw, rfl⟩
    split
    · trivial
    split
    · next hr => exact ⟨hu.recv d hr, _, _, rfl⟩
    · next hr => exact ⟨hu.keep d (by simpa using hr), js, cw, rfl⟩
  writ := by
    rintro r b s' ⟨hu, js, cw, rfl⟩
    simp only [TunnelServer.jobs, TunnelServer.onWritten, wp_lock, wp_pure]
    split
    · trivial
    · exact ⟨hu, js, cw, rfl⟩
  close := by
    rintro r b s' ⟨hu, js, cw, rfl⟩
    simp only [TunnelServer.jobs, wp_lock, wp_clientOnError]
    split
    · trivial
    split
    · trivial
    split
    · next hr => exact ⟨hu.enqueue (fun _ => hr) rfl, _, _, rfl⟩
    · exact ⟨hu, js, cw, rfl⟩
  write := by
    rintro r b s' ⟨hu, js, cw, rfl⟩
    rw [wp_clientWrite]
    exact ⟨hu.moved rfl rfl rfl rfl rfl, js, _, rfl⟩

end UpInv

/-! ## From the server to the client -/

/-- The same for the server's connection, whose bytes nothing holds up. -/
structure DownInv (s : Tunnel) (r b : Bytes) : Prop where
  order : r = s.downSent ++ b
  first : s.clientGone = false → b = []

namespace UpInv

variable {s : Tunnel} {mid r b : Bytes}

/-- A job that has been taken up holds no connection and sends nothing, or shuts one down. -/
theorem pop (h : UpInv s [] r b) {j : TunnelJob} {rest : List TunnelJob} (hj : s.jobs = j :: rest) (hb : j.bytes = [])
    (hf : j ≠ .flush) : UpInv { s with jobs := rest } [] r b where
  order := by
    rw [h.order, hj, waiting_cons, hb, List.nil_append]
  first hne := h.first (by rw [hj, waiting_cons, hb, List.nil_append]; exact hne)
  flush hfl hg := (h.flush hfl hg).imp_left fun hm => by
    rw [hj] at hm
    exact (List.mem_cons.mp hm).resolve_left (Ne.symm hf)
  sending := h.sending
  held k hk := h.held k (by rw [hj]; exact List.mem_cons_of_mem _ hk)
  attached := h.attached

theorem popSend (h : UpInv s [] r b) {bytes : Bytes} {rest : List TunnelJob} (hj : s.jobs = .send bytes :: rest) :
    UpInv { s with jobs := rest } bytes r b where
  order := by
    rw [h.order, hj, waiting_cons]
    simp only [TunnelJob.bytes, List.append_assoc, List.nil_append]
  first hne := h.first (by rw [hj, waiting_cons]; exact hne)
  flush hfl hg := (h.flush hfl hg).imp_left fun hm => by
    rw [hj] at hm
    exact (List.mem_cons.mp hm).resolve_left fun hx => by cases hx
  sending _ := h.held (.send bytes) (by rw [hj]; exact List.mem_cons_self ..) rfl
  held k hk := h.held k (by rw [hj]; exact List.mem_cons_of_mem _ hk)
  attached := h.attached

/-- `flush` takes the buffer: with bytes in it, no later read is waiting. -/
theorem popFlush (h : UpInv s [] r b) {rest : List TunnelJob} (hj : s.jobs = .flush :: rest) :
    UpInv { s with jobs := rest } b r [] where
  order := by
    have hwait : waiting s.jobs = waiting rest := by rw [hj]; rfl
    rw [h.order, hwait]
    by_cases hr : waiting rest = []
    · simp only [hr, List.append_nil]
    · rw [h.first (by rw [hwait]; exact hr)]
  first _ := rfl
  flush _ _ := .inr rfl
  sending _ := h.held .flush (by rw [hj]; exact List.mem_cons_self ..) rfl
  held k hk := h.held k (by rw [hj]; exact List.mem_cons_of_mem _ hk)
  attached := h.attached

theorem sent (h : UpInv s mid r b) {v : TcpConnection} : UpInv { s with server := v, upSent := s.upSent ++ mid } [] r b where
  order := by
    rw [h.order]
    simp only [List.append_assoc, List.nil_append]
  first hne := h.first fun he => hne (List.append_eq_nil_iff.mp he).2
  flush := h.flush
  sending hne := absurd rfl hne
  held := h.held
  attached := h.attached

end UpInv

/-- What holds between two things the loop runs. -/
structure Relay (s : Tunnel) : Prop where
  up : UpInv s [] (received s.client) s.client.readBuffer
  down : DownInv s (received s.server) s.server.readBuffer
  client : Given s.client s.downSent
  server : Given s.server s.upSent
  fresh : s.connecting = true → s.server = .new ∧ s.attached = false ∧ s.serverGone = false

section Relays

variable {s : Tunnel} {held : List Mutex}

/-- `send` of the client's connection, inside the server's event. -/
theorem clientSend_up (hu : UpInv s [] (received s.client) s.client.readBuffer) (hg : Given s.client s.downSent) (bytes : Bytes) :
    Wp (clientSend bytes) held s (fun _ s' => UpInv s' [] (received s'.client) s'.client.readBuffer ∧ Given s'.client s'.downSent ∧
      ∃ c js cw, s' = { s with client := c, jobs := js, clientWrites := cw, downSent := s.downSent ++ bytes }) fun _ => True := by
  unfold clientSend
  rw [wp_bind, wp_get, wp_bind]
  refine (((UpInv.client_keeps s [] held).toKeepsWrites.sendWith s.client bytes ⟨hu, s.jobs, s.clientWrites, rfl⟩).and
    (sendWith_runs s.client bytes)).mono ?_ fun _ _ => trivial
  rintro _ s' ⟨⟨hu', js, cw, rfl⟩, w, ans, rfl⟩
  rw [wp_modify]
  exact ⟨hu'.moved rfl rfl rfl rfl rfl, hg.send bytes w ans, _, js, cw, rfl⟩

/-- During the server's event. -/
structure FromServer (s₀ : Tunnel) (r b : Bytes) (s : Tunnel) : Prop where
  up : UpInv s [] (received s.client) s.client.readBuffer
  down : DownInv s r b
  client : Given s.client s.downSent
  same : ∃ c js d cw sw, s = { s₀ with client := c, jobs := js, downSent := d, clientWrites := cw, serverWrites := sw }

theorem server_keeps (s₀ : Tunnel) (held : List Mutex) :
    Keeps ServerSession.jobs serverWrite held (FromServer s₀) fun _ => True where
  read := by
    rintro r b d s ⟨hu, hd, hg, c, js, ds, cw, sw, rfl⟩
    simp only [ServerSession.jobs, wp_lock, wp_serverOnRecv]
    split
    · trivial
    split
    · next hor =>
      refine ⟨hu, ⟨by rw [hd.order, List.append_assoc], fun halive => ?_⟩, hg, c, js, ds, cw, sw, rfl⟩
      exact hor.resolve_left fun hgone => Bool.noConfusion (hgone.symm.trans halive)
    split
    · trivial
    · next hor _ =>
      refine (clientSend_up hu hg (b ++ d)).mono ?_ fun _ _ => trivial
      rintro _ s' ⟨hu', hg', c', js', cw', rfl⟩
      refine ⟨hu', ⟨?_, fun _ => rfl⟩, hg', c', js', _, cw', sw, rfl⟩
      rw [hd.order, List.append_nil, List.append_assoc]
  writ := by
    rintro r b s h
    simp only [ServerSession.jobs, ServerSession.onWritten, wp_lock, wp_pure]
    split
    · trivial
    · exact h
  close := by
    rintro r b s ⟨hu, hd, hg, c, js, ds, cw, sw, rfl⟩
    simp only [ServerSession.jobs, wp_lock, wp_serverOnError]
    split
    · trivial
    split
    · exact ⟨hu, hd, hg, c, js, ds, cw, sw, rfl⟩
    · exact ⟨hu.enqueue (fun hx => by cases hx) rfl, ⟨hd.order, hd.first⟩, hg, c, _, ds, cw, sw, rfl⟩
  write := by
    rintro r b s ⟨hu, hd, hg, c, js, ds, cw, sw, rfl⟩
    rw [wp_serverWrite]
    exact ⟨hu.moved rfl rfl rfl rfl rfl, ⟨hd.order, hd.first⟩, hg, c, js, ds, cw, _, rfl⟩

/-- During a `send` of the server's connection. -/
structure ToServer (s₀ : Tunnel) (mid r₀ b₀ r b : Bytes) (s : Tunnel) : Prop where
  up : UpInv s mid r₀ b₀
  down : DownInv s r b
  same : ∃ js sw, s = { s₀ with jobs := js, serverWrites := sw }

theorem send_keeps (s₀ : Tunnel) (mid r₀ b₀ : Bytes) (held : List Mutex) :
    KeepsWrites ServerSession.jobs serverWrite held (ToServer s₀ mid r₀ b₀) fun _ => True where
  writ := by
    rintro r b s h
    simp only [ServerSession.jobs, ServerSession.onWritten, wp_lock, wp_pure]
    split
    · trivial
    · exact h
  close := by
    rintro r b s ⟨hu, hd, js, sw, rfl⟩
    simp only [ServerSession.jobs, wp_lock, wp_serverOnError]
    split
    · trivial
    split
    · exact ⟨hu, hd, js, sw, rfl⟩
    · exact ⟨hu.enqueue (fun hx => by cases hx) rfl, ⟨hd.order, hd.first⟩, _, sw, rfl⟩
  write := by
    rintro r b s ⟨hu, hd, js, sw, rfl⟩
    rw [wp_serverWrite]
    exact ⟨hu.moved rfl rfl rfl rfl rfl, ⟨hd.order, hd.first⟩, js, _, rfl⟩

/-- `send` of the server's connection, by a job. -/
theorem serverSend_up {r₀ b₀ bytes : Bytes} (hu : UpInv s bytes r₀ b₀) (hd : DownInv s (received s.server) s.server.readBuffer)
    (hg : Given s.server s.upSent) : Wp (serverSend bytes) held s (fun _ s' => UpInv s' [] r₀ b₀ ∧
      DownInv s' (received s'.server) s'.server.readBuffer ∧ Given s'.server s'.upSent ∧
      ∃ v js sw, s' = { s with server := v, jobs := js, serverWrites := sw, upSent := s.upSent ++ bytes }) fun _ => True := by
  unfold serverSend
  rw [wp_bind, wp_get, wp_bind]
  refine (((send_keeps s bytes r₀ b₀ held).sendWith s.server bytes ⟨hu, hd, s.jobs, s.serverWrites, rfl⟩).and
    (sendWith_runs s.server bytes)).mono ?_ fun _ _ => trivial
  rintro _ s' ⟨⟨hu', hd', js, sw, rfl⟩, w, ans, rfl⟩
  rw [wp_modify]
  exact ⟨hu'.sent, ⟨hd'.order, hd'.first⟩, hg.send bytes w ans, _, js, sw, rfl⟩

theorem Relay.attached (h : Relay s) (hr : s.attached = true) : s.connecting = false := by
  by_contra hc
  obtain ⟨-, ha, -⟩ := h.fresh (by simpa using hc)
  exact Bool.noConfusion (hr.symm.trans ha)

theorem clientEvent_relay (h : Relay s) (word : BitVec 64) (r : Answered) :
    Wp (clientEvent word r) [] s (fun _ s' => Relay s') fun _ => True := by
  simp only [clientEvent, wp_lock, wp_bind, wp_get]
  rw [if_neg (by decide), if_neg (by decide)]
  refine (((UpInv.client_keeps s [] _).handleEventWith s.client word r ⟨h.up, s.jobs, s.clientWrites, rfl⟩).and
    (handleEventWith_runs s.client word r)).mono ?_ fun _ _ => trivial
  rintro _ s' ⟨⟨hu, js, cw, rfl⟩, a, rfl⟩
  rw [wp_modify]
  exact ⟨hu.moved rfl rfl rfl rfl rfl, ⟨h.down.order, h.down.first⟩, h.client.event word a,
    h.server, h.fresh⟩

theorem serverEvent_relay (h : Relay s) (ha : s.attached = true) (word : BitVec 64) (r : Answered) :
    Wp (serverEvent word r) [] s (fun _ s' => Relay s') fun _ => True := by
  simp only [serverEvent, wp_lock, wp_bind, wp_get]
  rw [if_neg (by decide), if_neg (by decide)]
  refine (((server_keeps s _).handleEventWith s.server word r
    ⟨h.up, h.down, h.client, s.client, s.jobs, s.downSent, s.clientWrites, s.serverWrites, rfl⟩).and
    (handleEventWith_runs s.server word r)).mono ?_ fun _ _ => trivial
  rintro _ s' ⟨⟨hu, hd, hg, c, js, ds, cw, sw, rfl⟩, a, rfl⟩
  rw [wp_modify]
  refine ⟨hu.moved rfl rfl rfl rfl rfl, ⟨hd.order, hd.first⟩, hg, h.server.event word a,
    fun hc => ?_⟩
  exact Bool.noConfusion ((h.attached ha).symm.trans hc)

/-- The connection to the server is there: nothing has been sent to it. -/
theorem attach_relay (h : Relay s) (hc : s.connecting = true) :
    Relay { s with connecting := false, attached := true, server := s.server.setEnabled true } := by
  obtain ⟨hnew, ha, hg⟩ := h.fresh hc
  have hr : s.reachable = false := by simp [Tunnel.reachable, ha]
  have hnone : s.reachable = true → False := fun hx => Bool.noConfusion (hr.symm.trans hx)
  have hsame : s.server.setEnabled true = s.server := by
    rw [hnew]
    rfl
  rw [hsame]
  exact ⟨⟨h.up.order, h.up.first, h.up.flush, fun hne => absurd rfl hne, fun j hj hs => (hnone (h.up.held j hj hs)).elim, fun _ => rfl⟩,
    ⟨h.down.order, h.down.first⟩, h.client, h.server, fun hx => by cases hx⟩

theorem connJob_relay (h : Relay s) (hc : s.connecting = true) (err err' : Bool) :
    Wp (connJob err err') [] { s with connecting := false } (fun _ s' => Relay s') fun _ => True := by
  obtain ⟨-, -, hgone⟩ := h.fresh hc
  cases err with
  | true =>
    simp only [connJob, if_true, wp_lock, wp_serverOnError]
    repeat rw [if_neg (by decide)]
    split
    · exact ⟨h.up.moved rfl rfl rfl rfl rfl, ⟨h.down.order, h.down.first⟩, h.client,
        h.server, fun hx => by cases hx⟩
    · have hu := h.up.enqueue (j := .shutdownClient) (fun hx => by cases hx) rfl
      exact ⟨hu.moved rfl rfl rfl rfl rfl, ⟨h.down.order, h.down.first⟩, h.client,
        h.server, fun hx => by cases hx⟩
  | false =>
    have hat := attach_relay h hc
    simp only [connJob, Bool.false_eq_true, if_false, wp_lock, wp_bind, wp_modify, ServerSession.onConnect, wp_pure]
    repeat rw [if_neg (by decide)]
    cases err' with
    | true => exact hat
    | false =>
      simp only [Bool.false_eq_true, if_false, ServerSession.getClientConn, wp_bind, wp_get, wp_pure, wp_ite, wp_modify]
      split
      · have hu := hat.up.enqueue (j := .flush) (fun _ => by simp [Tunnel.reachable, hgone]) rfl
        exact ⟨⟨hu.order, hu.first, fun _ _ => .inl (List.mem_append_right _ (List.mem_singleton.mpr rfl)), hu.sending, hu.held,
          fun _ => rfl⟩, ⟨hat.down.order, hat.down.first⟩, hat.client, hat.server, fun hx => by cases hx⟩
      · exact hat

theorem runJob_relay (h : Relay s) {j : TunnelJob} {rest : List TunnelJob} (hj : s.jobs = j :: rest) (ok : Bool) :
    Wp (runJob j ok) [] { s with jobs := rest } (fun _ s' => Relay s') fun _ => True := by
  -- a job that holds the server's connection runs after the attachment
  have hfresh : j.holdsServer = true → s.connecting = false := fun hs => by
    have hr := h.up.held j (by rw [hj]; exact List.mem_cons_self ..) hs
    rw [Tunnel.reachable, Bool.and_eq_true] at hr
    exact h.attached hr.1
  cases j with
  | flush =>
    have hu := h.up.popFlush hj
    simp only [runJob, wp_lock, wp_bind, wp_get, wp_ite]
    repeat rw [if_neg (by decide)]
    split
    · refine (serverSend_up hu ⟨h.down.order, h.down.first⟩ h.server).mono ?_ fun _ _ => trivial
      rintro _ s' ⟨hu', hd', hg', v, js, sw, rfl⟩
      rw [wp_modify]
      exact ⟨hu'.moved rfl rfl rfl rfl rfl, ⟨hd'.order, hd'.first⟩,
        h.client.marked _ _ _, hg', fun hc => Bool.noConfusion ((hfresh rfl).symm.trans hc)⟩
    · next hb =>
      have hb : s.client.readBuffer = [] := List.eq_nil_of_length_eq_zero (by simpa using hb)
      rw [hb] at hu
      exact ⟨hb ▸ hu, ⟨h.down.order, h.down.first⟩, h.client, h.server, h.fresh⟩
  | shutdownClient =>
    have hu := h.up.pop hj rfl (by decide)
    simp only [runJob, wp_lock, wp_bind, wp_modify, wp_ite, wp_pure, wp_stop]
    repeat rw [if_neg (by decide)]
    split
    · exact ⟨hu.moved rfl rfl rfl rfl rfl, ⟨h.down.order, h.down.first⟩, h.client.shutdown,
        h.server, h.fresh⟩
    · trivial
  | send bytes =>
    have hu := h.up.popSend hj
    simp only [runJob, wp_lock]
    repeat rw [if_neg (by decide)]
    refine (serverSend_up hu ⟨h.down.order, h.down.first⟩ h.server).mono ?_ fun _ _ => trivial
    rintro _ s' ⟨hu', hd', hg', v, js, sw, rfl⟩
    exact ⟨hu', hd', h.client, hg', fun hc => Bool.noConfusion ((hfresh rfl).symm.trans hc)⟩
  | shutdownServer =>
    have hu := h.up.pop hj rfl (by decide)
    simp only [runJob, wp_lock, wp_modify]
    repeat rw [if_neg (by decide)]
    exact ⟨hu.moved rfl rfl rfl rfl rfl, ⟨h.down.order, h.down.first⟩, h.client,
      h.server.shutdown, fun hc => Bool.noConfusion ((hfresh rfl).symm.trans hc)⟩

theorem Relay.answered (h : Relay s) (cw sw : Nat → IoRes Nat) : Relay { s with clientWrites := cw, serverWrites := sw } :=
  ⟨h.up.moved rfl rfl rfl rfl rfl, ⟨h.down.order, h.down.first⟩, h.client, h.server,
    h.fresh⟩

theorem called_relay {e : TunnelEv} {p : TunnelM Unit} (h : Relay s) (hc : LoopRuns s e p) :
    Wp p [] s (fun _ s' => Relay s') fun _ => True := by
  cases hc with
  | client word r _ _ => exact clientEvent_relay h word r
  | server word r hat _ _ => exact serverEvent_relay h hat word r
  | connected err err' hc =>
    rw [wp_bind, wp_modify]
    exact connJob_relay h hc err err'
  | job j rest ok hj =>
    rw [wp_bind, wp_modify]
    exact runJob_relay h hj ok

theorem LoopRuns.answered {e : TunnelEv} {p : TunnelM Unit} (hc : LoopRuns s e p) (cw sw : Nat → IoRes Nat) :
    LoopRuns { s with clientWrites := cw, serverWrites := sw } e p := by
  cases hc with
  | client word r hg hr => exact .client _ word r hg hr
  | server word r hat hg hr => exact .server _ word r hat hg hr
  | connected err err' hc => exact .connected _ err err' hc
  | job j rest ok hj => exact .job _ j rest ok hj

theorem relay_step {s' : Tunnel} {e : TunnelEv} (h : Relay s) (hs : TunnelStep s e s') : Relay s' := by
  cases hs with
  | call _ _ p cw sw hcall hrun => exact (called_relay (h.answered cw sw) (hcall.answered cw sw)).of_ok hrun
  | clientGone hc hj =>
    exact ⟨h.up.moved rfl rfl rfl rfl rfl, ⟨h.down.order, fun hx => by cases hx⟩,
      h.client, h.server, h.fresh⟩
  | serverGone hc hj =>
    refine ⟨⟨h.up.order, h.up.first, fun _ hx => (by cases hx), fun hne => absurd rfl hne,
      fun j hm hs => Bool.noConfusion ((hj j hm).symm.trans hs), h.up.attached⟩, ⟨h.down.order, h.down.first⟩, h.client, h.server, ?_⟩
    intro hx
    rw [(h.fresh hx).1] at hc
    cases hc

end Relays

theorem relay_run {τ : List TunnelEv} {s : Tunnel} (h : Run tunnel τ s) : Relay s := by
  refine Run.inv (P := Relay) ?_ (fun _ _ _ ih hs => relay_step ih hs) h
  rintro s rfl
  exact ⟨⟨rfl, fun hne => absurd rfl hne, fun hx => (by cases hx), fun hne => absurd rfl hne, fun _ hj => (by cases hj), fun hx => hx⟩,
    ⟨rfl, fun _ => rfl⟩, Given.new, Given.new, fun _ => ⟨rfl, rfl, rfl⟩⟩

/-- A client has sent three bytes, the connection to the server came, and it sent a fourth. -/
def Tunnel.fourBytes : Tunnel :=
  { Tunnel.new with
    client := { TcpConnection.new with
      log := [.read (.ok [1, 2, 3]), .readJob [1, 2, 3] [1, 2, 3], .read .wouldBlock,
        .read (.ok [4]), .readJob [1, 2, 3, 4] [], .read .wouldBlock] }
    connecting := false
    attached := true
    flushed := true
    jobs := [.flush, .send [1, 2, 3, 4]] }

theorem fourBytes_run : ∃ τ, Run tunnel τ fourBytes := by
  let quiet : Nat → IoRes Nat := fun _ => .wouldBlock
  have h0 : Run tunnel [] .new := .init rfl
  have h1 := h0.step (.call _ _ _ _ quiet quiet (.client _ Ready.readable.bits ⟨[[1, 2, 3]], .wouldBlock⟩ rfl (by decide)) rfl)
  have h2 := h1.step (.call _ _ _ _ quiet quiet (.connected _ false false rfl) rfl)
  exact ⟨_, h2.step (.call _ _ _ _ quiet quiet (.client _ Ready.readable.bits ⟨[[4]], .wouldBlock⟩ rfl (by decide)) rfl)⟩

/-- In both directions nothing is lost, doubled or turned around between the read of one
    connection and the `send` of the other. -/
theorem tunnel_in_order {τ : List TunnelEv} {s : Tunnel} (h : Run tunnel τ s) :
    received s.client = s.upSent ++ waiting s.jobs ++ s.client.readBuffer ∧
      received s.server = s.downSent ++ s.server.readBuffer ∧ (s.clientGone = false → s.server.readBuffer = []) := by
  have hr := relay_run h
  refine ⟨?_, hr.down.order, hr.down.first⟩
  rw [hr.up.order, List.append_nil]

/-- What came before the server was there goes in front, although its job finds the buffer
    empty. -/
theorem tunnel_in_order_four : ∃ s : Tunnel, s.jobs = [.flush, .send [1, 2, 3, 4]] ∧
    received s.client = s.upSent ++ waiting s.jobs ++ s.client.readBuffer ∧
      received s.server = s.downSent ++ s.server.readBuffer ∧ (s.clientGone = false → s.server.readBuffer = []) := by
  obtain ⟨τ, h⟩ := fourBytes_run
  exact ⟨fourBytes, rfl, tunnel_in_order h⟩

/-- Where no job is left, and no write was cut short or refused, what was read from one
    side has been written to the other. -/
theorem tunnel_end_to_end {τ : List TunnelEv} {s : Tunnel} (h : Run tunnel τ s) (hj : s.jobs = []) :
    (s.flushed = true → s.serverGone = false → Full s.server → s.server.writeEnabled = true → s.server.wire = received s.client) ∧
      (s.clientGone = false → Full s.client → s.client.writeEnabled = true → s.client.wire = received s.server) := by
  have hr := relay_run h
  refine ⟨fun hf hg hfull he => ?_, fun hg hfull he => ?_⟩
  · have hb : s.client.readBuffer = [] := (hr.up.flush hf hg).resolve_left fun hm => by rw [hj] at hm; cases hm
    rw [hr.server.wire hfull he, hr.up.order, hb, hj]
    simp [waiting]
  · rw [hr.client.wire hfull he, hr.down.order, hr.down.first hg, List.append_nil]

/-- The two jobs run, and the server's socket takes the four bytes. -/
theorem tunnel_end_to_end_four : ∃ s : Tunnel, s.server.wire = [1, 2, 3, 4] ∧ received s.client = [1, 2, 3, 4] ∧
    s.server.wire = received s.client := by
  obtain ⟨τ, h⟩ := fourBytes_run
  let quiet : Nat → IoRes Nat := fun _ => .wouldBlock
  have h4 := h.step (.call _ _ _ _ quiet quiet (.job _ _ _ true rfl) rfl)
  have h5 := h4.step (.call _ _ _ _ quiet (fun _ => .ok 4) (.job _ _ _ true rfl) rfl)
  refine ⟨_, rfl, rfl, (tunnel_end_to_end h5 rfl).1 rfl rfl ?_ rfl⟩
  intro offered taken hm
  have hm : Eff.write offered taken ∈ [Eff.write [1, 2, 3, 4] 4, .writJob] := hm
  simp only [List.mem_cons, Eff.write.injEq, reduceCtorEq, List.not_mem_nil, or_false] at hm
  rw [hm.1, hm.2]
  rfl

end Sickle.Net
