/-
  Sickle.Net.Connection — the buffered TCP connection (`net/connection.rs`, with
  `try_read_buf` / `try_write_buf` of `net/mod.rs`).

  A buffer is a byte queue: `put` appends, `split` takes everything, `chunk` shows
  everything, `advance` drops a prefix. What the socket and the callbacks answer is an
  argument of each operation: an `IoRes` for every `write`, a script for the reads of
  one `handle_read`, the boolean of `writ_job`. What a connection does to the world is
  appended to `log`, so `wire` — the bytes the socket has accepted — is read off it.
  `close_stream` is taken to succeed (the code unwraps it).
-/

import Sickle.Event

namespace Sickle.Net

abbrev Bytes := List UInt8

/-- The kinds of `io::Result` that `map_non_block` tells apart. -/
inductive IoRes (α : Type) where
  | ok (a : α)
  | wouldBlock
  | err
  deriving DecidableEq, Repr

/-- `none` is the failed call, `some none` is `Ok(None)`. -/
def mapNonBlock {α : Type} : IoRes α → Option (Option α)
  | .ok a => some (some a)
  | .wouldBlock => some none
  | .err => none

/-- What a connection does outside itself. -/
inductive Eff where
  | read (r : IoRes Bytes)
  | write (offered : Bytes) (taken : Nat)
  /-- `read_job` is called on the read buffer, and leaves of it what it does. -/
  | readJob (shown left : Bytes)
  | writJob
  | closeJob
  | deregister
  deriving DecidableEq, Repr

def Eff.accepted : Eff → Bytes
  | .write offered taken => offered.take taken
  | _ => []

structure TcpConnection where
  readBuffer : Bytes
  writeBufferSending : Bytes
  writeBufferWaiting : Bytes
  readEnabled : Bool
  writeEnabled : Bool
  readTriggered : Bool
  writeTriggered : Bool
  closed : Bool
  log : List Eff

namespace TcpConnection

def new : TcpConnection := ⟨[], [], [], true, true, false, false, false, []⟩

def emit (c : TcpConnection) (e : Eff) : TcpConnection := { c with log := c.log ++ [e] }

/-- The bytes the socket has accepted so far. -/
def wire (c : TcpConnection) : Bytes := c.log.flatMap Eff.accepted

def setEnabled (c : TcpConnection) (enable : Bool) : TcpConnection :=
  { c with readEnabled := enable, writeEnabled := enable }

def closeStream (c : TcpConnection) : TcpConnection := c.emit .deregister

def handleClose (c : TcpConnection) : TcpConnection :=
  if c.closed then c
  else closeStream (emit { c.setEnabled false with closed := true } .closeJob)

/-- One `handle_read`: reads that bring bytes, each with what `read_job` leaves of the
    buffer, and the read that ends the loop. -/
structure ReadScript where
  chunks : List (Bytes × (Bytes → Bytes))
  last : IoRes (Bytes → Bytes)

/-- A read of `r > 0` bytes: they are appended and `read_job` sees the buffer. -/
def readChunk (c : TcpConnection) (d : Bytes × (Bytes → Bytes)) : TcpConnection :=
  (emit { c with readBuffer := d.2 (c.readBuffer ++ d.1) } (.read (.ok d.1))).emit
    (.readJob (c.readBuffer ++ d.1) (d.2 (c.readBuffer ++ d.1)))

/-- The loop of `handle_read`; `ok` as the last answer is the end of the stream, a read
    of no bytes, which also goes through `read_job`. -/
def handleRead (c : TcpConnection) (r : ReadScript) : TcpConnection :=
  let c := r.chunks.foldl readChunk c
  match mapNonBlock r.last with
  | some none => { c.emit (.read .wouldBlock) with readTriggered := false }
  | some (some job) =>
    let c := (emit { c with readBuffer := job c.readBuffer } (.read (.ok []))).emit
      (.readJob c.readBuffer (job c.readBuffer))
    handleClose { c with readTriggered := false }
  | none => handleClose { c.emit (.read .err) with readTriggered := false }

/-- `try_write_buf` on the local buffer `buf`: the answer and what is left of `buf`.
    A socket takes at most what it is offered. -/
def tryWriteBuf (w : IoRes Nat) (buf : Bytes) : Option (Option Nat) × Bytes :=
  match mapNonBlock w with
  | some (some cnt) => (some (some (min cnt buf.length)), buf.drop (min cnt buf.length))
  | res => (res, buf)

/-- `write_data` from the point where the chunk is in the local buffer: `buf` is
    dropped at each return. -/
def writeChunk (c : TcpConnection) (buf : Bytes) (w : IoRes Nat) (ans : Bool) : TcpConnection :=
  match tryWriteBuf w buf with
  | (some none, _) => { c.emit (.write buf 0) with writeTriggered := false }
  | (some (some cnt), rest) =>
    let c := c.emit (.write buf cnt)
    if 0 < rest.length then c
    else
      let c := emit { c with writeTriggered := false } .writJob
      if ans = false then handleClose c else c
  | (none, _) => handleClose { c.emit (.write buf 0) with writeTriggered := false }

def writeData (c : TcpConnection) (w : IoRes Nat) (ans : Bool) : TcpConnection :=
  if 0 < c.writeBufferSending.length then
    writeChunk { c with writeBufferSending := [] } c.writeBufferSending w ans
  else if 0 < c.writeBufferWaiting.length then
    writeChunk { c with writeBufferWaiting := [] } c.writeBufferWaiting w ans
  else c

/-- The connection after `send` and the length it returns. -/
def send (c : TcpConnection) (bytes : Bytes) (w : IoRes Nat) (ans : Bool) : TcpConnection × Nat :=
  if c.writeEnabled = false then (c, 0)
  else if bytes.length = 0 then (c, 0)
  else (writeData { c with writeBufferWaiting := c.writeBufferWaiting ++ bytes } w ans, bytes.length)

def handleWrite (c : TcpConnection) (w : IoRes Nat) (ans : Bool) : TcpConnection :=
  if c.writeBufferWaiting.length = 0 ∧ c.writeBufferSending.length = 0 then c
  else c.writeData w ans

/-- The answers of the world to one `handle_event`. -/
structure EventAnswers where
  reads : ReadScript
  write : IoRes Nat
  writJob : Bool

def handleEvent (c : TcpConnection) (event : BitVec 64) (a : EventAnswers) : TcpConnection :=
  let ready : Ready := ⟨event⟩
  let c := if ready.isReadable then handleRead { c with readTriggered := true } a.reads else c
  let c := if ready.isWritable then handleWrite { c with writeTriggered := true } a.write a.writJob else c
  if ready.isError || ready.isHup then
    handleClose { c with readTriggered := true, writeTriggered := true }
  else c

inductive Shutdown where
  | read
  | write
  | both
  deriving DecidableEq, Repr

def shutdown (c : TcpConnection) (how : Shutdown) : TcpConnection :=
  match how with
  | .read => { c with readEnabled := false }
  | .write => { c with writeEnabled := false }
  | .both => c.setEnabled false

end TcpConnection

end Sickle.Net
