/-
  Sickle.Sys.Selector — the epoll selector (`sys/unix/epoll.rs`).

  A selector is its `events_map`, keyed by descriptor (an `i32`), beside the kernel's
  interest list of its epoll instance, keyed by descriptor too: for each one the
  `epoll_event` of its latest successful EPOLL_CTL_ADD or EPOLL_CTL_MOD. The identity of
  an event travels through the event's 64-bit field: `select` reads it back as a
  descriptor (`u64 as usize as i32`) and looks that up in `events_map`.

  The kernel answers EEXIST to adding a descriptor it holds and ENOENT to changing or
  deleting one it does not hold; it may refuse any call for another reason (`refuse`).
-/

import Mathlib.Logic.Function.Basic
import Sickle.Event

namespace Sickle.Sys

open Function (update)

/-- A descriptor, as `RawFd` and as the map's `i32` key. -/
abbrev Fd := BitVec 32

def EPOLLIN : BitVec 32 := 0x001#32
def EPOLLPRI : BitVec 32 := 0x002#32
def EPOLLOUT : BitVec 32 := 0x004#32
def EPOLLERR : BitVec 32 := 0x008#32
def EPOLLHUP : BitVec 32 := 0x010#32
def EPOLLONESHOT : BitVec 32 := 0x40000000#32
def EPOLLET : BitVec 32 := 0x80000000#32

structure EpollEvent where
  events : BitVec 32
  u64 : BitVec 64
  deriving DecidableEq, Repr

def ioeventToEpoll (interest : Ready) (opts : PollOpt) : BitVec 32 :=
  let kind := 0#32
  let kind := if interest.isReadable then kind ||| EPOLLIN else kind
  let kind := if interest.isWritable then kind ||| EPOLLOUT else kind
  let kind := if UnixReady.isPriority interest then kind ||| EPOLLPRI else kind
  let kind := if opts.isEdge then kind ||| EPOLLET else kind
  let kind := if opts.isLevel then kind &&& ~~~EPOLLET else kind
  if opts.isOneshot then kind ||| EPOLLONESHOT else kind

/-- `Events::get_ready` of one entry of the events vector. -/
def getReady (ev : EpollEvent) : Ready :=
  let kind := Ready.empty
  let kind := if ev.events &&& EPOLLIN ≠ 0 then kind.or Ready.readable else kind
  let kind := if ev.events &&& EPOLLOUT ≠ 0 then kind.or Ready.writable else kind
  let kind := if ev.events &&& EPOLLPRI ≠ 0 then (kind.or Ready.readable).or UnixReady.priority else kind
  let kind := if ev.events &&& EPOLLERR ≠ 0 then kind.or UnixReady.error else kind
  if ev.events &&& EPOLLHUP ≠ 0 then kind.or UnixReady.hup else kind

/-! ## The kernel -/

inductive Errno where
  | exist
  | noent
  | other
  deriving DecidableEq, Repr

inductive CtlOp where
  | add
  | mod
  | del
  deriving DecidableEq, Repr

abbrev Kernel := Fd → Option EpollEvent

def epollCtl (k : Kernel) (op : CtlOp) (fd : Fd) (info : EpollEvent) (refuse : Bool) : Except Errno Kernel :=
  if refuse then .error .other
  else
    match op, k fd with
    | .add, none => .ok (update k fd (some info))
    | .add, some _ => .error .exist
    | .mod, some _ => .ok (update k fd (some info))
    | .mod, none => .error .noent
    | .del, some _ => .ok (update k fd none)
    | .del, none => .error .noent

/-! ## The selector -/

variable {J : Type}

/-- A selector and its epoll instance. -/
structure Selector (J : Type) where
  eventsMap : Fd → Option (JobEntry J)
  kernel : Kernel

def Selector.new : Selector J := ⟨fun _ => none, fun _ => none⟩

/-- The map is written before the kernel is asked. -/
def register (s : Selector J) (fd : Fd) (token : TokenEntry) (interests : Ready) (opts : PollOpt) (job : J)
    (refuse : Bool) : Except Errno Unit × Selector J :=
  let info : EpollEvent := ⟨ioeventToEpoll interests opts, fd.signExtend 64⟩
  let s := { s with eventsMap := update s.eventsMap fd (some ⟨token, job, Ready.empty⟩) }
  match epollCtl s.kernel .add fd info refuse with
  | .ok k => (.ok (), { s with kernel := k })
  | .error e => (.error e, s)

def reregister (s : Selector J) (fd : Fd) (token : TokenEntry) (interests : Ready) (opts : PollOpt)
    (refuse : Bool) : Except Errno Unit × Selector J :=
  let info : EpollEvent := ⟨ioeventToEpoll interests opts, token.token.val⟩
  match epollCtl s.kernel .mod fd info refuse with
  | .ok k => (.ok (), { s with kernel := k })
  | .error e => (.error e, s)

def deregister (s : Selector J) (fd : Fd) (refuse : Bool) : Except Errno Unit × Selector J :=
  match epollCtl s.kernel .del fd ⟨0, 0⟩ refuse with
  | .ok k => (.ok (), { s with kernel := k, eventsMap := update s.eventsMap fd none })
  | .error e => (.error e, s)

/-- The two vectors of `Events`. -/
structure Events (J : Type) where
  events : List EpollEvent
  entries : List (JobEntry J)

/-- What the loop of `select` carries: the map, the entries pushed, `notify_idx`. -/
structure SelectAcc (J : Type) where
  map : Fd → Option (JobEntry J)
  entries : List (JobEntry J)
  notify : Option Nat

/-- One round of the loop of `select`, on the event at index `i`. -/
def selectOne (acc : SelectAcc J) (x : EpollEvent × Nat) : SelectAcc J :=
  let fd : Fd := x.1.u64.setWidth 32
  match acc.map fd with
  | some e =>
    if e.tokenEntry.ttype = .notifyEvent then { acc with notify := some x.2 }
    else
      let e := { e with ready := getReady x.1 }
      { acc with map := update acc.map fd (some e), entries := acc.entries ++ [e] }
  -- "event_map get None" is logged and the event skipped
  | none => acc

/-- `select` on the events `epoll_wait` filled in: whether the awakener was among them,
    the vectors, and the selector with the readiness of each entry noted. -/
def select (s : Selector J) (evs : List EpollEvent) : Bool × Events J × Selector J :=
  let acc := evs.zipIdx.foldl selectOne ⟨s.eventsMap, [], none⟩
  let s := { s with eventsMap := acc.map }
  match acc.notify with
  | some i => (true, ⟨evs.eraseIdx i, acc.entries⟩, s)
  | none => (false, ⟨evs, acc.entries⟩, s)

/-- The kernel's report of ready descriptors: each with its event mask; descriptors it
    does not hold are not reported. -/
def report (k : Kernel) (rs : List (Fd × BitVec 32)) : List EpollEvent :=
  rs.filterMap fun r => (k r.1).map fun info => ⟨r.2, info.u64⟩

end Sickle.Sys
