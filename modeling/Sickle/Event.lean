/-
  Sickle.Event — readiness, options, tokens and job entries (`event_imp.rs`, `token.rs`,
  `sys/unix/ready.rs`).

  `Ready` and `PollOpt` are bit sets in a `usize`, 64 bits wide. A `Job` is a shared
  closure; what the model needs of it is which one it is, so it is a type parameter.
-/

namespace Sickle

structure Ready where
  bits : BitVec 64
  deriving DecidableEq, Repr

namespace Ready

def READABLE : BitVec 64 := 0b00001#64
def WRITABLE : BitVec 64 := 0b00010#64
def ERROR : BitVec 64 := 0b00100#64
def HUP : BitVec 64 := 0b01000#64

def empty : Ready := ⟨0#64⟩
def readable : Ready := ⟨READABLE⟩
def writable : Ready := ⟨WRITABLE⟩
def error : Ready := ⟨ERROR⟩
def hup : Ready := ⟨HUP⟩

def isEmpty (r : Ready) : Bool := r == empty
def or (a b : Ready) : Ready := ⟨a.bits ||| b.bits⟩
def and (a b : Ready) : Ready := ⟨a.bits &&& b.bits⟩
def contains (r other : Ready) : Bool := r.and other == other
def isReadable (r : Ready) : Bool := r.contains readable
def isWritable (r : Ready) : Bool := r.contains writable
def isError (r : Ready) : Bool := r.contains error
def isHup (r : Ready) : Bool := r.contains hup

end Ready

structure PollOpt where
  bits : BitVec 64
  deriving DecidableEq, Repr

namespace PollOpt

def empty : PollOpt := ⟨0#64⟩
def edge : PollOpt := ⟨0b0001#64⟩
def level : PollOpt := ⟨0b0010#64⟩
def oneshot : PollOpt := ⟨0b0100#64⟩

def contains (o other : PollOpt) : Bool := o.bits &&& other.bits == other.bits
def isEdge (o : PollOpt) : Bool := o.contains edge
def isLevel (o : PollOpt) : Bool := o.contains level
def isOneshot (o : PollOpt) : Bool := o.contains oneshot

end PollOpt

namespace UnixReady

/-- Wider than `Ready`'s own four flags: bits 3 and 6. -/
def PRI : BitVec 64 := 0b1001000#64

def error : Ready := ⟨0b000100#64⟩
def hup : Ready := ⟨0b001000#64⟩
def priority : Ready := ⟨PRI⟩
def isPriority (r : Ready) : Bool := r.contains priority

end UnixReady

structure Token where
  val : BitVec 64
  deriving DecidableEq, Repr

inductive TokenType where
  | socketEvent
  | notifyEvent
  | timersEvent
  | jobsEvent
  | tokenEvent
  | acceptEvent
  | otherEvent
  deriving DecidableEq, Repr

structure TokenEntry where
  ttype : TokenType
  token : Token
  deriving DecidableEq, Repr

structure JobEntry (J : Type) where
  tokenEntry : TokenEntry
  job : J
  ready : Ready
  deriving DecidableEq, Repr

end Sickle
