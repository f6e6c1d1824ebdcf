/-
  Sickle.Timers.Wheel — the hashed timer wheel (`timer.rs`).

  Entries live in a slab and are threaded into one doubly linked list per slot, by
  links that are slab keys; `wheel` holds each slot's head and a cached lower bound of
  its ticks (`next_tick`); `tick` is the wheel's own tick and `next` the cursor into the
  list of the slot of `tick`.

  The slab gives each `insert` a key; the model takes the key as an argument, so it
  covers every slab that returns unused keys. Ticks are `u64`: an addition that would
  overflow is a `Fault`, as are an index the slab does not hold and a division by zero.
  The loop of `poll_to` runs on fuel. `schedule_readiness` and the rest of `inner` touch
  none of these fields; they are in `Sickle.Timers.Wakeup`.
-/

import Mathlib.Algebra.Group.Nat.Defs
import Mathlib.Logic.Function.Basic
import Sickle.Lib.Run
import Sickle.Event

namespace Sickle.Timers

open Function (update)
open Sickle.Lib

def U64_MAX : Nat := 2 ^ 64 - 1

def TICK_MAX : Nat := U64_MAX

/-- `Token(usize::MAX)`. -/
def EMPTY : Token := ⟨BitVec.allOnes 64⟩

/-! ## Durations -/

def NANOS_PER_SEC : Nat := 1000000000
def NANOS_PER_MILLI : Nat := 1000000
def MILLIS_PER_SEC : Nat := 1000

/-- `std::time::Duration`. -/
structure Duration where
  secs : Nat
  nanos : Nat
  secs_le : secs ≤ U64_MAX
  nanos_lt : nanos < NANOS_PER_SEC
  deriving DecidableEq

def Duration.fromMillis (ms : Nat) (h : ms ≤ U64_MAX) : Duration where
  secs := ms / MILLIS_PER_SEC
  nanos := ms % MILLIS_PER_SEC * NANOS_PER_MILLI
  secs_le := Nat.le_trans (Nat.div_le_self ..) h
  nanos_lt := by
    have := Nat.mod_lt ms (show MILLIS_PER_SEC > 0 by decide)
    simp only [MILLIS_PER_SEC, NANOS_PER_MILLI, NANOS_PER_SEC] at *; omega

def saturatingAdd (a b : Nat) : Nat := min (a + b) U64_MAX
def saturatingMul (a b : Nat) : Nat := min (a * b) U64_MAX

/-- `convert::millis`, rounding up. -/
def millis (d : Duration) : Nat :=
  let millis := (d.nanos + NANOS_PER_MILLI - 1) / NANOS_PER_MILLI
  saturatingAdd (saturatingMul d.secs MILLIS_PER_SEC) millis

inductive Fault where
  | overflow
  | badKey
  | divZero
  | fuel
  deriving DecidableEq, Repr

def durationToTick (elapsed : Duration) (tickMs : Nat) : Except Fault Nat :=
  if tickMs = 0 then .error .divZero else .ok (saturatingAdd (millis elapsed) (tickMs / 2) / tickMs)

/-! ## The wheel -/

structure EntryLinks where
  tick : Nat
  prev : Token
  next : Token
  deriving DecidableEq, Repr

structure Entry (T : Type) where
  state : T
  links : EntryLinks
  deriving DecidableEq, Repr

structure WheelEntry where
  nextTick : Nat
  head : Token
  deriving DecidableEq, Repr

/-- The handle of a timeout. -/
structure Timeout where
  token : Token
  tick : Nat
  deriving DecidableEq, Repr

/-- `Slab<Entry<T>>`. -/
abbrev Entries (T : Type) := Token → Option (Entry T)

structure Timer (T : Type) where
  tickMs : Nat
  entries : Entries T
  wheel : Nat → WheelEntry
  tick : Nat
  next : Token
  mask : Nat

variable {T : Type}

/-- `entries[k].links.prev = v`. -/
def setPrev (es : Entries T) (k v : Token) : Except Fault (Entries T) :=
  match es k with
  | some e => .ok (update es k (some { e with links := { e.links with prev := v } }))
  | none => .error .badKey

/-- `entries[k].links.next = v`. -/
def setNext (es : Entries T) (k v : Token) : Except Fault (Entries T) :=
  match es k with
  | some e => .ok (update es k (some { e with links := { e.links with next := v } }))
  | none => .error .badKey

/-- `if k != EMPTY { entries[k].links.prev = v }`. -/
def setPrevIf (es : Entries T) (k v : Token) : Except Fault (Entries T) :=
  if k ≠ EMPTY then setPrev es k v else .ok es

namespace Timer

def new (tickMs numSlots : Nat) : Timer T where
  tickMs := tickMs
  entries _ := none
  wheel _ := ⟨TICK_MAX, EMPTY⟩
  tick := 0
  next := EMPTY
  mask := numSlots.nextPowerOfTwo - 1

def slotFor (t : Timer T) (tick : Nat) : Nat := tick &&& t.mask

/-- `insert` of a timeout the slab puts at `key`. -/
def insert (t : Timer T) (tick : Nat) (state : T) (key : Token) : Except Fault (Timer T × Timeout) := do
  let slot := t.slotFor tick
  let curr := t.wheel slot
  let entries := update t.entries key (some ⟨state, ⟨tick, EMPTY, curr.head⟩⟩)
  let entries ← setPrevIf entries curr.head key
  .ok ({ t with entries := entries, wheel := update t.wheel slot ⟨min tick curr.nextTick, key⟩ }, ⟨key, tick⟩)

/-- The tick `set_timeout_at` inserts at. -/
def clampTick (t : Timer T) (tick : Nat) : Except Fault Nat :=
  if tick < t.tick then (if t.tick = U64_MAX then .error .overflow else .ok (t.tick + 1)) else .ok tick

def setTimeoutAt (t : Timer T) (delayFromStart : Duration) (state : T) (key : Token) :
    Except Fault (Timer T × Timeout) := do
  let tick ← durationToTick delayFromStart t.tickMs
  let tick ← t.clampTick tick
  t.insert tick state key

/-- The first half of `unlink`: what precedes the entry leads past it. -/
def unlinkPrev (t : Timer T) (links : EntryLinks) : Except Fault (Timer T) :=
  if links.prev = EMPTY then
    let slot := t.slotFor links.tick
    .ok { t with wheel := update t.wheel slot { t.wheel slot with head := links.next } }
  else (setNext t.entries links.prev links.next).map fun entries => { t with entries := entries }

/-- The second half: what follows the entry, and a cursor on it moves on. -/
def unlinkNext (t : Timer T) (links : EntryLinks) (token : Token) : Except Fault (Timer T) :=
  (setPrevIf t.entries links.next links.prev).map fun entries =>
    { t with entries := entries, next := if token = t.next then links.next else t.next }

/-- `unlink`; the entry itself stays in the slab. -/
def unlink (t : Timer T) (links : EntryLinks) (token : Token) : Except Fault (Timer T) := do
  let t ← t.unlinkPrev links
  t.unlinkNext links token

/-- `entries.remove(key)`. -/
def remove (t : Timer T) (key : Token) : Except Fault (Timer T × Entry T) :=
  match t.entries key with
  | some e => .ok ({ t with entries := update t.entries key none }, e)
  | none => .error .badKey

def cancelTimeout (t : Timer T) (timeout : Timeout) : Except Fault (Timer T × Option T) := do
  match t.entries timeout.token with
  | none => .ok (t, none)
  | some e =>
    if e.links.tick ≠ timeout.tick then .ok (t, none)
    else
      let t ← t.unlink e.links timeout.token
      let (t, e) ← t.remove timeout.token
      .ok (t, some e.state)

/-- In a round on a timeout: a cursor on the head of its list resets the slot's bound. -/
def lookAt (t : Timer T) : Timer T :=
  let slot := t.slotFor t.tick
  if t.next = (t.wheel slot).head then
    { t with wheel := update t.wheel slot { t.wheel slot with nextTick := TICK_MAX } } else t

/-- One round of the loop of `poll_to`. A timeout that fires is answered with its key and
    its whole entry, of which the code hands out the state. -/
def pollRound (t : Timer T) : Except Fault (Timer T × Option (Token × Entry T)) := do
  let curr := t.next
  if curr = EMPTY then
    if t.tick = U64_MAX then .error .overflow
    else
      let t := { t with tick := t.tick + 1 }
      let slot := t.slotFor t.tick
      let t := { t with next := (t.wheel slot).head }
      .ok (if t.next = EMPTY then
        { t with wheel := update t.wheel slot { t.wheel slot with nextTick := TICK_MAX } } else t, none)
  else
    let slot := t.slotFor t.tick
    let t := t.lookAt
    match t.entries curr with
    | none => .error .badKey
    | some e =>
      if e.links.tick ≤ t.tick then
        let t ← t.unlink e.links curr
        let (t, e) ← t.remove curr
        .ok (t, some (curr, e))
      else
        let nextTick := min (t.wheel slot).nextTick e.links.tick
        .ok ({ t with wheel := update t.wheel slot { t.wheel slot with nextTick := nextTick }, next := e.links.next }, none)

def pollLoop : Nat → Timer T → Nat → Except Fault (Timer T × Option (Token × Entry T))
  | 0, _, _ => .error .fuel
  | fuel + 1, t, target =>
    if t.tick ≤ target then
      match t.pollRound with
      | .error f => .error f
      | .ok (t, some fired) => .ok (t, some fired)
      | .ok (t, none) => pollLoop fuel t target
    else .ok (t, none)

def pollTo (fuel : Nat) (t : Timer T) (target : Nat) : Except Fault (Timer T × Option (Token × Entry T)) :=
  pollLoop fuel t (if target < t.tick then t.tick else target)

/-- The least cached bound of a slot. -/
def minNextTick (t : Timer T) : Option Nat := ((List.range (t.mask + 1)).map fun i => (t.wheel i).nextTick).min?

def nextTick (t : Timer T) : Except Fault (Option Nat) :=
  if t.next ≠ EMPTY then
    match t.entries t.next with
    | none => .error .badKey
    | some e =>
      if (t.wheel (t.slotFor e.links.tick)).nextTick = t.tick then .ok (some t.tick) else .ok t.minNextTick
  else .ok t.minNextTick

end Timer

/-! ## Runs of a timer -/

/-- A call and its answer. -/
inductive Call (T : Type) where
  | setTimeoutAt (delayFromStart : Duration) (state : T) (timeout : Timeout)
  | cancelTimeout (timeout : Timeout) (state : Option T)
  | pollTo (target : Nat) (fired : Option (Token × Entry T))

inductive CallStep : Timer T → Call T → Timer T → Prop
  /-- The slab returns a key that is not in use and is not `usize::MAX`. -/
  | setTimeoutAt (t t' : Timer T) (d : Duration) (state : T) (key : Token) (h : Timeout) :
      t.entries key = none → key ≠ EMPTY → t.setTimeoutAt d state key = .ok (t', h) →
      CallStep t (.setTimeoutAt d state h) t'
  | cancelTimeout (t t' : Timer T) (h : Timeout) (out : Option T) : t.cancelTimeout h = .ok (t', out) →
      CallStep t (.cancelTimeout h out) t'
  | pollTo (t t' : Timer T) (fuel : Nat) (target : Nat) (out : Option (Token × Entry T)) :
      t.pollTo fuel target = .ok (t', out) → CallStep t (.pollTo target out) t'

/-- A new timer, of any tick and any number of slots, and its calls. -/
def calls (T : Type) : Lts (Timer T) (Call T) := ⟨fun t => ∃ tickMs numSlots, t = Timer.new tickMs numSlots, CallStep⟩

end Sickle.Timers
