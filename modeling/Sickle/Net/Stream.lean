/-
  Sickle.Net.Stream — the outgoing byte stream of a connection.

  The moves are `send` and a `handle_event` whose word has the writable bit, on an open
  connection whose `writ_job` answers true, with a socket that takes any part of what it
  is offered or answers WouldBlock. A move's label carries the call's arguments, the
  socket's answer and, for `send`, the length it returned.

  `write_data` moves its chunk into a local buffer and returns with the untaken rest
  still in it, so the rest is dropped: nothing puts it back into `write_buffer_sending`.
  - `stream_intact_iff`: after a run, accepted ++ sending ++ waiting is the
    concatenation of the bytes sent exactly when every write of the run took its whole
    chunk.
  - `a_short_write_loses_the_rest`: one write that takes 1 of 3 bytes loses the other 2.
-/

import Sickle.Lib.Run
import Sickle.Net.Connection

namespace Sickle.Net

open Sickle.Lib TcpConnection

/-- What the socket does with an offered chunk: takes up to `n` of it, or WouldBlock. -/
inductive Take where
  | upTo (n : Nat)
  | wouldBlock
  deriving DecidableEq, Repr

def Take.res : Take → IoRes Nat
  | .upTo n => .ok n
  | .wouldBlock => .wouldBlock

inductive Move where
  | send (bytes : Bytes) (w : Take) (len : Nat)
  | event (word : BitVec 64) (reads : ReadScript) (w : Take)

/-- The bytes a move promises: those of a `send` that returned a positive length. -/
def Move.sent : Move → Bytes
  | .send bytes _ len => if 0 < len then bytes else []
  | .event _ _ _ => []

def sent (τ : List Move) : Bytes := τ.flatMap Move.sent

inductive Step : TcpConnection → Move → TcpConnection → Prop
  | send (c : TcpConnection) (bytes : Bytes) (w : Take) : c.closed = false →
      Step c (.send bytes w (c.send bytes w.res true).2) (c.send bytes w.res true).1
  | event (c : TcpConnection) (word : BitVec 64) (reads : ReadScript) (w : Take) :
      c.closed = false → Ready.isWritable ⟨word⟩ = true →
      Step c (.event word reads w) (c.handleEvent word ⟨reads, w.res, true⟩)

def moves : Lts TcpConnection Move := ⟨(· = new), Step⟩

/-- The chunk a `write_data` at `c` offers. -/
def chunk (c : TcpConnection) : Bytes :=
  if 0 < c.writeBufferSending.length then c.writeBufferSending else c.writeBufferWaiting

/-- The chunk a move at `c` offers to the socket. -/
def offered (c : TcpConnection) : Move → Bytes
  | .send bytes _ _ =>
    if c.writeEnabled = false ∨ bytes.length = 0 then []
    else chunk { c with writeBufferWaiting := c.writeBufferWaiting ++ bytes }
  | .event _ _ _ => chunk c

def Take.all (w : Take) (len : Nat) : Prop :=
  match w with
  | .upTo n => len ≤ n
  | .wouldBlock => len = 0

def Move.take : Move → Take
  | .send _ w _ => w
  | .event _ _ w => w

/-- The socket takes all of the chunk the move offers. -/
def TakesAll (c : TcpConnection) (m : Move) : Prop := m.take.all (offered c m).length

/-- Accepted, being sent, waiting: everything the connection still accounts for. -/
def held (c : TcpConnection) : Bytes := c.wire ++ c.writeBufferSending ++ c.writeBufferWaiting

def Intact (τ : List Move) (c : TcpConnection) : Prop := held c = sent τ

/-! ## What each operation does to the stream -/

/-- Two connections whose streams agree: the same accepted bytes and buffers. -/
def Same (c d : TcpConnection) : Prop :=
  d.wire = c.wire ∧ d.writeBufferSending = c.writeBufferSending ∧ d.writeBufferWaiting = c.writeBufferWaiting

theorem Same.refl (c : TcpConnection) : Same c c := ⟨rfl, rfl, rfl⟩

theorem Same.trans {a b c : TcpConnection} (h : Same a b) (h' : Same b c) : Same a c :=
  ⟨h'.1.trans h.1, h'.2.1.trans h.2.1, h'.2.2.trans h.2.2⟩

theorem Same.held {c d : TcpConnection} (h : Same c d) : held d = held c := by
  simp only [Net.held, h.1, h.2.1, h.2.2]

theorem handleClose_same (c : TcpConnection) : Same c (handleClose c) := by
  unfold handleClose
  split
  · exact .refl c
  · exact ⟨by simp [closeStream, wire, emit, setEnabled, Eff.accepted], rfl, rfl⟩

theorem readChunks_same (ds : List (Bytes × (Bytes → Bytes))) : ∀ c, Same c (ds.foldl readChunk c) := by
  induction ds with
  | nil => exact Same.refl
  | cons d ds ih =>
    intro c
    have h : Same c (readChunk c d) := ⟨by simp [readChunk, wire, emit, Eff.accepted], rfl, rfl⟩
    exact h.trans (ih _)

theorem handleRead_same (c : TcpConnection) (r : ReadScript) : Same c (handleRead c r) := by
  have h := readChunks_same r.chunks c
  unfold handleRead
  simp only
  split
  · exact h.trans ⟨by simp [wire, emit, Eff.accepted], rfl, rfl⟩
  · refine h.trans (Same.trans ?_ (handleClose_same _))
    exact ⟨by simp [wire, emit, Eff.accepted], rfl, rfl⟩
  · refine h.trans (Same.trans ?_ (handleClose_same _))
    exact ⟨by simp [wire, emit, Eff.accepted], rfl, rfl⟩

/-- The bytes of `buf` the socket takes. -/
def Take.taken (w : Take) (buf : Bytes) : Bytes :=
  match w with
  | .upTo n => buf.take n
  | .wouldBlock => []

/-- A chunk in the local buffer: what the socket takes is accepted, the rest is gone. -/
theorem writeChunk_held (c : TcpConnection) (buf : Bytes) (w : Take) :
    held (writeChunk c buf w.res true) = c.wire ++ w.taken buf ++ c.writeBufferSending ++ c.writeBufferWaiting := by
  cases w with
  | wouldBlock => simp [held, writeChunk, tryWriteBuf, mapNonBlock, Take.res, Take.taken, wire, emit, Eff.accepted]
  | upTo n =>
    simp only [writeChunk, tryWriteBuf, mapNonBlock, Take.res, Take.taken]
    split
    · simp [held, wire, emit, Eff.accepted, ← List.take_eq_take_min]
    · simp [held, wire, emit, Eff.accepted, ← List.take_eq_take_min]

@[simp] theorem taken_nil (w : Take) : w.taken [] = [] := by cases w <;> simp [Take.taken]

theorem taken_all {w : Take} {buf : Bytes} (h : w.all buf.length) : w.taken buf = buf := by
  cases w with
  | upTo n => exact List.take_of_length_le h
  | wouldBlock => exact (List.eq_nil_of_length_eq_zero h).symm

theorem taken_short {w : Take} {buf : Bytes} (h : ¬ w.all buf.length) : (w.taken buf).length < buf.length := by
  cases w with
  | upTo n => simp only [Take.all, Nat.not_le] at h; simp [Take.taken]; omega
  | wouldBlock => simp only [Take.all] at h; simp only [Take.taken, List.length_nil]; omega

/-- The chunk is replaced by what the socket took of it; what is behind it stays. -/
def Writes (w : Take) (chunk before after : Bytes) : Prop :=
  ∃ pre rest, before = pre ++ chunk ++ rest ∧ after = pre ++ w.taken chunk ++ rest

theorem Writes.none (w : Take) (b : Bytes) : Writes w [] b b := ⟨b, [], by simp, by simp⟩

theorem Writes.keep {w : Take} {chunk before after : Bytes} (h : Writes w chunk before after)
    (ha : w.all chunk.length) : after = before := by
  obtain ⟨pre, rest, rfl, rfl⟩ := h
  rw [taken_all ha]

theorem Writes.lose {w : Take} {chunk before after : Bytes} (h : Writes w chunk before after)
    (ha : ¬ w.all chunk.length) : after.length < before.length := by
  obtain ⟨pre, rest, rfl, rfl⟩ := h
  have := taken_short ha
  simp only [List.length_append]; omega

theorem Writes.length_le {w : Take} {chunk before after : Bytes} (h : Writes w chunk before after) :
    after.length ≤ before.length := by
  by_cases ha : w.all chunk.length
  · exact Nat.le_of_eq (by rw [h.keep ha])
  · exact Nat.le_of_lt (h.lose ha)

theorem writeData_writes (c : TcpConnection) (w : Take) :
    Writes w (chunk c) (held c) (held (c.writeData w.res true)) := by
  unfold writeData chunk
  split
  · exact ⟨c.wire, c.writeBufferWaiting, rfl, by rw [writeChunk_held]; simp [wire]⟩
  · rename_i hs
    have hs : c.writeBufferSending = [] := List.eq_nil_of_length_eq_zero (by omega)
    split
    · exact ⟨c.wire, [], by simp [held, hs], by rw [writeChunk_held, hs]; simp [wire]⟩
    · rename_i hw
      have hw : c.writeBufferWaiting = [] := List.eq_nil_of_length_eq_zero (by omega)
      rw [hw]; exact Writes.none w _

theorem send_writes (c : TcpConnection) (bytes : Bytes) (w : Take) :
    Writes w (offered c (.send bytes w (c.send bytes w.res true).2))
      (held c ++ Move.sent (.send bytes w (c.send bytes w.res true).2)) (held (c.send bytes w.res true).1) := by
  by_cases he : c.writeEnabled = false
  · simpa [send, offered, Move.sent, he] using Writes.none w (held c)
  · by_cases hl : bytes.length = 0
    · simpa [send, offered, Move.sent, he, hl] using Writes.none w (held c)
    · have h := writeData_writes { c with writeBufferWaiting := c.writeBufferWaiting ++ bytes } w
      have hpos : 0 < bytes.length := Nat.pos_of_ne_zero hl
      have hs : c.send bytes w.res true =
          (writeData { c with writeBufferWaiting := c.writeBufferWaiting ++ bytes } w.res true, bytes.length) := by
        rw [send, if_neg he, if_neg hl]
      have hh : held { c with writeBufferWaiting := c.writeBufferWaiting ++ bytes } = held c ++ bytes := by
        simp [held, wire]
      rw [hs, offered, if_neg (by simp [he, hl]), Move.sent, if_pos hpos, ← hh]
      exact h

theorem chunk_same {c d : TcpConnection} (h : Same c d) : chunk d = chunk c := by
  simp only [chunk, h.2.1, h.2.2]

theorem handleWrite_writes (c : TcpConnection) (w : Take) :
    Writes w (chunk c) (held c) (held (handleWrite c w.res true)) := by
  unfold handleWrite
  split
  · rename_i h
    have hc : chunk c = [] := by
      rw [chunk, if_neg (by omega)]; exact List.eq_nil_of_length_eq_zero h.1
    rw [hc]; exact Writes.none w _
  · exact writeData_writes c w

theorem event_writes (c : TcpConnection) (word : BitVec 64) (reads : ReadScript) (w : Take)
    (hw : Ready.isWritable ⟨word⟩ = true) :
    Writes w (chunk c) (held c) (held (c.handleEvent word ⟨reads, w.res, true⟩)) := by
  have hread : ∀ b : Bool, Same c (if b then handleRead { c with readTriggered := true } reads else c) := by
    intro b
    cases b
    · exact .refl c
    · exact Same.trans (b := { c with readTriggered := true }) ⟨rfl, rfl, rfl⟩ (handleRead_same _ _)
  have hend : ∀ (b : Bool) (d : TcpConnection), Same d (if b then
      handleClose { d with readTriggered := true, writeTriggered := true } else d) := by
    intro b d
    cases b
    · exact .refl d
    · exact Same.trans (b := { d with readTriggered := true, writeTriggered := true }) ⟨rfl, rfl, rfl⟩ (handleClose_same _)
  simp only [handleEvent, hw, if_true]
  rw [(hend _ _).held]
  have h := handleWrite_writes
    { (if Ready.isReadable ⟨word⟩ then handleRead { c with readTriggered := true } reads else c) with
      writeTriggered := true } w
  have hs := Same.trans (hread (Ready.isReadable ⟨word⟩))
    (c := { (if Ready.isReadable ⟨word⟩ then handleRead { c with readTriggered := true } reads else c) with
      writeTriggered := true }) ⟨rfl, rfl, rfl⟩
  rwa [chunk_same hs, hs.held] at h

/-- One move replaces the chunk it offers, at the front of what is not yet accepted, by
    what the socket takes of it. -/
theorem step_writes {c d : TcpConnection} {m : Move} (h : Step c m d) :
    Writes m.take (offered c m) (held c ++ m.sent) (held d) := by
  cases h with
  | send bytes w _ => exact send_writes c bytes w
  | event word reads w _ hw => simpa [Move.sent, Move.take, offered] using event_writes c word reads w hw

/-! ## Runs -/

theorem sent_snoc (τ : List Move) (m : Move) : sent (τ ++ [m]) = sent τ ++ m.sent := by simp [sent]

/-- A run whose writes all took their chunk is intact; any other has fewer bytes than
    were sent, for good. -/
theorem run_intact_or_short {τ : List Move} {c : TcpConnection} (h : Run moves τ c) :
    (Run (moves.restrict TakesAll) τ c ∧ Intact τ c) ∨ (held c).length < (sent τ).length := by
  induction h with
  | init hi => cases hi; exact .inl ⟨.init rfl, rfl⟩
  | @step τ c d m _ hs ih =>
    have hw := step_writes hs
    rcases ih with ⟨hr, hi⟩ | hlt
    · by_cases ha : TakesAll c m
      · exact .inl ⟨.step hr ⟨hs, ha⟩, by rw [Intact, hw.keep ha, sent_snoc, hi]⟩
      · right
        have := hw.lose ha
        rwa [hi, ← sent_snoc] at this
    · right
      have := hw.length_le
      rw [sent_snoc]; simp only [List.length_append] at this ⊢; omega

theorem run_intact {τ : List Move} {c : TcpConnection} (h : Run (moves.restrict TakesAll) τ c) : Intact τ c := by
  induction h with
  | init hi => cases hi; rfl
  | step _ hs ih => rw [Intact, (step_writes hs.1).keep hs.2, sent_snoc, ih]

/-- After a run the accepted bytes, then those being sent, then those waiting are the
    bytes sent, in order, exactly when each write of the run took the whole chunk it
    was offered. -/
theorem stream_intact_iff {τ : List Move} {c : TcpConnection} (h : Run moves τ c) :
    c.wire ++ c.writeBufferSending ++ c.writeBufferWaiting = sent τ ↔ Run (moves.restrict TakesAll) τ c := by
  refine ⟨fun hi => ?_, fun hr => run_intact hr⟩
  rcases run_intact_or_short h with ⟨hr, _⟩ | hlt
  · exact hr
  · rw [← hi] at hlt; exact absurd hlt (Nat.lt_irrefl _)

/-- One `send` of three bytes, all taken. -/
theorem stream_intact_iff_full_write :
    let c := (new.send [1, 2, 3] (.ok 3) true).1
    c.wire ++ c.writeBufferSending ++ c.writeBufferWaiting = sent [.send [1, 2, 3] (.upTo 3) 3] ↔
      Run (moves.restrict TakesAll) [.send [1, 2, 3] (.upTo 3) 3] c :=
  stream_intact_iff (.step (.init rfl) (.send new [1, 2, 3] (.upTo 3) rfl))

/-- A socket that takes one of three bytes: the other two are in no buffer and are never
    written. -/
theorem a_short_write_loses_the_rest :
    ¬ ∀ (τ : List Move) (c : TcpConnection), Run moves τ c →
      c.wire ++ c.writeBufferSending ++ c.writeBufferWaiting = sent τ := by
  intro h
  have h := h _ _ (.step (.init rfl) (.send new [1, 2, 3] (.upTo 1) rfl))
  exact absurd h (by decide)

end Sickle.Net
