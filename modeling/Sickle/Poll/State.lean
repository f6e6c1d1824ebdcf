/-
  Sickle.Poll.State — the packed state word of a readiness node (`ReadinessState`).

  One `usize` holds the readiness, the interest and the options in four bits each, the
  two token positions in two bits each, and the QUEUED and DROPPED flags. `set` writes a
  field without masking the value, so what a setter keeps of the rest of the word rests
  on the value being within its field.

  - `queued_of_ready`: `set_readiness` and `update` never store something ready without
    QUEUED, and never clear the flag; `poll_queued`: when `poll` leaves it set.
  - none of the three changes DROPPED.
-/

import Sickle.Event
import Sickle.Lib.Word

namespace Sickle.Poll

open Sickle.Lib Sickle.Lib.Word

def READINESS_SHIFT : Nat := 0
def INTEREST_SHIFT : Nat := 4
def POLL_OPT_SHIFT : Nat := 8
def TOKEN_RD_SHIFT : Nat := 12
def TOKEN_WR_SHIFT : Nat := 14
def QUEUED_SHIFT : Nat := 16
def DROPPED_SHIFT : Nat := 17

def MASK_2 : BitVec 64 := 4#64 - 1#64
def MASK_4 : BitVec 64 := 16#64 - 1#64
def QUEUED_MASK : BitVec 64 := 1#64 <<< QUEUED_SHIFT
def DROPPED_MASK : BitVec 64 := 1#64 <<< DROPPED_SHIFT

structure ReadinessState where
  bits : BitVec 64
  deriving DecidableEq, Repr

namespace ReadinessState

def new (interest : Ready) (opt : PollOpt) : ReadinessState :=
  ⟨interest.bits <<< INTEREST_SHIFT ||| opt.bits <<< POLL_OPT_SHIFT⟩

def get (s : ReadinessState) (mask : BitVec 64) (shift : Nat) : BitVec 64 := field s.bits mask shift
def set (s : ReadinessState) (val mask : BitVec 64) (shift : Nat) : ReadinessState := ⟨put s.bits val mask shift⟩

def readiness (s : ReadinessState) : Ready := ⟨s.get MASK_4 READINESS_SHIFT⟩
def interest (s : ReadinessState) : Ready := ⟨s.get MASK_4 INTEREST_SHIFT⟩
def pollOpt (s : ReadinessState) : PollOpt := ⟨s.get MASK_4 POLL_OPT_SHIFT⟩
def effectiveReadiness (s : ReadinessState) : Ready := s.readiness.and s.interest

def setReadiness (s : ReadinessState) (v : Ready) : ReadinessState := s.set v.bits MASK_4 READINESS_SHIFT
def setInterest (s : ReadinessState) (v : Ready) : ReadinessState := s.set v.bits MASK_4 INTEREST_SHIFT
def setPollOpt (s : ReadinessState) (v : PollOpt) : ReadinessState := s.set v.bits MASK_4 POLL_OPT_SHIFT
def disarm (s : ReadinessState) : ReadinessState := s.setInterest Ready.empty

def isQueued (s : ReadinessState) : Bool := s.bits &&& QUEUED_MASK == QUEUED_MASK
def isDropped (s : ReadinessState) : Bool := s.bits &&& DROPPED_MASK == DROPPED_MASK
def setQueued (s : ReadinessState) : ReadinessState := ⟨s.bits ||| QUEUED_MASK⟩
def setDequeued (s : ReadinessState) : ReadinessState := ⟨s.bits &&& ~~~QUEUED_MASK⟩

def tokenReadPos (s : ReadinessState) : BitVec 64 := s.get MASK_2 TOKEN_RD_SHIFT
def tokenWritePos (s : ReadinessState) : BitVec 64 := s.get MASK_2 TOKEN_WR_SHIFT
def setTokenWritePos (s : ReadinessState) (val : BitVec 64) : ReadinessState := s.set val MASK_2 TOKEN_WR_SHIFT
def updateTokenReadPos (s : ReadinessState) : ReadinessState := s.set s.tokenWritePos MASK_2 TOKEN_RD_SHIFT

/-- `none` where the source is `unreachable!()`. -/
def nextTokenPos (s : ReadinessState) : Option (BitVec 64) :=
  match s.tokenWritePos.toNat, s.tokenReadPos.toNat with
  | 0, 1 => some 2#64
  | 0, 2 => some 1#64
  | 0, 0 => some 1#64
  | 1, 0 => some 2#64
  | 1, 2 => some 0#64
  | 1, 1 => some 2#64
  | 2, 0 => some 1#64
  | 2, 1 => some 0#64
  | 2, 2 => some 0#64
  | _, _ => none

/-- The word after `flag_as_dropped`. -/
def flagged (s : ReadinessState) : ReadinessState := ⟨s.bits ||| (DROPPED_MASK ||| QUEUED_MASK)⟩

/-- `if !next.effective_readiness().is_empty() { next.set_queued() }` -/
def queueIfReady (next : ReadinessState) : ReadinessState :=
  if next.effectiveReadiness.isEmpty then next else next.setQueued

/-- What `RegistrationInner::set_readiness` tries to store over `state`. -/
def setReadinessNext (state : ReadinessState) (ready : Ready) : ReadinessState :=
  (state.setReadiness ready).queueIfReady

/-- What `RegistrationInner::update` tries to store over `state`. -/
def updateNext (state : ReadinessState) (nextTokenPos : BitVec 64) (interest : Ready) (opt : PollOpt) : ReadinessState :=
  (((state.setTokenWritePos nextTokenPos).setInterest interest).setPollOpt opt).queueIfReady

/-- What `ReadinessQueue::poll` tries to store over `state`, which is not dropped. -/
def pollNext (state : ReadinessState) : ReadinessState :=
  (if state.pollOpt.isEdge then
      if state.pollOpt.isOneshot && !state.effectiveReadiness.isEmpty then state.setDequeued.disarm
      else state.setDequeued
    else if state.effectiveReadiness.isEmpty then state.setDequeued
    else state).updateTokenReadPos

/-! ## The flags -/

theorem isQueued_eq (s : ReadinessState) : s.isQueued = s.bits.getLsbD QUEUED_SHIFT := test_bit (by decide)

theorem isDropped_eq (s : ReadinessState) : s.isDropped = s.bits.getLsbD DROPPED_SHIFT := test_bit (by decide)

theorem queued_bit (i : Nat) : QUEUED_MASK.getLsbD i = decide (i = QUEUED_SHIFT) := bit_mask (by decide)

theorem dropped_bit (i : Nat) : DROPPED_MASK.getLsbD i = decide (i = DROPPED_SHIFT) := bit_mask (by decide)

@[simp] theorem isQueued_setQueued (s : ReadinessState) : s.setQueued.isQueued = true := by
  rw [isQueued_eq]
  unfold setQueued
  rw [BitVec.getLsbD_or, queued_bit, decide_eq_true rfl, Bool.or_true]

@[simp] theorem isDropped_setQueued (s : ReadinessState) : s.setQueued.isDropped = s.isDropped := by
  rw [isDropped_eq, isDropped_eq]
  unfold setQueued
  rw [BitVec.getLsbD_or, queued_bit, decide_eq_false (by decide), Bool.or_false]

@[simp] theorem isQueued_setDequeued (s : ReadinessState) : s.setDequeued.isQueued = false := by
  rw [isQueued_eq]
  unfold setDequeued
  rw [BitVec.getLsbD_and, BitVec.getLsbD_not, queued_bit, decide_eq_true rfl, Bool.not_true, Bool.and_false,
    Bool.and_false]

@[simp] theorem isDropped_setDequeued (s : ReadinessState) : s.setDequeued.isDropped = s.isDropped := by
  rw [isDropped_eq, isDropped_eq]
  unfold setDequeued
  rw [BitVec.getLsbD_and, BitVec.getLsbD_not, queued_bit, decide_eq_true (by decide : DROPPED_SHIFT < 64),
    decide_eq_false (by decide : DROPPED_SHIFT ≠ QUEUED_SHIFT), Bool.not_false, Bool.and_true, Bool.and_true]

@[simp] theorem isQueued_flagged (s : ReadinessState) : s.flagged.isQueued = true := by
  rw [isQueued_eq]
  unfold flagged
  rw [BitVec.getLsbD_or, BitVec.getLsbD_or, queued_bit, decide_eq_true rfl, Bool.or_true, Bool.or_true]

@[simp] theorem isDropped_flagged (s : ReadinessState) : s.flagged.isDropped = true := by
  rw [isDropped_eq]
  unfold flagged
  rw [BitVec.getLsbD_or, BitVec.getLsbD_or, dropped_bit, decide_eq_true rfl, Bool.true_or, Bool.or_true]

/-! ## The fields -/

/-- A setter of a field keeps both flags. -/
theorem set_keeps_flags (s : ReadinessState) {val mask : BitVec 64} {shift : Nat} (hv : Within val mask)
    (hq : (mask <<< shift).getLsbD QUEUED_SHIFT = false) (hd : (mask <<< shift).getLsbD DROPPED_SHIFT = false) :
    (s.set val mask shift).isQueued = s.isQueued ∧ (s.set val mask shift).isDropped = s.isDropped := by
  rw [isQueued_eq, isQueued_eq, isDropped_eq, isDropped_eq]
  exact ⟨put_bit hv hq, put_bit hv hd⟩

/-- A new word has neither flag. -/
theorem new_flags {interest : Ready} {opt : PollOpt} (hi : Within interest.bits MASK_4) (ho : Within opt.bits MASK_4) :
    (new interest opt).isQueued = false ∧ (new interest opt).isDropped = false := by
  rw [isQueued_eq, isDropped_eq]
  unfold new
  constructor
  · rw [BitVec.getLsbD_or, BitVec.getLsbD_shiftLeft, BitVec.getLsbD_shiftLeft, hi.bit (by decide), ho.bit (by decide),
      Bool.and_false, Bool.and_false, Bool.or_false]
  · rw [BitVec.getLsbD_or, BitVec.getLsbD_shiftLeft, BitVec.getLsbD_shiftLeft, hi.bit (by decide), ho.bit (by decide),
      Bool.and_false, Bool.and_false, Bool.or_false]

theorem setReadiness_flags (s : ReadinessState) {v : Ready} (hv : Within v.bits MASK_4) :
    (s.setReadiness v).isQueued = s.isQueued ∧ (s.setReadiness v).isDropped = s.isDropped :=
  set_keeps_flags s hv (by decide) (by decide)

theorem setInterest_flags (s : ReadinessState) {v : Ready} (hv : Within v.bits MASK_4) :
    (s.setInterest v).isQueued = s.isQueued ∧ (s.setInterest v).isDropped = s.isDropped :=
  set_keeps_flags s hv (by decide) (by decide)

theorem setPollOpt_flags (s : ReadinessState) {v : PollOpt} (hv : Within v.bits MASK_4) :
    (s.setPollOpt v).isQueued = s.isQueued ∧ (s.setPollOpt v).isDropped = s.isDropped :=
  set_keeps_flags s hv (by decide) (by decide)

theorem setTokenWritePos_flags (s : ReadinessState) {p : BitVec 64} (hp : Within p MASK_2) :
    (s.setTokenWritePos p).isQueued = s.isQueued ∧ (s.setTokenWritePos p).isDropped = s.isDropped :=
  set_keeps_flags s hp (by decide) (by decide)

theorem tokenWritePos_within (s : ReadinessState) : Within s.tokenWritePos MASK_2 := field_within ..

theorem disarm_flags (s : ReadinessState) : s.disarm.isQueued = s.isQueued ∧ s.disarm.isDropped = s.isDropped :=
  setInterest_flags s (by decide)

theorem updateTokenReadPos_flags (s : ReadinessState) :
    s.updateTokenReadPos.isQueued = s.isQueued ∧ s.updateTokenReadPos.isDropped = s.isDropped :=
  set_keeps_flags s s.tokenWritePos_within (by decide) (by decide)

theorem interest_setReadiness (s : ReadinessState) {v : Ready} (hv : Within v.bits MASK_4) :
    (s.setReadiness v).interest = s.interest :=
  congrArg Ready.mk (field_put_of_disjoint hv (by decide))

theorem interest_setQueued (s : ReadinessState) : s.setQueued.interest = s.interest := by
  have h : (QUEUED_MASK >>> INTEREST_SHIFT) &&& MASK_4 = 0#64 := by decide
  unfold interest get field setQueued
  rw [BitVec.ushiftRight_or_distrib, BitVec.and_or_distrib_right, h, BitVec.or_zero]

theorem readiness_setQueued (s : ReadinessState) : s.setQueued.readiness = s.readiness := by
  have h : (QUEUED_MASK >>> READINESS_SHIFT) &&& MASK_4 = 0#64 := by decide
  unfold readiness get field setQueued
  rw [BitVec.ushiftRight_or_distrib, BitVec.and_or_distrib_right, h, BitVec.or_zero]

theorem effectiveReadiness_setQueued (s : ReadinessState) : s.setQueued.effectiveReadiness = s.effectiveReadiness := by
  unfold effectiveReadiness
  rw [readiness_setQueued, interest_setQueued]

/-- With no interest nothing is ready. -/
theorem effectiveReadiness_of_no_interest {s : ReadinessState} (h : s.interest = Ready.empty) :
    s.effectiveReadiness = Ready.empty := by
  unfold effectiveReadiness
  rw [h]
  exact congrArg Ready.mk BitVec.and_zero

theorem get_set {s : ReadinessState} {val mask : BitVec 64} {shift : Nat} (hv : Within val mask)
    (hm : (mask <<< shift) >>> shift = mask) : (s.set val mask shift).get mask shift = val := field_put hv hm

/-- A setter of another field keeps this one. -/
theorem get_set_of_disjoint {s : ReadinessState} {val mask mask' : BitVec 64} {shift shift' : Nat} (hv : Within val mask)
    (hd : mask <<< shift &&& mask' <<< shift' = 0) : (s.set val mask shift).get mask' shift' = s.get mask' shift' :=
  field_put_of_disjoint hv hd

theorem get_queueIfReady {s : ReadinessState} {mask : BitVec 64} {shift : Nat} (h : (QUEUED_MASK >>> shift) &&& mask = 0#64) :
    s.queueIfReady.get mask shift = s.get mask shift := by
  unfold queueIfReady
  split
  · rfl
  · unfold get field setQueued
    rw [BitVec.ushiftRight_or_distrib, BitVec.and_or_distrib_right, h, BitVec.or_zero]

theorem nextTokenPos_within {s : ReadinessState} {p : BitVec 64} (h : s.nextTokenPos = some p) : Within p MASK_2 := by
  unfold nextTokenPos at h
  split at h
  case h_10 => cases h
  all_goals cases h; decide

/-! ## The three transitions -/

theorem isQueued_queueIfReady (next : ReadinessState) :
    next.queueIfReady.isQueued = (next.isQueued || !next.effectiveReadiness.isEmpty) := by
  unfold queueIfReady
  split
  next h => rw [h, Bool.not_true, Bool.or_false]
  next h => rw [isQueued_setQueued, Bool.eq_false_iff.mpr h, Bool.not_false, Bool.or_true]

@[simp] theorem isDropped_queueIfReady (next : ReadinessState) : next.queueIfReady.isDropped = next.isDropped := by
  unfold queueIfReady
  split
  next => rfl
  next => exact isDropped_setQueued next

@[simp] theorem effectiveReadiness_queueIfReady (next : ReadinessState) :
    next.queueIfReady.effectiveReadiness = next.effectiveReadiness := by
  unfold queueIfReady
  split
  next => rfl
  next => rw [effectiveReadiness_setQueued]

/-- What is stored with something ready is stored queued. -/
theorem queued_of_ready {next : ReadinessState} (h : next.queueIfReady.effectiveReadiness ≠ Ready.empty) :
    next.queueIfReady.isQueued = true := by
  rw [effectiveReadiness_queueIfReady] at h
  have he : next.effectiveReadiness.isEmpty = false := beq_eq_false_iff_ne.mpr h
  rw [isQueued_queueIfReady, he, Bool.not_false, Bool.or_true]

theorem set_readiness_dropped (state : ReadinessState) {ready : Ready} (hr : Within ready.bits MASK_4) :
    (state.setReadinessNext ready).isDropped = state.isDropped :=
  (isDropped_queueIfReady _).trans (state.setReadiness_flags hr).2

/-- `set_readiness` never takes a node off the queue. -/
theorem set_readiness_keeps_queued {state : ReadinessState} {ready : Ready} (hr : Within ready.bits MASK_4)
    (hq : state.isQueued = true) : (state.setReadinessNext ready).isQueued = true := by
  unfold setReadinessNext
  rw [isQueued_queueIfReady, (state.setReadiness_flags hr).1, hq, Bool.true_or]

/-- Signalling a node that nobody has an interest in does not queue it. -/
theorem set_readiness_no_interest {state : ReadinessState} {ready : Ready} (hr : Within ready.bits MASK_4)
    (h : state.interest = Ready.empty) :
    (state.setReadinessNext ready).interest = Ready.empty ∧
      (state.setReadinessNext ready).isQueued = state.isQueued := by
  have hi : (state.setReadiness ready).interest = Ready.empty := (interest_setReadiness state hr).trans h
  have he := effectiveReadiness_of_no_interest hi
  unfold setReadinessNext queueIfReady
  rw [he]
  exact ⟨hi, (state.setReadiness_flags hr).1⟩

theorem update_flags (state : ReadinessState) {pos : BitVec 64} {interest : Ready} {opt : PollOpt}
    (hp : Within pos MASK_2) (hi : Within interest.bits MASK_4) (ho : Within opt.bits MASK_4) :
    (((state.setTokenWritePos pos).setInterest interest).setPollOpt opt).isQueued = state.isQueued ∧
      (((state.setTokenWritePos pos).setInterest interest).setPollOpt opt).isDropped = state.isDropped := by
  obtain ⟨hq₁, hd₁⟩ := state.setTokenWritePos_flags hp
  obtain ⟨hq₂, hd₂⟩ := (state.setTokenWritePos pos).setInterest_flags hi
  obtain ⟨hq₃, hd₃⟩ := ((state.setTokenWritePos pos).setInterest interest).setPollOpt_flags ho
  exact ⟨hq₃.trans (hq₂.trans hq₁), hd₃.trans (hd₂.trans hd₁)⟩

theorem update_dropped (state : ReadinessState) {pos : BitVec 64} {interest : Ready} {opt : PollOpt}
    (hp : Within pos MASK_2) (hi : Within interest.bits MASK_4) (ho : Within opt.bits MASK_4) :
    (state.updateNext pos interest opt).isDropped = state.isDropped :=
  (isDropped_queueIfReady _).trans (state.update_flags hp hi ho).2

/-- Neither does `update`. -/
theorem update_keeps_queued {state : ReadinessState} {pos : BitVec 64} {interest : Ready} {opt : PollOpt}
    (hp : Within pos MASK_2) (hi : Within interest.bits MASK_4) (ho : Within opt.bits MASK_4)
    (hq : state.isQueued = true) : (state.updateNext pos interest opt).isQueued = true := by
  unfold updateNext
  rw [isQueued_queueIfReady, (state.update_flags hp hi ho).1, hq, Bool.true_or]

/-- A node stays queued after its turn exactly when it is level triggered and ready. -/
theorem poll_queued (state : ReadinessState) :
    state.pollNext.isQueued = (state.isQueued && !state.pollOpt.isEdge && !state.effectiveReadiness.isEmpty) := by
  unfold pollNext
  rw [(updateTokenReadPos_flags _).1]
  split
  next h =>
    rw [h, Bool.not_true, Bool.and_false, Bool.false_and]
    split
    next => rw [(disarm_flags _).1, isQueued_setDequeued]
    next => exact isQueued_setDequeued state
  next h =>
    rw [Bool.eq_false_iff.mpr h, Bool.not_false, Bool.and_true]
    split
    next he => rw [isQueued_setDequeued, he, Bool.not_true, Bool.and_false]
    next he => rw [Bool.eq_false_iff.mpr he, Bool.not_false, Bool.and_true]

theorem poll_dropped (state : ReadinessState) : state.pollNext.isDropped = state.isDropped := by
  unfold pollNext
  rw [(updateTokenReadPos_flags _).2]
  split
  next =>
    split
    next => rw [(disarm_flags _).2, isDropped_setDequeued]
    next => exact isDropped_setDequeued state
  next =>
    split
    next => exact isDropped_setDequeued state
    next => rfl

/-! ## What the transitions write -/

/-- `set_readiness` writes the readiness and keeps the other fields. -/
theorem set_readiness_fields (state : ReadinessState) {ready : Ready} (hr : Within ready.bits MASK_4) :
    (state.setReadinessNext ready).readiness = ready ∧ (state.setReadinessNext ready).interest = state.interest ∧
      (state.setReadinessNext ready).pollOpt = state.pollOpt ∧
      (state.setReadinessNext ready).tokenWritePos = state.tokenWritePos := by
  unfold setReadinessNext
  refine ⟨?_, ?_, ?_, ?_⟩
  · exact congrArg Ready.mk ((get_queueIfReady (by decide)).trans (get_set hr (by decide)))
  · exact congrArg Ready.mk ((get_queueIfReady (by decide)).trans (get_set_of_disjoint hr (by decide)))
  · exact congrArg PollOpt.mk ((get_queueIfReady (by decide)).trans (get_set_of_disjoint hr (by decide)))
  · exact (get_queueIfReady (by decide)).trans (get_set_of_disjoint hr (by decide))

/-- `update` writes the position, the interest and the options, and keeps the readiness. -/
theorem update_fields (state : ReadinessState) {pos : BitVec 64} {interest : Ready} {opt : PollOpt} (hp : Within pos MASK_2)
    (hi : Within interest.bits MASK_4) (ho : Within opt.bits MASK_4) :
    (state.updateNext pos interest opt).readiness = state.readiness ∧
      (state.updateNext pos interest opt).interest = interest ∧ (state.updateNext pos interest opt).pollOpt = opt ∧
      (state.updateNext pos interest opt).tokenWritePos = pos := by
  unfold updateNext
  refine ⟨congrArg Ready.mk ?_, congrArg Ready.mk ?_, congrArg PollOpt.mk ?_, ?_⟩
  · exact (get_queueIfReady (by decide)).trans ((get_set_of_disjoint ho (by decide)).trans
      ((get_set_of_disjoint hi (by decide)).trans (get_set_of_disjoint hp (by decide))))
  · exact (get_queueIfReady (by decide)).trans ((get_set_of_disjoint ho (by decide)).trans (get_set hi (by decide)))
  · exact (get_queueIfReady (by decide)).trans (get_set ho (by decide))
  · exact (get_queueIfReady (by decide)).trans ((get_set_of_disjoint ho (by decide)).trans
      ((get_set_of_disjoint hi (by decide)).trans (get_set hp (by decide))))

end ReadinessState

end Sickle.Poll
