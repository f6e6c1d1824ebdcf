/-
  Sickle.Poll.Fields — which fields of the state word each transition changes.

  `Ready` and `PollOpt` are as wide as the word, their fields four bits: what a value has
  beyond its field goes into whatever is above. `setReadinessWord` is `set_readiness`
  on the word, `updateNext` what `update` does to it.

  - `fields_apart`: which values stay in their fields, for every word.
  - `priority_leaks`: `UnixReady::priority` as a readiness changes the interest.
  - `poll_keeps`, `poll_tokenReadPos`, `poll_interest`: what `poll` does to the fields.
-/

import Sickle.Poll.State

namespace Sickle.Poll.ReadinessState

open Sickle.Lib Sickle.Lib.Word

def READINESS_FIELD : BitVec 64 := MASK_4 <<< READINESS_SHIFT
def INTEREST_FIELD : BitVec 64 := MASK_4 <<< INTEREST_SHIFT
def POLL_OPT_FIELD : BitVec 64 := MASK_4 <<< POLL_OPT_SHIFT
def TOKEN_WR_FIELD : BitVec 64 := MASK_2 <<< TOKEN_WR_SHIFT

/-- What `set_readiness` may change, `update`, and `ReadinessState::new` on a word of zeros. -/
def SET_READINESS_FIELDS : BitVec 64 := READINESS_FIELD ||| QUEUED_MASK
def UPDATE_FIELDS : BitVec 64 := TOKEN_WR_FIELD ||| INTEREST_FIELD ||| POLL_OPT_FIELD ||| QUEUED_MASK
def NEW_FIELDS : BitVec 64 := INTEREST_FIELD ||| POLL_OPT_FIELD

/-- The word after a call of `set_readiness`. -/
def setReadinessWord (state : ReadinessState) (ready : Ready) : ReadinessState :=
  if state.isDropped then state else state.setReadinessNext ready

/-- Only the readiness and QUEUED differ. -/
structure OnlyReadiness (state next : ReadinessState) : Prop where
  frame : SameOutside SET_READINESS_FIELDS next.bits state.bits
  interest : next.interest = state.interest
  pollOpt : next.pollOpt = state.pollOpt
  tokenReadPos : next.tokenReadPos = state.tokenReadPos
  tokenWritePos : next.tokenWritePos = state.tokenWritePos
  isDropped : next.isDropped = state.isDropped

/-! ## What the transitions keep -/

theorem get_setDequeued {s : ReadinessState} {mask : BitVec 64} {shift : Nat} (h : (~~~QUEUED_MASK >>> shift) &&& mask = mask) :
    s.setDequeued.get mask shift = s.get mask shift := by
  unfold get field setDequeued
  rw [BitVec.ushiftRight_and_distrib, BitVec.and_assoc, h]

theorem get_flagged {s : ReadinessState} {mask : BitVec 64} {shift : Nat}
    (h : ((DROPPED_MASK ||| QUEUED_MASK) >>> shift) &&& mask = 0#64) : s.flagged.get mask shift = s.get mask shift := by
  unfold get field flagged
  rw [BitVec.ushiftRight_or_distrib, BitVec.and_or_distrib_right, h, BitVec.or_zero]

theorem tokenReadPos_updateTokenReadPos (s : ReadinessState) : s.updateTokenReadPos.tokenReadPos = s.tokenWritePos :=
  field_put s.tokenWritePos_within (by decide)

/-- `poll` keeps the fields but the read position and the interest. -/
theorem poll_keeps (state : ReadinessState) {mask : BitVec 64} {shift : Nat} (hr : MASK_2 <<< TOKEN_RD_SHIFT &&& mask <<< shift = 0)
    (hi : MASK_4 <<< INTEREST_SHIFT &&& mask <<< shift = 0) (hq : (~~~QUEUED_MASK >>> shift) &&& mask = mask) :
    state.pollNext.get mask shift = state.get mask shift := by
  have hd : state.setDequeued.get mask shift = state.get mask shift := get_setDequeued hq
  have ha : state.setDequeued.disarm.get mask shift = state.get mask shift := (get_set_of_disjoint (by decide) hi).trans hd
  unfold pollNext updateTokenReadPos
  rw [get_set_of_disjoint (tokenWritePos_within _) hr]
  split
  · split
    · exact ha
    · exact hd
  · split
    · exact hd
    · rfl

theorem poll_tokenWritePos (state : ReadinessState) : state.pollNext.tokenWritePos = state.tokenWritePos :=
  state.poll_keeps (by decide) (by decide) (by decide)

/-- `poll` reads the token that was written last. -/
theorem poll_tokenReadPos (state : ReadinessState) : state.pollNext.tokenReadPos = state.tokenWritePos := by
  have h : state.pollNext.tokenReadPos = state.pollNext.tokenWritePos := by
    unfold pollNext
    rw [tokenReadPos_updateTokenReadPos]
    exact (get_set_of_disjoint (tokenWritePos_within _) (by decide)).symm
  rw [h, poll_tokenWritePos]

/-- A oneshot registration with edge is disarmed by the event that it gives. -/
theorem poll_interest (state : ReadinessState) : state.pollNext.interest =
    if state.pollOpt.isEdge && state.pollOpt.isOneshot && !state.effectiveReadiness.isEmpty then Ready.empty else state.interest := by
  have hd : state.setDequeued.interest = state.interest := congrArg Ready.mk (get_setDequeued (by decide))
  have ha : state.setDequeued.disarm.interest = Ready.empty := congrArg Ready.mk (get_set (by decide) (by decide))
  have hr : ∀ s : ReadinessState, s.updateTokenReadPos.interest = s.interest := fun s =>
    congrArg Ready.mk (get_set_of_disjoint s.tokenWritePos_within (by decide))
  unfold pollNext
  rw [hr]
  by_cases he : state.pollOpt.isEdge = true
  · rw [if_pos he, he, Bool.true_and]
    split
    · exact ha
    · exact hd
  · rw [if_neg he, Bool.eq_false_iff.mpr he, Bool.false_and, Bool.false_and]
    split
    · exact hd
    · rfl

/-! ## Frames -/

theorem queueIfReady_frame {m : BitVec 64} (hm : QUEUED_MASK &&& ~~~m = 0#64) (s : ReadinessState) :
    SameOutside m s.queueIfReady.bits s.bits := by
  unfold queueIfReady
  split
  · rfl
  · exact sameOutside_add hm

/-- What no other field changes with, `set_readiness` keeps. -/
theorem onlyReadiness_of_frame {state next : ReadinessState} (h : SameOutside SET_READINESS_FIELDS next.bits state.bits) :
    OnlyReadiness state next where
  frame := h
  interest := congrArg Ready.mk (h.field (by decide))
  pollOpt := congrArg PollOpt.mk (h.field (by decide))
  tokenReadPos := h.field (by decide)
  tokenWritePos := h.field (by decide)
  isDropped := by
    rw [isDropped_eq, isDropped_eq]
    exact sameOutside_bits.mp h DROPPED_SHIFT (by decide) (by decide)

theorem set_readiness_frame (state : ReadinessState) (ready : Ready) :
    SameOutside SET_READINESS_FIELDS (state.setReadinessNext ready).bits state.bits ↔
      ready.bits &&& ~~~SET_READINESS_FIELDS &&& ~~~state.bits = 0#64 := by
  have hq : SameOutside SET_READINESS_FIELDS (state.setReadinessNext ready).bits (state.setReadiness ready).bits :=
    queueIfReady_frame (by decide) _
  have hp : SameOutside SET_READINESS_FIELDS (state.setReadiness ready).bits (state.bits ||| ready.bits <<< READINESS_SHIFT) :=
    put_outside (by decide)
  have h := hq.trans hp
  rw [show ready.bits <<< READINESS_SHIFT = ready.bits from BitVec.shiftLeft_zero _] at h
  rw [← sameOutside_or]
  exact ⟨fun h' => h.symm.trans h', fun h' => h.trans h'⟩

/-- A position within its field stays in it. -/
theorem tokenWritePos_frame (state : ReadinessState) {pos : BitVec 64} (hp : Within pos MASK_2) :
    SameOutside UPDATE_FIELDS (state.setTokenWritePos pos).bits state.bits := by
  rw [sameOutside_bits]
  intro i hi hm
  refine put_bit hp ?_
  unfold UPDATE_FIELDS at hm
  rw [BitVec.getLsbD_or, BitVec.getLsbD_or, BitVec.getLsbD_or, Bool.or_eq_false_iff, Bool.or_eq_false_iff,
    Bool.or_eq_false_iff] at hm
  exact hm.1.1.1

theorem update_frame (state : ReadinessState) {pos : BitVec 64} (hp : Within pos MASK_2) (interest : Ready) (opt : PollOpt) :
    SameOutside UPDATE_FIELDS (state.updateNext pos interest opt).bits state.bits ↔
      (interest.bits <<< INTEREST_SHIFT ||| opt.bits <<< POLL_OPT_SHIFT) &&& ~~~UPDATE_FIELDS &&& ~~~state.bits = 0#64 := by
  have hq : SameOutside UPDATE_FIELDS (state.updateNext pos interest opt).bits
      (((state.setTokenWritePos pos).setInterest interest).setPollOpt opt).bits := queueIfReady_frame (by decide) _
  have ho : SameOutside UPDATE_FIELDS (((state.setTokenWritePos pos).setInterest interest).setPollOpt opt).bits
      (((state.setTokenWritePos pos).setInterest interest).bits ||| opt.bits <<< POLL_OPT_SHIFT) := put_outside (by decide)
  have hi : SameOutside UPDATE_FIELDS ((state.setTokenWritePos pos).setInterest interest).bits
      ((state.setTokenWritePos pos).bits ||| interest.bits <<< INTEREST_SHIFT) := put_outside (by decide)
  have h : SameOutside UPDATE_FIELDS (state.updateNext pos interest opt).bits
      (state.bits ||| (interest.bits <<< INTEREST_SHIFT ||| opt.bits <<< POLL_OPT_SHIFT)) := by
    rw [← BitVec.or_assoc]
    exact (hq.trans ho).trans ((hi.trans ((state.tokenWritePos_frame hp).or _)).or _)
  rw [← sameOutside_or]
  exact ⟨fun h' => h.symm.trans h', fun h' => h.trans h'⟩

theorem new_frame (interest : Ready) (opt : PollOpt) :
    SameOutside NEW_FIELDS (new interest opt).bits 0#64 ↔
      (interest.bits <<< INTEREST_SHIFT ||| opt.bits <<< POLL_OPT_SHIFT) &&& ~~~NEW_FIELDS = 0#64 := by
  unfold SameOutside new
  rw [BitVec.zero_and]

/-- For every word and all values: `set_readiness` changes only the readiness and QUEUED
    exactly when each flag of the value beyond the four is QUEUED's, or set in the word
    already, or the registration is dropped; `update` changes only the write position,
    the interest, the options and QUEUED, and `new` sets only the interest and the
    options, exactly when the same goes for what they write. -/
theorem fields_apart (state : ReadinessState) (ready : Ready) (pos : { p : BitVec 64 // Within p MASK_2 }) (interest : Ready)
    (opt : PollOpt) :
    (OnlyReadiness state (state.setReadinessWord ready) ↔
      state.isDropped = true ∨ ready.bits &&& ~~~SET_READINESS_FIELDS &&& ~~~state.bits = 0#64) ∧
    (SameOutside UPDATE_FIELDS (state.updateNext pos interest opt).bits state.bits ↔
      (interest.bits <<< INTEREST_SHIFT ||| opt.bits <<< POLL_OPT_SHIFT) &&& ~~~UPDATE_FIELDS &&& ~~~state.bits = 0#64) ∧
    (SameOutside NEW_FIELDS (new interest opt).bits 0#64 ↔
      (interest.bits <<< INTEREST_SHIFT ||| opt.bits <<< POLL_OPT_SHIFT) &&& ~~~NEW_FIELDS = 0#64) := by
  refine ⟨?_, state.update_frame pos.2 interest opt, new_frame interest opt⟩
  unfold setReadinessWord
  by_cases hd : state.isDropped = true
  · rw [if_pos hd]
    exact ⟨fun _ => .inl hd, fun _ => onlyReadiness_of_frame rfl⟩
  · rw [if_neg hd, ← set_readiness_frame]
    constructor
    · intro h
      exact .inr h.frame
    · rintro (h | h)
      · exact absurd h hd
      · exact onlyReadiness_of_frame h

/-- A registration for reading that is signalled with `UnixReady::priority`, and then has
    an interest in errors too. -/
theorem priority_leaks : ¬ ∀ (state : ReadinessState) (ready : Ready), OnlyReadiness state (state.setReadinessWord ready) := by
  intro h
  have h := (h (new Ready.readable PollOpt.edge) UnixReady.priority).interest
  exact absurd h (by decide)

end Sickle.Poll.ReadinessState
