/-
  Sickle.Lib.Word — fields and flags packed in a machine word.

  A field is a mask and a shift; `put` does not mask the value it writes, so what it
  keeps of the other bits rests on the value being within the mask. A flag is one bit,
  tested by and-ing with a word that has that bit only.

  - `put_outside`: outside its field `put` only adds bits, those of the value that stray
    there; `sameOutside_or`: so it keeps them exactly when those are set already.
-/

namespace Sickle.Lib.Word

variable {w : Nat}

/-- The field at `shift` of a word. -/
def field (x mask : BitVec w) (shift : Nat) : BitVec w := (x >>> shift) &&& mask

/-- The word with the field at `shift` replaced by `val`. -/
def put (x val mask : BitVec w) (shift : Nat) : BitVec w := (x &&& ~~~(mask <<< shift)) ||| (val <<< shift)

/-- The value has no bit outside the mask. -/
def Within (val mask : BitVec w) : Prop := val &&& mask = val

instance (val mask : BitVec w) : Decidable (Within val mask) := inferInstanceAs (Decidable (_ = _))

theorem Within.bit {val mask : BitVec w} (h : Within val mask) {i : Nat} (hm : mask.getLsbD i = false) :
    val.getLsbD i = false := by
  rw [← h, BitVec.getLsbD_and, hm, Bool.and_false]

theorem field_within (x mask : BitVec w) (shift : Nat) : Within (field x mask shift) mask := by
  unfold Within field
  rw [BitVec.and_assoc, BitVec.and_self]

/-- A bit outside the field stays. -/
theorem put_bit {x val mask : BitVec w} {shift i : Nat} (hv : Within val mask)
    (hi : (mask <<< shift).getLsbD i = false) : (put x val mask shift).getLsbD i = x.getLsbD i := by
  unfold put
  by_cases hw : i < w
  · rw [BitVec.getLsbD_or, BitVec.getLsbD_and, BitVec.getLsbD_not, hi, BitVec.getLsbD_shiftLeft]
    rw [BitVec.getLsbD_shiftLeft] at hi
    by_cases hlt : i < shift
    · simp only [hw, hlt, decide_true, Bool.not_true, Bool.and_false, Bool.false_and, Bool.not_false, Bool.and_true,
        Bool.or_false]
    · have hm : mask.getLsbD (i - shift) = false := by
        simpa only [hw, hlt, decide_true, decide_false, Bool.not_false, Bool.and_true, Bool.true_and] using hi
      rw [hv.bit hm]
      simp only [hw, decide_true, Bool.not_false, Bool.and_true, Bool.and_false, Bool.or_false]
  · rw [BitVec.getLsbD_of_ge _ _ (by omega), BitVec.getLsbD_of_ge _ _ (by omega)]

/-- What was put is what is read, when the field does not run over the word's end. -/
theorem field_put {x val mask : BitVec w} {shift : Nat} (hv : Within val mask) (hm : (mask <<< shift) >>> shift = mask) :
    field (put x val mask shift) mask shift = val := by
  have hbits : ∀ i, mask.getLsbD i = true → shift + i < w := by
    intro i hi
    by_cases hlt : shift + i < w
    · exact hlt
    · rw [← hm, BitVec.getLsbD_ushiftRight, BitVec.getLsbD_of_ge _ _ (by omega)] at hi
      cases hi
  apply BitVec.eq_of_getLsbD_eq
  intro i _
  unfold field put
  rw [BitVec.getLsbD_and, BitVec.getLsbD_ushiftRight, BitVec.getLsbD_or, BitVec.getLsbD_and, BitVec.getLsbD_not,
    BitVec.getLsbD_shiftLeft, BitVec.getLsbD_shiftLeft, Nat.add_sub_cancel_left]
  by_cases hi : mask.getLsbD i = true
  · have hlt := hbits i hi
    have hge : ¬ shift + i < shift := by omega
    simp only [hi, hlt, hge, decide_true, decide_false, Bool.not_false, Bool.and_true, Bool.true_and, Bool.not_true,
      Bool.and_false, Bool.false_or]
  · have hf : mask.getLsbD i = false := by simpa using hi
    rw [hf, Bool.and_false, hv.bit hf]

/-- Another field stays. -/
theorem field_put_of_disjoint {x val mask mask' : BitVec w} {shift shift' : Nat} (hv : Within val mask)
    (hd : mask <<< shift &&& mask' <<< shift' = 0) : field (put x val mask shift) mask' shift' = field x mask' shift' := by
  apply BitVec.eq_of_getLsbD_eq
  intro i _
  unfold field
  rw [BitVec.getLsbD_and, BitVec.getLsbD_and, BitVec.getLsbD_ushiftRight, BitVec.getLsbD_ushiftRight]
  by_cases hi : mask'.getLsbD i = true
  · by_cases hlt : shift' + i < w
    · have hbit : (mask <<< shift).getLsbD (shift' + i) = false := by
        have h : (mask <<< shift &&& mask' <<< shift').getLsbD (shift' + i) = false := by
          rw [hd]
          exact BitVec.getLsbD_zero
        have hge : ¬ shift' + i < shift' := by omega
        rw [BitVec.getLsbD_and, BitVec.getLsbD_shiftLeft (x := mask'), Nat.add_sub_cancel_left, hi] at h
        simpa only [hlt, hge, decide_true, decide_false, Bool.not_false, Bool.and_true] using h
      rw [put_bit hv hbit]
    · rw [BitVec.getLsbD_of_ge (put x val mask shift) _ (by omega), BitVec.getLsbD_of_ge x _ (by omega)]
  · have hf : mask'.getLsbD i = false := by simpa using hi
    rw [hf, Bool.and_false, Bool.and_false]

/-! ## Frames -/

/-- The two words differ within the mask only. -/
def SameOutside (m x y : BitVec w) : Prop := x &&& ~~~m = y &&& ~~~m

instance (m x y : BitVec w) : Decidable (SameOutside m x y) := inferInstanceAs (Decidable (_ = _))

theorem sameOutside_bits {m x y : BitVec w} :
    SameOutside m x y ↔ ∀ i, i < w → m.getLsbD i = false → x.getLsbD i = y.getLsbD i := by
  constructor
  · intro h i hi hm
    have h := congrArg (fun b => b.getLsbD i) h
    simpa only [BitVec.getLsbD_and, BitVec.getLsbD_not, hi, hm, decide_true, Bool.not_false, Bool.and_true] using h
  · intro h
    apply BitVec.eq_of_getLsbD_eq
    intro i hi
    rw [BitVec.getLsbD_and, BitVec.getLsbD_and, BitVec.getLsbD_not]
    cases hm : m.getLsbD i with
    | true => simp only [Bool.not_true, Bool.and_false]
    | false => rw [h i hi hm]

theorem SameOutside.trans {m x y z : BitVec w} (h : SameOutside m x y) (h' : SameOutside m y z) : SameOutside m x z :=
  Eq.trans h h'

theorem SameOutside.symm {m x y : BitVec w} (h : SameOutside m x y) : SameOutside m y x := Eq.symm h

/-- A value within its field stays there. -/
theorem Within.shift {val mask m : BitVec w} {shift : Nat} (hv : Within val mask) (hm : mask <<< shift &&& ~~~m = 0#w) :
    val <<< shift &&& ~~~m = 0#w := by
  have h : val <<< shift = val <<< shift &&& mask <<< shift := by
    rw [← BitVec.shiftLeft_and_distrib, show val &&& mask = val from hv]
  rw [h, BitVec.and_assoc, hm, BitVec.and_zero]

theorem SameOutside.or {m x y : BitVec w} (h : SameOutside m x y) (v : BitVec w) : SameOutside m (x ||| v) (y ||| v) := by
  unfold SameOutside at h ⊢
  rw [BitVec.and_or_distrib_right, BitVec.and_or_distrib_right, h]

/-- What is added within the mask is no difference. -/
theorem sameOutside_add {m v x : BitVec w} (hv : v &&& ~~~m = 0#w) : SameOutside m (x ||| v) x := by
  unfold SameOutside
  rw [BitVec.and_or_distrib_right, hv, BitVec.or_zero]

/-- A field outside the mask is the same. -/
theorem SameOutside.field {m x y mask : BitVec w} {shift : Nat} (h : SameOutside m x y) (hd : (m >>> shift) &&& mask = 0#w) :
    field x mask shift = field y mask shift := by
  rw [sameOutside_bits] at h
  apply BitVec.eq_of_getLsbD_eq
  intro i _
  unfold Word.field
  rw [BitVec.getLsbD_and, BitVec.getLsbD_and, BitVec.getLsbD_ushiftRight, BitVec.getLsbD_ushiftRight]
  cases hi : mask.getLsbD i with
  | false => rw [Bool.and_false, Bool.and_false]
  | true =>
    have hm : m.getLsbD (shift + i) = false := by
      have hd := congrArg (fun b => b.getLsbD i) hd
      simpa only [BitVec.getLsbD_and, BitVec.getLsbD_ushiftRight, hi, Bool.and_true, BitVec.getLsbD_zero] using hd
    by_cases hlt : shift + i < w
    · rw [h _ hlt hm]
    · rw [BitVec.getLsbD_of_ge x _ (by omega), BitVec.getLsbD_of_ge y _ (by omega)]

/-- Outside the field `put` adds the bits of the value that stray there. -/
theorem put_outside {m x val mask : BitVec w} {shift : Nat} (hm : mask <<< shift &&& ~~~m = 0#w) :
    SameOutside m (put x val mask shift) (x ||| val <<< shift) := by
  rw [sameOutside_bits]
  intro i hi hmi
  have hf : (mask <<< shift).getLsbD i = false := by
    have hm := congrArg (fun b => b.getLsbD i) hm
    simpa only [BitVec.getLsbD_and, BitVec.getLsbD_not, hi, hmi, decide_true, Bool.not_false, Bool.and_true,
      BitVec.getLsbD_zero] using hm
  unfold put
  rw [BitVec.getLsbD_or, BitVec.getLsbD_or, BitVec.getLsbD_and, BitVec.getLsbD_not, hf, Bool.not_false, Bool.and_true,
    decide_eq_true hi, Bool.and_true]

/-- What is added makes no difference exactly when it is there already. -/
theorem sameOutside_or {m v x : BitVec w} : SameOutside m (x ||| v) x ↔ v &&& ~~~m &&& ~~~x = 0#w := by
  rw [sameOutside_bits]
  -- bit by bit: where the mask is clear, a bit that is added is there
  have bit : ∀ i, i < w → ((v &&& ~~~m &&& ~~~x).getLsbD i = false ↔
      (m.getLsbD i = false → (x ||| v).getLsbD i = x.getLsbD i)) := by
    intro i hi
    rw [BitVec.getLsbD_and, BitVec.getLsbD_and, BitVec.getLsbD_not, BitVec.getLsbD_not, BitVec.getLsbD_or, decide_eq_true hi]
    cases m.getLsbD i <;> cases x.getLsbD i <;> simp
  constructor
  · intro h
    apply BitVec.eq_of_getLsbD_eq
    intro i hi
    rw [BitVec.getLsbD_zero]
    exact (bit i hi).mpr (h i hi)
  · intro h i hi
    refine (bit i hi).mp ?_
    rw [h, BitVec.getLsbD_zero]

/-! ## Flags -/

theorem bit_mask {i j : Nat} (hi : i < w) : (1#w <<< i).getLsbD j = decide (j = i) := by
  rw [← BitVec.twoPow_eq, BitVec.getLsbD_twoPow]
  by_cases h : i = j
  · subst h
    simp [hi]
  · have hne : ¬ j = i := fun e => h e.symm
    simp [h, hne]

theorem test_bit {x : BitVec w} {i : Nat} (hi : i < w) : (x &&& 1#w <<< i == 1#w <<< i) = x.getLsbD i := by
  by_cases h : x.getLsbD i = true
  · rw [h, beq_iff_eq]
    apply BitVec.eq_of_getLsbD_eq
    intro j _
    rw [BitVec.getLsbD_and, bit_mask hi]
    by_cases hj : j = i
    · subst hj
      rw [h, Bool.true_and]
    · simp [hj]
  · have hf : x.getLsbD i = false := by simpa using h
    rw [hf, beq_eq_false_iff_ne]
    intro e
    have := congrArg (fun b => b.getLsbD i) e
    rw [BitVec.getLsbD_and, bit_mask hi, hf] at this
    simp at this

end Sickle.Lib.Word
