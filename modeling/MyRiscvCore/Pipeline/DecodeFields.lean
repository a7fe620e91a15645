import MyRiscvCore.Pipeline.Pack
import MyRiscvCore.Lib.Bits
import Mathlib.Tactic.IntervalCases

/-!
# MyRiscvCore — the fields of a word

The decoder takes fields by shifts and masks and puts immediates together by hand. `opcodeOf_eq` and its
siblings say which field each of them is, `immSOf_eq` and its siblings that an immediate is the one of the
specification; the comparison of the decoder with the table is then one of fields.
-/

namespace MyRiscvCore

/-! ## Fields

The decoder shifts and masks; each of its fields is a slice of the word. -/

section Fields

variable (v : Word)

theorem opcodeOf_eq : opcodeOf v = (v.extractLsb' 0 7).setWidth 32 := by
  rw [← Bits.shift_and_eq]
  simp [opcodeOf]

theorem rdOf_eq : rdOf v = (v.extractLsb' 7 5).setWidth 32 := Bits.shift_and_eq v 7 5
theorem funct3Of_eq : funct3Of v = (v.extractLsb' 12 3).setWidth 32 := Bits.shift_and_eq v 12 3
theorem rs1Of_eq : rs1Of v = (v.extractLsb' 15 5).setWidth 32 := Bits.shift_and_eq v 15 5
theorem rs2Of_eq : rs2Of v = (v.extractLsb' 20 5).setWidth 32 := Bits.shift_and_eq v 20 5
theorem funct7Of_eq : funct7Of v = (v.extractLsb' 25 7).setWidth 32 := Bits.shift_and_eq v 25 7
theorem immIOf_eq : immIOf v = (v.extractLsb' 20 12).setWidth 32 := Bits.shift_and_eq v 20 12
theorem fmOf_eq : (v >>> 28) &&& 0x0f = (v.extractLsb' 28 4).setWidth 32 := Bits.shift_and_eq v 28 4

/-! ## Immediates

It puts an immediate together from the slices, in the order in which the specification draws them. -/

/-- The immediate of a store. -/
theorem immSOf_eq : immSOf v = (v.extractLsb' 25 7 ++ v.extractLsb' 7 5).setWidth 32 := by
  refine BitVec.eq_of_getLsbD_eq fun j hj => ?_
  simp only [immSOf, BitVec.getLsbD_or, BitVec.getLsbD_and, BitVec.getLsbD_ushiftRight,
    BitVec.getLsbD_shiftLeft, BitVec.getLsbD_setWidth, BitVec.getLsbD_append,
    BitVec.getLsbD_extractLsb']
  interval_cases j <;> simp

/-- The immediate of a branch; bit 0 is not encoded. -/
theorem immBOf_eq : immBOf v = (v.extractLsb' 31 1 ++ v.extractLsb' 7 1 ++ v.extractLsb' 25 6 ++
    v.extractLsb' 8 4 ++ 0#1).setWidth 32 := by
  refine BitVec.eq_of_getLsbD_eq fun j hj => ?_
  simp only [immBOf, BitVec.getLsbD_or, BitVec.getLsbD_and, BitVec.getLsbD_ushiftRight,
    BitVec.getLsbD_shiftLeft, BitVec.getLsbD_setWidth, BitVec.getLsbD_append,
    BitVec.getLsbD_extractLsb']
  interval_cases j <;> simp

/-- The immediate of `jal`. -/
theorem immJOf_eq : immJOf v = (v.extractLsb' 31 1 ++ v.extractLsb' 12 8 ++ v.extractLsb' 20 1 ++
    v.extractLsb' 21 10 ++ 0#1).setWidth 32 := by
  refine BitVec.eq_of_getLsbD_eq fun j hj => ?_
  simp only [immJOf, BitVec.getLsbD_or, BitVec.getLsbD_and, BitVec.getLsbD_ushiftRight,
    BitVec.getLsbD_shiftLeft, BitVec.getLsbD_setWidth, BitVec.getLsbD_append,
    BitVec.getLsbD_extractLsb']
  interval_cases j <;> simp

/-- The immediate of `lui` and `auipc`. -/
theorem immUOf_eq : immUOf v = (v.extractLsb' 12 20 ++ 0#12 : BitVec 32) := by
  refine BitVec.eq_of_getLsbD_eq fun j hj => ?_
  simp only [immUOf, BitVec.getLsbD_and, BitVec.getLsbD_not, BitVec.getLsbD_append,
    BitVec.getLsbD_extractLsb']
  interval_cases j <;> simp

end Fields

/-- The sign bit `sign_extend` takes. -/
theorem setWidth_shift_msb {n : Nat} (x : BitVec n) (hn : 0 < n) (h32 : n ≤ 32) :
    (x.setWidth 32 >>> (n - 1) : Word) = if x.msb then 1 else 0 := by
  refine BitVec.eq_of_getLsbD_eq fun j hj => ?_
  rw [BitVec.getLsbD_ushiftRight, BitVec.getLsbD_setWidth]
  by_cases hj0 : j = 0
  · subst hj0
    have hm : x.getLsbD (n - 1) = x.msb := (BitVec.msb_eq_getLsbD_last x).symm
    rw [Nat.add_zero, hm, decide_eq_true (by omega), Bool.true_and]
    cases x.msb <;> rfl
  · have hout : x.getLsbD (n - 1 + j) = false := BitVec.getLsbD_of_ge x _ (by omega)
    rw [hout, Bool.and_false]
    cases x.msb with
    | false => simp
    | true => simp [BitVec.getLsbD_one, hj0]

/-- The bits `sign_extend` sets for a negative immediate. -/
theorem getLsbD_extension {n j : Nat} (hn : 0 < n) (h32 : n ≤ 32) (hj : j < 32) :
    ((((1 : Word) <<< (32 - n)) - 1) <<< n).getLsbD j = decide (n ≤ j) := by
  have hones : ((1 : Word) <<< (32 - n)) - 1 = BitVec.ofNat 32 (2 ^ (32 - n) - 1) := by
    have hlt : 2 ^ (32 - n) < 2 ^ 32 := Nat.pow_lt_pow_right (by decide) (by omega)
    have hpos : 0 < 2 ^ (32 - n) := Nat.two_pow_pos _
    have h1 : ((1 : Word) <<< (32 - n)).toNat = 2 ^ (32 - n) := by
      rw [BitVec.toNat_shiftLeft, show (1 : Word).toNat = 1 from rfl, Nat.shiftLeft_eq, Nat.one_mul]
      exact Nat.mod_eq_of_lt hlt
    refine BitVec.eq_of_toNat_eq ?_
    rw [BitVec.toNat_sub_of_le (by rw [BitVec.le_def, h1]; exact hpos), h1, BitVec.toNat_ofNat,
      Nat.mod_eq_of_lt (by omega)]
    rfl
  rw [hones, BitVec.getLsbD_shiftLeft, BitVec.getLsbD_ofNat, Nat.testBit_two_pow_sub_one,
    decide_eq_true hj, Bool.true_and]
  by_cases h : n ≤ j
  · have hlt : ¬ j < n := by omega
    have hin : j - n < 32 - n := by omega
    have hin' : j - n < 32 := by omega
    simp [h, hlt, hin, hin']
  · have hlt : j < n := by omega
    simp [h, hlt]

/-- `sign_extend` is sign extension. -/
theorem signExtend_eq {n : Nat} (x : BitVec n) (hn : 0 < n) (h32 : n < 32) :
    signExtend (x.setWidth 32) n = x.signExtend 32 := by
  unfold signExtend
  rw [setWidth_shift_msb x hn (by omega)]
  refine BitVec.eq_of_getLsbD_eq fun j hj => ?_
  cases hm : x.msb with
  | false =>
    rw [BitVec.signExtend_eq_setWidth_of_msb_false hm]
    simp
  | true =>
    simp only [if_true, show ((1 : Word) == 0) = false from rfl, Bool.false_eq_true, if_false,
      BitVec.getLsbD_or, getLsbD_extension hn (by omega) hj, BitVec.getLsbD_setWidth,
      BitVec.getLsbD_signExtend, hj, decide_true, Bool.true_and, hm]
    by_cases h : j < n
    · have : ¬ n ≤ j := by omega
      simp [h, this]
    · have : n ≤ j := by omega
      simp [h, this]

/-! ## What the decoder reads

The same facts in the form that the decoder's records need: numbers, and extended immediates. -/

section Reads

variable (v : Word)

theorem rdOf_toNat : (rdOf v).toNat = (v.extractLsb' 7 5).toNat := by
  rw [rdOf_eq, Bits.toNat_setWidth_of_le (by decide)]
theorem rs1Of_toNat : (rs1Of v).toNat = (v.extractLsb' 15 5).toNat := by
  rw [rs1Of_eq, Bits.toNat_setWidth_of_le (by decide)]
theorem rs2Of_toNat : (rs2Of v).toNat = (v.extractLsb' 20 5).toNat := by
  rw [rs2Of_eq, Bits.toNat_setWidth_of_le (by decide)]
theorem immIOf_toNat : (immIOf v).toNat = (v.extractLsb' 20 12).toNat := by
  rw [immIOf_eq, Bits.toNat_setWidth_of_le (by decide)]

theorem signExtend_immI : signExtend (immIOf v) 12 = (v.extractLsb' 20 12).signExtend 32 := by
  rw [immIOf_eq, signExtend_eq _ (by decide) (by decide)]
theorem signExtend_immS : signExtend (immSOf v) 12 =
    (v.extractLsb' 25 7 ++ v.extractLsb' 7 5).signExtend 32 := by
  rw [immSOf_eq]
  exact signExtend_eq _ (by decide) (by decide)
theorem signExtend_immB : signExtend (immBOf v) 13 = (v.extractLsb' 31 1 ++ v.extractLsb' 7 1 ++
    v.extractLsb' 25 6 ++ v.extractLsb' 8 4 ++ 0#1).signExtend 32 := by
  rw [immBOf_eq]
  exact signExtend_eq _ (by decide) (by decide)
theorem signExtend_immJ : signExtend (immJOf v) 21 = (v.extractLsb' 31 1 ++ v.extractLsb' 12 8 ++
    v.extractLsb' 20 1 ++ v.extractLsb' 21 10 ++ 0#1).signExtend 32 := by
  rw [immJOf_eq]
  exact signExtend_eq _ (by decide) (by decide)

end Reads

section Compare

variable {v : Word} {k : Nat}

/-- A comparison of the decoder is one of a slice; this and the following for all fields that it compares. -/
theorem opcodeOf_iff (hk : k < 2 ^ 32) :
    opcodeOf v = BitVec.ofNat 32 k ↔ (v.extractLsb' 0 7).toNat = k := by
  rw [opcodeOf_eq, Bits.setWidth_eq_ofNat (by decide) hk]
theorem rdOf_iff (hk : k < 2 ^ 32) : rdOf v = BitVec.ofNat 32 k ↔ (v.extractLsb' 7 5).toNat = k := by
  rw [rdOf_eq, Bits.setWidth_eq_ofNat (by decide) hk]
theorem funct3Of_iff (hk : k < 2 ^ 32) :
    funct3Of v = BitVec.ofNat 32 k ↔ (v.extractLsb' 12 3).toNat = k := by
  rw [funct3Of_eq, Bits.setWidth_eq_ofNat (by decide) hk]
theorem rs1Of_iff (hk : k < 2 ^ 32) :
    rs1Of v = BitVec.ofNat 32 k ↔ (v.extractLsb' 15 5).toNat = k := by
  rw [rs1Of_eq, Bits.setWidth_eq_ofNat (by decide) hk]
theorem rs2Of_iff (hk : k < 2 ^ 32) :
    rs2Of v = BitVec.ofNat 32 k ↔ (v.extractLsb' 20 5).toNat = k := by
  rw [rs2Of_eq, Bits.setWidth_eq_ofNat (by decide) hk]
theorem funct7Of_iff (hk : k < 2 ^ 32) :
    funct7Of v = BitVec.ofNat 32 k ↔ (v.extractLsb' 25 7).toNat = k := by
  rw [funct7Of_eq, Bits.setWidth_eq_ofNat (by decide) hk]
theorem immIOf_iff (hk : k < 2 ^ 32) :
    immIOf v = BitVec.ofNat 32 k ↔ (v.extractLsb' 20 12).toNat = k := by
  rw [immIOf_eq, Bits.setWidth_eq_ofNat (by decide) hk]
theorem fmOf_iff (hk : k < 2 ^ 32) :
    (v >>> 28) &&& 0x0f = BitVec.ofNat 32 k ↔ (v.extractLsb' 28 4).toNat = k := by
  rw [fmOf_eq, Bits.setWidth_eq_ofNat (by decide) hk]

end Compare

/-- With `fm` zero the immediate of `fence` has no sign. -/
theorem fence_imm {v : Word} (h : (v.extractLsb' 28 4).toNat = 0) :
    immIOf v = (v.extractLsb' 20 12).signExtend 32 := by
  rw [immIOf_eq, BitVec.signExtend_eq_setWidth_of_msb_false]
  have hbits : ∀ j, (v.extractLsb' 28 4).getLsbD j = false := by
    have hz : v.extractLsb' 28 4 = 0#4 := BitVec.eq_of_toNat_eq (by simpa using h)
    intro j
    rw [hz]
    simp
  have h31 := hbits 3
  rw [BitVec.getLsbD_extractLsb'] at h31
  rw [BitVec.msb_eq_getLsbD_last, BitVec.getLsbD_extractLsb']
  simpa using h31

/-- The 12-bit field of a system instruction is `funct7` and `rs2`. -/
theorem extract_imm12 (v : Word) : (v.extractLsb' 20 12).toNat =
    (v.extractLsb' 25 7).toNat * 32 + (v.extractLsb' 20 5).toNat := by
  simp only [BitVec.extractLsb'_toNat, Nat.shiftRight_eq_div_pow]
  omega

end MyRiscvCore
