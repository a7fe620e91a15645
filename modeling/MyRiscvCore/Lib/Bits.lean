import Mathlib.Data.Nat.Bitwise

/-!
# Bits — fields of a word

A field of a word is `extractLsb'`. Programs take it by a shift and a mask, and compare it with a number;
the lemmas turn both into statements about the field.
-/

namespace Bits

variable {w n : Nat}

/-- A shift and a mask take a field. -/
theorem shift_and_eq (v : BitVec w) (s n : Nat) :
    (v >>> s) &&& BitVec.ofNat w (2 ^ n - 1) = (v.extractLsb' s n).setWidth w := by
  refine BitVec.eq_of_getLsbD_eq fun j hj => ?_
  simp only [BitVec.getLsbD_and, BitVec.getLsbD_ushiftRight, BitVec.getLsbD_setWidth,
    BitVec.getLsbD_extractLsb', BitVec.getLsbD_ofNat, Nat.testBit_two_pow_sub_one, hj, decide_true,
    Bool.true_and]
  by_cases h : j < n <;> simp [h]

/-- A field compared with a number. -/
theorem setWidth_eq_ofNat {x : BitVec n} (hn : n ≤ w) {k : Nat} (hk : k < 2 ^ w) :
    x.setWidth w = BitVec.ofNat w k ↔ x.toNat = k := by
  have hx : x.toNat < 2 ^ w := x.isLt.trans_le (Nat.pow_le_pow_right (by decide) hn)
  rw [← BitVec.toNat_inj, BitVec.toNat_setWidth, BitVec.toNat_ofNat, Nat.mod_eq_of_lt hx,
    Nat.mod_eq_of_lt hk]

theorem toNat_setWidth_of_le {x : BitVec n} (hn : n ≤ w) : (x.setWidth w).toNat = x.toNat := by
  rw [BitVec.toNat_setWidth, Nat.mod_eq_of_lt]
  exact x.isLt.trans_le (Nat.pow_le_pow_right (by decide) hn)

/-- A word is its two parts. -/
theorem append_parts (x : BitVec (n + w)) : (x >>> w).setWidth n ++ x.setWidth w = x := by
  refine BitVec.eq_of_getLsbD_eq fun j hj => ?_
  rw [BitVec.getLsbD_append]
  by_cases h : j < w
  · simp [h]
  · rw [if_neg (by simpa using h)]
    simp only [BitVec.getLsbD_setWidth, BitVec.getLsbD_ushiftRight, show j - w < n by omega, decide_true,
      Bool.true_and]
    congr 1
    omega

end Bits
