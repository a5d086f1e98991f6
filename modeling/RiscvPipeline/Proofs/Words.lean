import Mathlib.Data.Nat.Bitwise
import RiscvPipeline.Word

/-! Words and the bit vectors cut out of them: alignment, masks and sign extension, and fields that
are put together again. -/

namespace RiscvPipeline

namespace Word

theorem toNat_alignDown (a : Word) : a.alignDown.toNat = a.toNat - a.toNat % 8 := by
  have h : a.alignDown = (a >>> 3) <<< 3 := by
    apply BitVec.eq_of_getLsbD_eq
    intro i hi
    have h7 : (7#64).getLsbD i = decide (i < 3) := by
      rw [BitVec.getLsbD_ofNat, show (7 : Nat) = 2 ^ 3 - 1 from rfl, Nat.testBit_two_pow_sub_one]
      simp [hi]
    simp only [alignDown, BitVec.getLsbD_and, BitVec.getLsbD_not, BitVec.getLsbD_shiftLeft,
      BitVec.getLsbD_ushiftRight, h7, hi, decide_true, Bool.true_and]
    by_cases h3 : i < 3
    · simp [h3]
    · simp [h3, show 3 + (i - 3) = i by omega]
  have ha := a.isLt
  rw [h, BitVec.toNat_shiftLeft, BitVec.toNat_ushiftRight, Nat.shiftRight_eq_div_pow,
    Nat.shiftLeft_eq]
  omega

theorem signExtendFrom_eq (x : Word) {n : Nat} (h0 : 0 < n) (hn : n ≤ 64) :
    x.signExtendFrom n = (x.setWidth n).signExtend 64 := by
  unfold signExtendFrom
  apply BitVec.eq_of_getLsbD_eq
  intro i hi
  split
  next h =>
    have : n = 64 := by omega
    subst this
    simp
  next h =>
    have hmsb : (x <<< (64 - n)).msb = x.getLsbD (n - 1) := by
      rw [BitVec.msb_eq_getLsbD_last, BitVec.getLsbD_shiftLeft]
      simp [show ¬ 63 < 64 - n by omega, show 63 - (64 - n) = n - 1 by omega]
    rw [BitVec.getLsbD_sshiftRight, BitVec.getLsbD_signExtend, hmsb, BitVec.msb_setWidth]
    simp only [hi, h0, decide_true, Bool.true_and, show ¬ 64 ≤ i by omega, decide_false,
      Bool.not_false, BitVec.getLsbD_setWidth, BitVec.getLsbD_shiftLeft]
    by_cases hin : i < n
    · simp [hin, show 64 - n + i < 64 by omega]
    · simp [hin, show ¬ 64 - n + i < 64 by omega]

theorem and_mask_eq (x : Word) {n : Nat} (hn : n ≤ 64) :
    x &&& mask n = (x.setWidth n).setWidth 64 := by
  apply BitVec.eq_of_getLsbD_eq
  intro i hi
  simp only [mask, BitVec.getLsbD_and, BitVec.getLsbD_ushiftRight, BitVec.getLsbD_allOnes,
    BitVec.getLsbD_setWidth, hi, decide_true, Bool.true_and]
  by_cases h : i < n
  · simp [h, show 64 - n + i < 64 by omega]
  · simp [h, show ¬ 64 - n + i < 64 by omega]

/-- Neighbouring bits of a word. -/
theorem extractLsb'_append_self (x : Word) (k n m : Nat) :
    x.extractLsb' (k + n) m ++ x.extractLsb' k n = x.extractLsb' k (m + n) :=
  BitVec.extractLsb'_append_extractLsb'_eq_extractLsb' rfl

/-- Bits of a word above as many zeros are those of the word without the bits below. -/
theorem extractLsb'_append_zero (x : Word) (k n : Nat) (h : n + k ≤ 64) :
    x.extractLsb' k n ++ 0#k = (x &&& ~~~ (BitVec.allOnes k).setWidth 64).setWidth (n + k) := by
  apply BitVec.eq_of_getLsbD_eq
  intro i hi
  have hx : i < 64 := by omega
  rw [BitVec.getLsbD_append, BitVec.getLsbD_setWidth, BitVec.getLsbD_and, BitVec.getLsbD_not,
    BitVec.getLsbD_setWidth, BitVec.getLsbD_allOnes]
  by_cases hk : i < k
  · simp [hk, hx]
  · simp [hk, hx, hi, show i - k < n by omega, show k + (i - k) = i by omega]

end Word

end RiscvPipeline
