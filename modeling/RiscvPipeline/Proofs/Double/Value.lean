import Mathlib.Algebra.Order.Field.Rat
import Mathlib.Data.Rat.Floor
import Mathlib.Tactic.FieldSimp
import Mathlib.Tactic.NormNum
import Mathlib.Tactic.Positivity
import Mathlib.Tactic.Ring
import RiscvPipeline.Double.Basic

/-!
# The numbers that patterns denote

A finite pattern denotes a rational number, `Double.value`, read off its fields; in units of the
least positive number it is the integer `Double.units`. A pattern is put together from its fields by
`Double.ofBits`, and two patterns with the same fields are the same.
-/

namespace RiscvPipeline.Double

variable {x y : Double} {n : Nat}

/-! ## Fields -/

theorem fraction_lt (x : Double) : x.fraction < 2 ^ 52 := (x.bits.extractLsb' 0 52).isLt

theorem exponentField_lt (x : Double) : x.exponentField < 2 ^ 11 :=
  (x.bits.extractLsb' 52 11).isLt

theorem toNat_bits (x : Double) :
    x.bits.toNat = x.negative.toNat * 2 ^ 63 + x.exponentField * 2 ^ 52 + x.fraction := by
  have hlt := x.bits.isLt
  rw [negative, exponentField, fraction, BitVec.msb_eq_decide, BitVec.extractLsb'_toNat,
    BitVec.extractLsb'_toNat, Nat.shiftRight_eq_div_pow, Nat.shiftRight_zero]
  rcases Nat.lt_or_ge x.bits.toNat (2 ^ 63) with h | h
  · rw [decide_eq_false (by omega), Bool.toNat_false]
    omega
  · rw [decide_eq_true (by omega), Bool.toNat_true]
    omega

theorem eq_of_fields (hn : x.negative = y.negative) (he : x.exponentField = y.exponentField)
    (hf : x.fraction = y.fraction) : x = y := by
  have h : x.bits = y.bits := BitVec.eq_of_toNat_eq (by rw [toNat_bits, toNat_bits, hn, he, hf])
  cases x
  cases y
  exact congrArg _ h

theorem toNat_ofBits (hn : n < 2 ^ 63) (s : Bool) :
    (ofBits s n).bits.toNat = s.toNat * 2 ^ 63 + n := by
  rw [ofBits, BitVec.toNat_append, BitVec.toNat_ofNat, Nat.mod_eq_of_lt hn,
    ← Nat.shiftLeft_add_eq_or_of_lt hn, Nat.shiftLeft_eq, BitVec.toNat_ofBool]

/-- The fields of a pattern that is spelt out. -/
theorem fields_ofBits (hn : n < 2 ^ 63) (s : Bool) :
    (ofBits s n).negative = s ∧ (ofBits s n).exponentField = n / 2 ^ 52 ∧
      (ofBits s n).fraction = n % 2 ^ 52 := by
  have hb := toNat_ofBits hn s
  have hx := toNat_bits (ofBits s n)
  have he := exponentField_lt (ofBits s n)
  have hf := fraction_lt (ofBits s n)
  have h1 := (ofBits s n).negative.toNat_le
  have h2 := s.toNat_le
  rw [hb] at hx
  have hs : (ofBits s n).negative.toNat = s.toNat := by omega
  refine ⟨?_, by omega, by omega⟩
  revert hs
  cases (ofBits s n).negative <;> cases s <;> decide

/-! ## Magnitudes -/

theorem normalBound_eq : normalBound = 2 ^ 52 := Nat.one_shiftLeft 52

theorem one_shiftLeft_pos (k : Nat) : 0 < 1 <<< k := by
  rw [Nat.one_shiftLeft]
  exact Nat.two_pow_pos k

theorem one_pos : 0 < one := one_shiftLeft_pos 1074

/-- The number one is a power of two, with an exponent that stays unevaluated. -/
theorem exists_one_eq : ∃ j, j = 1074 ∧ one = 2 ^ j := by
  obtain ⟨j, hj⟩ : ∃ j, j = 1074 := ⟨_, rfl⟩
  rw [one, ← hj]
  exact ⟨j, rfl, Nat.one_shiftLeft j⟩

theorem cast_shiftLeft (k : Nat) : ((1 <<< k : Nat) : ℚ) = 2 ^ (k : ℤ) := by
  rw [Nat.one_shiftLeft, Nat.cast_pow, zpow_natCast, Nat.cast_ofNat]

/-- The unit is the least positive number. -/
theorem cast_one : (one : ℚ) = 2 ^ (1074 : ℤ) := by
  have h := cast_shiftLeft 1074
  rwa [Nat.cast_ofNat] at h

theorem cast_one_pos : (0 : ℚ) < one := Nat.cast_pos.2 one_pos

theorem magnitude_eq (x : Double) : x.magnitude =
    if x.exponentField = 0 then x.fraction
    else (2 ^ 52 + x.fraction) * 2 ^ (x.exponentField - 1) := by
  rw [magnitude, normalBound_eq, Nat.shiftLeft_eq]

/-- A number between a power of two and the next number after it is that power. -/
theorem fields_of_magnitude {e : Nat} (hlow : 2 ^ (52 + e) ≤ x.magnitude)
    (hhigh : x.magnitude < 2 ^ (52 + e) + 2 ^ e) : x.exponentField = e + 1 ∧ x.fraction = 0 := by
  have hf := fraction_lt x
  rw [magnitude_eq] at hlow hhigh
  split at hlow
  next he =>
    have hle : 2 ^ 52 ≤ 2 ^ (52 + e) := Nat.pow_le_pow_right two_pos (Nat.le_add_right 52 e)
    omega
  next he =>
    rw [if_neg he, Nat.add_mul, ← Nat.pow_add] at hhigh
    have hupper : 52 + e < 53 + (x.exponentField - 1) := by
      rw [← Nat.pow_lt_pow_iff_right (a := 2) (by decide), Nat.pow_add 2 53]
      exact hlow.trans_lt (Nat.mul_lt_mul_of_pos_right (by omega) (Nat.two_pow_pos _))
    have hlower : 52 + (x.exponentField - 1) < 52 + e + 1 := by
      have hle : 2 ^ e ≤ 2 ^ (52 + e) := Nat.pow_le_pow_right two_pos (Nat.le_add_left e 52)
      rw [← Nat.pow_lt_pow_iff_right (a := 2) (by decide), Nat.pow_succ]
      omega
    have hsum : x.exponentField - 1 = e := by omega
    refine ⟨by omega, ?_⟩
    rw [hsum] at hhigh
    by_contra hne
    have := Nat.le_mul_of_pos_left (2 ^ e) (Nat.pos_of_ne_zero hne)
    omega

theorem isFinite_iff : x.isFinite = true ↔ x.exponentField ≠ 2047 := bne_iff_ne

theorem isNaN_of_isFinite (h : x.isFinite = true) : x.isNaN = false := by
  rw [isNaN, beq_eq_false_iff_ne.2 (isFinite_iff.1 h), Bool.false_and]

theorem isInfinite_of_isFinite (h : x.isFinite = true) : x.isInfinite = false := by
  rw [isInfinite, beq_eq_false_iff_ne.2 (isFinite_iff.1 h), Bool.false_and]

theorem isFinite_of_not (hn : x.isNaN = false) (hi : x.isInfinite = false) : x.isFinite = true := by
  rw [isFinite_iff]
  intro h
  rw [isNaN, h, BEq.rfl, Bool.true_and, bne, Bool.not_eq_false'] at hn
  rw [isInfinite, h, BEq.rfl, Bool.true_and, hn] at hi
  cases hi

theorem magnitude_eq_zero : x.magnitude = 0 ↔ x.exponentField = 0 ∧ x.fraction = 0 := by
  rw [magnitude_eq]
  split
  next h => exact ⟨fun hf => ⟨h, hf⟩, And.right⟩
  next h =>
    refine ⟨fun hm => absurd hm ?_, fun h' => absurd h'.1 h⟩
    positivity

theorem isFinite_of_isZero (h : x.isZero = true) : x.isFinite = true := by
  rw [isFinite_iff, (magnitude_eq_zero.1 (beq_iff_eq.1 h)).1]
  decide

theorem natAbs_units (x : Double) : x.units.natAbs = x.magnitude := by
  rw [units]
  split
  · rw [Int.natAbs_neg, Int.natAbs_natCast]
  · exact Int.natAbs_natCast _

theorem isZero_iff : x.isZero = true ↔ x.units = 0 := by
  rw [← Int.natAbs_eq_zero, natAbs_units]
  exact beq_iff_eq

/-! ## Negation -/

theorem fields_neg (x : Double) : x.neg.negative = !x.negative ∧
    x.neg.exponentField = x.exponentField ∧ x.neg.fraction = x.fraction := by
  have hmsb : (0x8000000000000000 : Word).msb = true := by decide
  have he : (0x8000000000000000 : Word).extractLsb' 52 11 = 0 := by decide
  have hf : (0x8000000000000000 : Word).extractLsb' 0 52 = 0 := by decide
  refine ⟨?_, ?_, ?_⟩
  · rw [negative, neg, BitVec.msb_xor, hmsb, Bool.xor_true]
    rfl
  · rw [exponentField, neg, BitVec.extractLsb'_xor, he]
    exact congrArg _ BitVec.xor_zero
  · rw [fraction, neg, BitVec.extractLsb'_xor, hf]
    exact congrArg _ BitVec.xor_zero

theorem isFinite_neg (x : Double) : x.neg.isFinite = x.isFinite := by
  rw [isFinite, isFinite, (fields_neg x).2.1]

theorem units_neg (x : Double) : x.neg.units = -x.units := by
  obtain ⟨hs, he, hf⟩ := fields_neg x
  rw [units, units, magnitude_eq, magnitude_eq, hs, he, hf]
  cases x.negative <;> simp

/-! ## Values -/

/-- The number that a finite pattern denotes. -/
def value (x : Double) : ℚ :=
  (if x.negative then -1 else 1) *
    if x.exponentField = 0 then (x.fraction : ℚ) * 2 ^ (-1074 : ℤ)
    else (2 ^ 52 + x.fraction) * 2 ^ ((x.exponentField : ℤ) - 1075)

theorem value_eq (x : Double) : x.value = x.units / one := by
  have hm : (x.magnitude : ℚ) / one =
      if x.exponentField = 0 then (x.fraction : ℚ) * 2 ^ (-1074 : ℤ)
      else (2 ^ 52 + x.fraction) * 2 ^ ((x.exponentField : ℤ) - 1075) := by
    rw [magnitude_eq, cast_one]
    split
    next h => rw [zpow_neg, div_eq_mul_inv]
    next h =>
      have he : (x.exponentField : ℤ) - 1075 = (x.exponentField - 1 : ℕ) - 1074 := by omega
      rw [he, zpow_sub₀ two_ne_zero, zpow_natCast, mul_div_assoc', Nat.cast_mul, Nat.cast_add,
        Nat.cast_pow, Nat.cast_pow, Nat.cast_ofNat]
  rw [value, ← hm, units]
  split
  · rw [Int.cast_neg, Int.cast_natCast, neg_div, neg_one_mul]
  · rw [Int.cast_natCast, one_mul]

theorem value_ne_zero (h : x.isZero = false) : x.value ≠ 0 := by
  rw [value_eq, div_ne_zero_iff, Int.cast_ne_zero]
  refine ⟨fun hu => ?_, cast_one_pos.ne'⟩
  exact Bool.false_ne_true (h.symm.trans (isZero_iff.2 hu))

theorem value_neg (x : Double) : x.neg.value = -x.value := by
  rw [value_eq, value_eq, units_neg, Int.cast_neg, neg_div]

theorem abs_value (x : Double) : |x.value| = x.magnitude / one := by
  rw [value_eq, abs_div, abs_of_pos cast_one_pos, ← natAbs_units, Nat.cast_natAbs, Int.cast_abs]

end RiscvPipeline.Double
