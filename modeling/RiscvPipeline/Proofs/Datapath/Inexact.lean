import RiscvPipeline.Datapath.Fpu
import RiscvPipeline.Proofs.Double.Rounding

/-!
# Inexact results

A result is inexact if it is not the exact one. The unit tells this from a residual that it
computes in double precision: the residual of a sum shows every error, that of a product or a
quotient is rounded to zero if it is half the least positive number or less.
-/

namespace RiscvPipeline

namespace Double

variable {x y z : Double}

/-! ## Residuals -/

theorem half_unit : (2 : ℚ) ^ (-1075 : ℤ) = 1 / (2 * one) := by
  have hexp : (-1075 : ℤ) = -1074 - 1 := rfl
  rw [cast_one, hexp, zpow_sub_one₀ two_ne_zero, zpow_neg, one_div, mul_inv, mul_comm]

theorem abs_div_le_half_unit (m : ℤ) :
    |(m : ℚ) / (one * one)| ≤ 2 ^ (-1075 : ℤ) ↔ 2 * m.natAbs ≤ one := by
  have hpos := cast_one_pos
  have hcast : |(m : ℚ)| = (m.natAbs : ℚ) := by rw [Nat.cast_natAbs, Int.cast_abs]
  rw [half_unit, abs_div, abs_of_pos (mul_pos hpos hpos), hcast,
    div_le_div_iff₀ (mul_pos hpos hpos) (by linarith)]
  rw [one_mul, ← mul_assoc, mul_le_mul_iff_left₀ hpos, mul_comm]
  exact_mod_cast Iff.rfl

theorem residual_eq (x y z : Double) :
    x.value * y.value - z.value = ((x.units * y.units - z.units * one : ℤ) : ℚ) / (one * one) := by
  have hpos := cast_one_pos.ne'
  rw [value_eq, value_eq, value_eq]
  push_cast
  field_simp

theorem isZero_mulAdd_neg (hx : x.isFinite = true) (hy : y.isFinite = true)
    (hz : z.isFinite = true) :
    (x.mulAdd y z.neg).isZero = true ↔ |x.value * y.value - z.value| ≤ 2 ^ (-1075 : ℤ) := by
  rw [isZero_mulAdd hx hy (by rwa [isFinite_neg]), residual_eq, abs_div_le_half_unit, units_neg,
    Int.neg_mul, ← Int.sub_eq_add_neg]

/-- A residual that is lost is no whole number of units, and so neither is the product. -/
theorem natAbs_mul_le {m : ℤ} (hne : x.units * y.units - m * one ≠ 0)
    (hle : 2 * (x.units * y.units - m * one).natAbs ≤ one) :
    (x.units * y.units).natAbs ≤ 2 ^ 105 * one := by
  obtain ⟨j, hj, hone⟩ := exists_one_eq
  obtain ⟨hx, hx'⟩ := fitsAt_units x
  obtain ⟨hy, hy'⟩ := fitsAt_units y
  have hexp : x.exponentField - 1 + (y.exponentField - 1) < j := by
    by_contra hge
    have hdvd : (one : ℤ) ∣ x.units * y.units := by
      rw [hone, Nat.cast_pow, Nat.cast_ofNat]
      refine (pow_dvd_pow 2 (Nat.le_of_not_lt hge)).trans ?_
      rw [pow_add]
      exact mul_dvd_mul hx hy
    have hbig := Int.natAbs_le_of_dvd_ne_zero (Int.dvd_sub hdvd (Int.dvd_mul_left _ _)) hne
    have := one_pos
    rw [Int.natAbs_natCast] at hbig
    omega
  rw [Int.natAbs_mul, hone]
  calc x.units.natAbs * y.units.natAbs
      ≤ 2 ^ 53 * 2 ^ (x.exponentField - 1) * (2 ^ 53 * 2 ^ (y.exponentField - 1)) :=
        Nat.mul_le_mul hx' hy'
    _ = 2 ^ 105 * 2 ^ (x.exponentField - 1 + (y.exponentField - 1) + 1) := by
        rw [pow_succ, pow_add]
        ring
    _ ≤ 2 ^ 105 * 2 ^ j :=
        Nat.mul_le_mul_left _ (Nat.pow_le_pow_right two_pos hexp)

/-- Only a tiny product leaves a residual of half a unit or less. -/
theorem abs_mul_le (hne : x.value * y.value ≠ z.value)
    (hle : |x.value * y.value - z.value| ≤ 2 ^ (-1075 : ℤ)) :
    |x.value * y.value| ≤ 2 ^ (-969 : ℤ) := by
  have hpos := cast_one_pos
  have hexp : (2 : ℚ) ^ (-969 : ℤ) = 2 ^ 105 / one := by
    rw [cast_one, ← zpow_natCast, ← zpow_sub₀ two_ne_zero]
    rfl
  rw [← sub_ne_zero, residual_eq, div_ne_zero_iff, Int.cast_ne_zero] at hne
  rw [residual_eq, abs_div_le_half_unit] at hle
  have hnat : ((x.units * y.units).natAbs : ℚ) ≤ 2 ^ 105 * one := by
    exact_mod_cast natAbs_mul_le hne.1 hle
  rw [Nat.cast_natAbs, Int.cast_abs, Int.cast_mul] at hnat
  rw [hexp, value_eq, value_eq, div_mul_div_comm, abs_div, abs_of_pos (mul_pos hpos hpos),
    div_le_div_iff₀ (mul_pos hpos hpos) hpos, ← mul_assoc]
  exact mul_le_mul_of_nonneg_right hnat hpos.le

theorem magnitude_lt_normalBound (x : Double) :
    x.magnitude < normalBound ↔ |x.value| < 2 ^ (-1022 : ℤ) := by
  have hexp : (2 : ℚ) ^ (-1022 : ℤ) = 2 ^ 52 / one := by
    rw [cast_one, ← zpow_natCast, ← zpow_sub₀ two_ne_zero]
    rfl
  rw [abs_value, hexp, div_lt_div_iff_of_pos_right cast_one_pos, normalBound_eq]
  exact_mod_cast Iff.rfl

end Double

theorem abs_le_iff_eq_or {p q t : ℚ} (ht : 0 ≤ t) :
    |p - q| ≤ t ↔ p = q ∨ p ≠ q ∧ |p - q| ≤ t := by
  rcases eq_or_ne p q with rfl | hne
  · rw [sub_self, abs_zero]
    exact iff_of_true ht (.inl rfl)
  · exact ⟨fun h => .inr ⟨hne, h⟩, fun h => (h.resolve_left hne).2⟩

namespace Fpu.Arith

open Double

/-- The exact result, of numbers. -/
def exactValue : Arith → ℚ → ℚ → ℚ
  | add, x, y => x + y
  | sub, x, y => x - y
  | mul, x, y => x * y
  | div, x, y => x / y

/-- The result `r` of the numbers `x` and `y` is not exact, but its residual rounds to zero. -/
def Lost : Arith → ℚ → ℚ → ℚ → Prop
  | add, _, _, _ | sub, _, _, _ => False
  | mul, x, y, r => x * y ≠ r ∧ |x * y - r| ≤ 2 ^ (-1075 : ℤ)
  | div, x, y, r => r * y ≠ x ∧ |r * y - x| ≤ 2 ^ (-1075 : ℤ)

variable {o : Arith} {a b r : Double}

/-- The errors of a sum cancel just if there is none. -/
theorem isZero_sumError (h : (a.add b).isFinite = true) :
    (sumError a b (a.add b)).isZero = true ↔ (a.add b).units = a.units + b.units := by
  obtain ⟨ha, hb⟩ := isFinite_of_add h
  constructor
  · intro hz
    have hsum := isFinite_of_isZero hz
    obtain ⟨hda, hdb⟩ := isFinite_of_add hsum
    obtain ⟨-, hav⟩ := isFinite_of_sub hda
    obtain ⟨-, hbv⟩ := isFinite_of_sub hdb
    have h0 : Nearest (sumError a b (a.add b)).units _ := nearest_add hsum
    rw [isZero_iff.1 hz] at h0
    exact Nearest.eq_add_of_errors (representable_units a) (representable_units b) (nearest_add h)
      (nearest_sub hbv) (nearest_sub hav) (nearest_sub hda) (nearest_sub hdb) h0.eq_zero
  · intro heq
    obtain ⟨hbv, hbv'⟩ := sub_eq (z := b) h ha hb (by omega)
    obtain ⟨hav, hav'⟩ := sub_eq (z := a) h hbv ha (by omega)
    have hz := units_zero false
    obtain ⟨hda, hda'⟩ := sub_eq (z := zero false) ha hav (isFinite_zero _) (by omega)
    obtain ⟨hdb, hdb'⟩ := sub_eq (z := zero false) hb hbv (isFinite_zero _) (by omega)
    obtain ⟨-, hs⟩ := add_eq (z := zero false) hda hdb (isFinite_zero _) (by omega)
    exact isZero_iff.2 (hs.trans hz)

theorem isZero_sumError_iff (h : (a.add b).isFinite = true) :
    (sumError a b (a.add b)).isZero = true ↔ (a.add b).value = a.value + b.value := by
  rw [isZero_sumError h, value_eq, value_eq, value_eq, ← add_div, div_left_inj' cast_one_pos.ne']
  exact_mod_cast Iff.rfl

/-- The test of the unit misses nothing but the residuals that round to zero. -/
theorem exact_iff (ha : a.isFinite = true) (hb : b.isFinite = true)
    (hr : (o.apply a b).isFinite = true) (hd : o = .div → b.isZero = false) :
    o.exact a b (o.apply a b) = true ↔ (o.apply a b).value = o.exactValue a.value b.value ∨
      o.Lost a.value b.value (o.apply a b).value := by
  cases o with
  | add =>
    rw [Lost, or_false]
    exact isZero_sumError_iff hr
  | sub =>
    rw [Lost, or_false, exactValue, sub_eq_add_neg, ← value_neg]
    exact isZero_sumError_iff hr
  | mul =>
    refine (isZero_mulAdd_neg ha hb hr).trans ?_
    rw [exactValue, Lost, eq_comm]
    exact abs_le_iff_eq_or (zpow_nonneg zero_le_two _)
  | div =>
    have hne : b.value ≠ 0 := value_ne_zero (hd rfl)
    refine (isZero_mulAdd_neg hr hb ha).trans ?_
    rw [exactValue, Lost, eq_div_iff hne]
    exact abs_le_iff_eq_or (zpow_nonneg zero_le_two _)

/-- A residual is lost among tiny numbers only. -/
theorem lt_of_lost (h : o.Lost a.value b.value r.value) :
    o = .mul ∧ |a.value * b.value| < 2 ^ (-968 : ℤ) ∨ o = .div ∧ |a.value| < 2 ^ (-968 : ℤ) := by
  have hlt : (2 : ℚ) ^ (-1075 : ℤ) < 2 ^ (-969 : ℤ) :=
    zpow_lt_zpow_right₀ one_lt_two (by decide)
  have hexp : (-968 : ℤ) = -969 + 1 := rfl
  rw [hexp, zpow_add_one₀ two_ne_zero]
  have hpos : (0 : ℚ) < 2 ^ (-969 : ℤ) := zpow_pos two_pos _
  cases o with
  | add | sub => exact h.elim
  | mul => exact .inl ⟨rfl, (abs_mul_le h.1 h.2).trans_lt (by linarith)⟩
  | div =>
    have hprod := abs_mul_le h.1 h.2
    have hdist := abs_sub_abs_le_abs_sub a.value (r.value * b.value)
    rw [abs_sub_comm] at hdist
    exact .inr ⟨rfl, by linarith [h.2]⟩

/-- The flags of finite numbers with a finite result. -/
theorem flags_eq (ha : a.isFinite = true) (hb : b.isFinite = true) (hr : r.isFinite = true)
    (hd : o = .div → b.isZero = false) : o.flags a b r =
      if o.exact a b r then .none else .nx ||| .when (r.magnitude < normalBound) .uf := by
  have hdivisor : (if o = div then divisorFlags a b else .none) = FpFlags.none := by
    split
    next h => rw [divisorFlags, hd h, Bool.false_and, if_neg Bool.false_ne_true]
    next => rfl
  rw [flags, hdivisor, isNaN_of_isFinite hr, ha, hb, hr, Bool.not_true, Bool.or_self,
    Bool.or_self, if_neg Bool.false_ne_true, Bool.false_and, Bool.false_and, FpFlags.none_or,
    FpFlags.when, if_neg Bool.false_ne_true, FpFlags.none_or]

end Arith

variable {o : Opcode} {op : Arith} {a b : Word}

theorem compute_of_arith (ho : arith? o = some op) (a b : Word) : compute o a b =
    ((op.apply ⟨a⟩ ⟨b⟩).canonical.bits, op.flags ⟨a⟩ ⟨b⟩ (op.apply ⟨a⟩ ⟨b⟩)) := by
  unfold compute
  rw [ho]

/-- The result of an operation, where it is a number. -/
theorem execute_fst (ho : arith? o = some op) (h : (Double.mk (execute o a b).1).isFinite = true) :
    Double.mk (execute o a b).1 = op.apply ⟨a⟩ ⟨b⟩ := by
  have hr : Double.mk (execute o a b).1 = (op.apply ⟨a⟩ ⟨b⟩).canonical := by
    rw [execute, compute_of_arith ho]
  rw [hr] at h ⊢
  rw [Double.canonical] at h ⊢
  split at h
  next => exact absurd h (by decide)
  next hn => rw [if_neg hn]

theorem signals_eq_false (ha : (Double.mk a).isFinite = true) (hb : (Double.mk b).isFinite = true) :
    signals o a b = false := by
  rw [signals, Double.isSignaling, Double.isSignaling, Double.isNaN_of_isFinite ha,
    Double.isNaN_of_isFinite hb, Bool.false_and, Bool.false_and, Bool.and_false, Bool.or_false,
    Bool.and_false]

theorem execute_snd (ho : arith? o = some op) (ha : (Double.mk a).isFinite = true)
    (hb : (Double.mk b).isFinite = true) (hr : (op.apply ⟨a⟩ ⟨b⟩).isFinite = true)
    (hd : op = .div → (Double.mk b).isZero = false) : (execute o a b).2 =
      if op.exact ⟨a⟩ ⟨b⟩ (op.apply ⟨a⟩ ⟨b⟩) then .none
      else .nx ||| .when ((op.apply ⟨a⟩ ⟨b⟩).magnitude < Double.normalBound) .uf := by
  rw [← Arith.flags_eq ha hb hr hd, execute, compute_of_arith ho, signals_eq_false ha hb]
  exact FpFlags.none_or _

theorem contains_inexact (c d : Bool) :
    let flags : FpFlags := if c then .none else .nx ||| .when d .uf
    flags.contains .nx = !c ∧ flags.contains .uf = (!c && d) := by
  revert c d
  decide

/-- The inexact flag is exact but for the residuals that round to zero, and with it the flag of an
underflow. Such a residual takes a product, or a dividend, below 2^-968. -/
theorem inexact_iff (ho : arith? o = some op) (ha : (Double.mk a).isFinite = true)
    (hb : (Double.mk b).isFinite = true) (hd : op = .div → (Double.mk b).isZero = false)
    (hr : (Double.mk (execute o a b).1).isFinite = true) :
    let x := (Double.mk a).value
    let y := (Double.mk b).value
    let r := (Double.mk (execute o a b).1).value
    let flags := (execute o a b).2
    (flags.contains .nx = true ↔ r ≠ op.exactValue x y ∧ ¬ op.Lost x y r) ∧
      (flags.contains .uf = true ↔ flags.contains .nx = true ∧ |r| < 2 ^ (-1022 : ℤ)) ∧
      (op.Lost x y r →
        op = .mul ∧ |x * y| < 2 ^ (-968 : ℤ) ∨ op = .div ∧ |x| < 2 ^ (-968 : ℤ)) := by
  intro x y r flags
  have hres := execute_fst ho hr
  rw [hres] at hr
  have hflags : flags = _ := execute_snd ho ha hb hr hd
  have hexact := Arith.exact_iff ha hb hr hd
  have hnormal := (op.apply ⟨a⟩ ⟨b⟩).magnitude_lt_normalBound
  rw [← hres] at hexact hnormal
  rw [← hres] at hflags
  refine ⟨?_, ?_, Arith.lt_of_lost⟩
  · rw [hflags, (contains_inexact _ _).1, Bool.not_eq_true', ← Bool.not_eq_true, hexact, not_or]
  · rw [hflags, (contains_inexact _ _).1, (contains_inexact _ _).2, Bool.and_eq_true,
      decide_eq_true_iff, hnormal]

theorem inexact_iff_third :
    let flags := (execute .fdivD 0x3ff0000000000000 0x4008000000000000).2
    let x := (Double.mk 0x3ff0000000000000).value
    let y := (Double.mk 0x4008000000000000).value
    let r := (Double.mk (execute .fdivD 0x3ff0000000000000 0x4008000000000000).1).value
    arith? .fdivD = some .div ∧ (Double.mk 0x3ff0000000000000).isFinite = true ∧
      (Double.mk 0x4008000000000000).isFinite = true ∧
      (Double.mk 0x4008000000000000).isZero = false ∧
      (Double.mk (execute .fdivD 0x3ff0000000000000 0x4008000000000000).1).isFinite = true ∧
      (flags.contains .nx = true ↔ r ≠ x / y ∧ ¬ Arith.div.Lost x y r) := by
  have hz : (Double.mk 0x4008000000000000).isZero = false := by decide +kernel
  have hr : (Double.mk (execute .fdivD 0x3ff0000000000000 0x4008000000000000).1).isFinite =
      true := by decide +kernel
  exact ⟨rfl, by decide, by decide, hz, hr,
    (inexact_iff (o := .fdivD) rfl (by decide) (by decide) (fun _ => hz) hr).1⟩

/-- 2^-600 times itself is less than half the least positive number. It goes to zero, without a
flag. -/
theorem inexact_lost :
    let x : Double := ⟨0x1a70000000000000⟩
    let r : Double := ⟨(execute .fmulD x.bits x.bits).1⟩
    x.isFinite = true ∧ r.isFinite = true ∧ r.value ≠ x.value * x.value ∧
      |r.value| < 2 ^ (-1022 : ℤ) ∧ (execute .fmulD x.bits x.bits).2 = .none := by
  intro x r
  have hx : x.isZero = false := by decide +kernel
  have hr : r.value = 0 := by
    rw [Double.value_eq, Double.isZero_iff.1 (by decide +kernel), Int.cast_zero, zero_div]
  refine ⟨by decide, by decide +kernel, ?_, ?_, by decide +kernel⟩
  · rw [hr]
    exact (mul_ne_zero (Double.value_ne_zero hx) (Double.value_ne_zero hx)).symm
  · rw [hr, abs_zero]
    exact zpow_pos two_pos _

end Fpu

end RiscvPipeline
