import Mathlib.Algebra.Order.Ring.Int
import Mathlib.Tactic.Ring

/-!
# Integers of 53 significant bits

Counted in units, a finite number is an integer with at most 53 significant bits, and a sum is
rounded to the nearest of them. Whether a sum is exact can be told from the sum alone, by further
sums: if the error that they compute is zero, it is (`Nearest.eq_add_of_errors`).
-/

namespace RiscvPipeline.Double

/-- A multiple of `2 ^ e`, by a factor of at most `2 ^ 53`. The factor of the last one has 54 bits,
but a single one of them is set. -/
def FitsAt (e : ℕ) (n : ℤ) : Prop := 2 ^ e ∣ n ∧ n.natAbs ≤ 2 ^ 53 * 2 ^ e

def Representable (n : ℤ) : Prop := ∃ e, FitsAt e n

/-- `s` is representable, and no representable integer is nearer to `q`. -/
structure Nearest (s q : ℤ) : Prop where
  representable : Representable s
  le : ∀ {n}, Representable n → (s - q).natAbs ≤ (n - q).natAbs

variable {d e : ℕ} {m n q s x y : ℤ}

theorem natAbs_two_pow (e : ℕ) : ((2 : ℤ) ^ e).natAbs = 2 ^ e := Int.natAbs_pow 2 e

/-! ## Representable integers -/

theorem FitsAt.of_le (h : FitsAt e n) (hd : 2 ^ e ∣ m) (hle : m.natAbs ≤ n.natAbs) : FitsAt e m :=
  ⟨hd, hle.trans h.2⟩

theorem FitsAt.dvd (h : FitsAt e n) (hd : d ≤ e) : 2 ^ d ∣ n := (pow_dvd_pow 2 hd).trans h.1

theorem Representable.zero : Representable 0 := ⟨0, dvd_zero _, Nat.zero_le _⟩

theorem Representable.neg (h : Representable n) : Representable (-n) := by
  obtain ⟨e, h⟩ := h
  exact ⟨e, h.of_le (Int.dvd_neg.2 h.1) (Int.natAbs_neg n).le⟩

theorem Representable.of_natAbs_eq_one (h : n.natAbs = 1) : Representable n :=
  ⟨0, one_dvd n, by omega⟩

/-- Of two representable integers the one of lesser absolute value has an exponent at which the
other is a multiple. -/
theorem exists_fitsAt_dvd (hx : Representable x) (hy : Representable y)
    (hle : y.natAbs ≤ x.natAbs) : ∃ e, FitsAt e y ∧ 2 ^ e ∣ x := by
  obtain ⟨i, hi⟩ := hx
  obtain ⟨j, hj⟩ := hy
  rcases Nat.le_total j i with h | h
  · exact ⟨j, hj, hi.dvd h⟩
  · exact ⟨i, hi.of_le (hj.dvd h) hle, hi.1⟩

theorem lt_natAbs_of_not_representable (hd : 2 ^ e ∣ q) (h : ¬ Representable q) :
    2 ^ 53 * 2 ^ e < q.natAbs := by
  by_contra hle
  exact h ⟨e, hd, by omega⟩

theorem FitsAt.succ_dvd (h : FitsAt d n) (hle : 2 ^ 53 * 2 ^ e ≤ n.natAbs) : 2 ^ (e + 1) ∣ n := by
  rcases Nat.lt_or_ge e d with hlt | hge
  · exact h.dvd hlt
  -- the factor has 54 bits, so it is 2^53
  · have hpow : 2 ^ d ≤ 2 ^ e := Nat.pow_le_pow_right (by decide) hge
    have hn : n.natAbs = 2 ^ 53 * 2 ^ e := by
      have := h.2
      omega
    have hdvd : 2 ^ (e + 1) ∣ n.natAbs := by
      rw [hn, ← pow_add]
      exact pow_dvd_pow 2 (by omega)
    exact_mod_cast Int.natCast_dvd.2 hdvd

/-- A representable integer whose lowest bit is bit `e` lies below the range of that exponent. -/
theorem Representable.natAbs_add_le (h : Representable n) (hd : 2 ^ e ∣ n)
    (hn : ¬ 2 ^ (e + 1) ∣ n) : n.natAbs + 2 ^ e ≤ 2 ^ 53 * 2 ^ e := by
  obtain ⟨d, h⟩ := h
  have hlt : n.natAbs < 2 ^ 53 * 2 ^ e := by
    by_contra hge
    exact hn (h.succ_dvd (by omega))
  obtain ⟨m, rfl⟩ := hd
  rw [Int.natAbs_mul, natAbs_two_pow, Nat.mul_comm] at hlt ⊢
  rw [← Nat.succ_mul]
  exact Nat.mul_le_mul_right _ (Nat.lt_of_mul_lt_mul_right hlt)

/-! ## Rounding -/

namespace Nearest

theorem eq_of_representable (h : Nearest s q) (hq : Representable q) : s = q := by
  have := h.le hq
  omega

theorem eq_zero (h : Nearest 0 q) : q = 0 := by
  by_contra hne
  rcases Int.lt_or_gt_of_ne hne with hlt | hgt
  · have := h.le (n := -1) (.of_natAbs_eq_one rfl)
    omega
  · have := h.le (n := 1) (.of_natAbs_eq_one rfl)
    omega

theorem neg (h : Nearest s q) : Nearest (-s) (-q) where
  representable := h.representable.neg
  le {n} hn := by
    have := h.le hn.neg
    omega

theorem natAbs_le (h : Nearest s q) (hn : Representable n) (hle : n.natAbs ≤ q.natAbs) :
    n.natAbs ≤ s.natAbs := by
  have h1 := h.le hn
  have h2 := h.le hn.neg
  omega

/-- What has to be rounded loses its lowest bit. -/
theorem succ_dvd (h : Nearest s q) (hd : 2 ^ e ∣ q) (hne : s ≠ q) : 2 ^ (e + 1) ∣ s := by
  have hq := lt_natAbs_of_not_representable hd fun hq => hne (h.eq_of_representable hq)
  obtain ⟨d, hs⟩ := h.representable
  have hbound : ((2 : ℤ) ^ 53 * 2 ^ e).natAbs = 2 ^ 53 * 2 ^ e := by
    rw [Int.natAbs_mul, natAbs_two_pow, natAbs_two_pow]
  refine hs.succ_dvd ?_
  rw [← hbound]
  exact h.natAbs_le ⟨e, dvd_mul_left _ _, hbound.le⟩ (by omega)

/-- Of 54 bits at most the lowest one is lost. -/
theorem natAbs_sub_le (h : Nearest s q) (hd : 2 ^ e ∣ q) (hle : q.natAbs ≤ 2 ^ 54 * 2 ^ e) :
    (s - q).natAbs ≤ 2 ^ e := by
  obtain ⟨m, rfl⟩ := hd
  have hm : m.natAbs ≤ 2 ^ 54 := by
    rw [Int.natAbs_mul, natAbs_two_pow, Nat.mul_comm] at hle
    exact Nat.le_of_mul_le_mul_right hle (Nat.two_pow_pos e)
  have hrep : Representable (2 ^ (e + 1) * (m / 2)) := by
    refine ⟨e + 1, dvd_mul_right _ _, ?_⟩
    rw [Int.natAbs_mul, natAbs_two_pow, Nat.mul_comm]
    exact Nat.mul_le_mul_right _ (by omega)
  have hsub : 2 ^ (e + 1) * (m / 2) - 2 ^ e * m = -(2 ^ e * (m % 2)) := by
    rw [Int.emod_def]
    ring
  refine (h.le hrep).trans ?_
  rw [hsub, Int.natAbs_neg, Int.natAbs_mul, natAbs_two_pow]
  exact (Nat.mul_le_mul_left _ (by omega)).trans_eq (Nat.mul_one _)

/-- The error of a rounded sum is representable. -/
theorem representable_error (h : Nearest s (x + y)) (hx : Representable x) (hy : Representable y) :
    Representable (x + y - s) := by
  wlog hle : y.natAbs ≤ x.natAbs generalizing x y
  · rw [add_comm x y] at h ⊢
    exact this h hy hx (by omega)
  obtain ⟨e, hye, hxe⟩ := exists_fitsAt_dvd hx hy hle
  have hsum : 2 ^ e ∣ x + y := Int.dvd_add hxe hye.1
  by_cases hs : s = x + y
  · rw [hs, sub_self]
    exact .zero
  · have hse : 2 ^ e ∣ s := (pow_dvd_pow 2 e.le_succ).trans (h.succ_dvd hsum hs)
    have := h.le hx
    exact ⟨e, hye.of_le (Int.dvd_sub hsum hse) (by omega)⟩

/-- The sum less its greater operand is representable. -/
theorem representable_sub (h : Nearest s (x + y)) (hx : Representable x) (hy : Representable y)
    (hle : y.natAbs ≤ x.natAbs) : Representable (s - x) := by
  obtain ⟨e, hye, hxe⟩ := exists_fitsAt_dvd hx hy hle
  have hsum : 2 ^ e ∣ x + y := Int.dvd_add hxe hye.1
  have hnear := h.le hx
  have hy2 := hye.2
  by_cases hs : s = x + y
  · rwa [hs, add_sub_cancel_left]
  have hse : 2 ^ (e + 1) ∣ s := h.succ_dvd hsum hs
  by_cases hxe' : 2 ^ (e + 1) ∣ x
  · exact ⟨e + 1, Int.dvd_sub hse hxe', by rw [pow_succ]; omega⟩
  · have hx2 := hx.natAbs_add_le hxe hxe'
    have hround := h.natAbs_sub_le hsum (by omega)
    exact ⟨e, Int.dvd_sub ((pow_dvd_pow 2 e.le_succ).trans hse) hxe, by omega⟩

end Nearest

/-! ## Exact sums -/

section Sum

variable {a b r bv av da db : ℤ} (ha : Representable a) (hb : Representable b)
  (hr : Nearest r (a + b)) (hbv : Nearest bv (r - a)) (hav : Nearest av (r - bv))
  (hda : Nearest da (a - av)) (hdb : Nearest db (b - bv)) (h : da + db = 0)

include ha hb hr hbv

/-- What `b` is short of its share of the rounded sum is representable. -/
theorem representable_sub_share (hle : a.natAbs ≤ b.natAbs) : Representable (b - bv) := by
  by_cases heq : bv = r - a
  · have hsub : b - bv = a + b - r := by omega
    rw [hsub]
    exact hr.representable_error ha hb
  obtain ⟨e, hae, hbe⟩ := exists_fitsAt_dvd hb ha hle
  have hsum : 2 ^ e ∣ a + b := Int.dvd_add hae.1 hbe
  have ha2 := hae.2
  have h1 := hr.le hb
  have h2 := hbv.le hr.representable
  by_cases hre : r = a + b
  · rw [hre, add_sub_cancel_left] at hbv
    rw [hbv.eq_of_representable hb, sub_self]
    exact .zero
  have hr1 : 2 ^ (e + 1) ∣ r := hr.succ_dvd hsum hre
  have hre' : 2 ^ e ∣ r - a := Int.dvd_sub ((pow_dvd_pow 2 e.le_succ).trans hr1) hae.1
  by_cases hb1 : 2 ^ (e + 1) ∣ b
  · exact ⟨e + 1, Int.dvd_sub hb1 (hbv.succ_dvd hre' heq), by rw [pow_succ]; omega⟩
  · have hb2 := hb.natAbs_add_le hbe hb1
    have hround := hr.natAbs_sub_le hsum (by omega)
    exact absurd (hbv.eq_of_representable ⟨e, hre', by omega⟩) heq

include hav hda hdb h

/-- The share of `b` is exact if `a` is the greater operand, so that of `a` is `a` itself. -/
theorem Nearest.eq_add_of_le (hle : b.natAbs ≤ a.natAbs) : r = a + b := by
  obtain rfl := hbv.eq_of_representable (hr.representable_sub ha hb hle)
  obtain rfl := hav.eq_of_representable (by rwa [sub_sub_cancel])
  obtain rfl := hda.eq_of_representable (by rw [sub_sub_cancel, sub_self]; exact .zero)
  have h0 : db = 0 := by omega
  have := (h0 ▸ hdb).eq_zero
  omega

/-- The share of `a` is exact if `a` is the lesser operand but not above the sum, and with it the
two errors. -/
theorem Nearest.eq_add_of_ge (hle : a.natAbs ≤ b.natAbs) (har : a.natAbs ≤ r.natAbs) :
    r = a + b := by
  have hneg : Nearest bv (r + -a) := by rwa [← sub_eq_add_neg]
  have hna : (-a).natAbs ≤ r.natAbs := by rwa [Int.natAbs_neg]
  have hsub := hneg.representable_sub hr.representable ha.neg hna
  have herr := hneg.representable_error hr.representable ha.neg
  have hav' : av = r - bv := hav.eq_of_representable (by rw [← neg_sub]; exact hsub.neg)
  have hlost : a - av = -(r + -a - bv) := by omega
  have hda' : da = a - av := hda.eq_of_representable (by rw [hlost]; exact herr.neg)
  have hdb' : db = b - bv := hdb.eq_of_representable (representable_sub_share ha hb hr hbv hle)
  omega

/-- A sum is exact if the two errors that further sums compute cancel. -/
theorem Nearest.eq_add_of_errors : r = a + b := by
  rcases Nat.le_total b.natAbs a.natAbs with hle | hle
  · exact eq_add_of_le ha hb hr hbv hav hda hdb h hle
  by_cases har : a.natAbs ≤ r.natAbs
  · exact eq_add_of_ge ha hb hr hbv hav hda hdb h hle har
  -- a sum below both operands needs no bits but theirs
  · obtain ⟨e, hae, hbe⟩ := exists_fitsAt_dvd hb ha hle
    have hlt : (a + b).natAbs ≤ a.natAbs := by
      by_contra hgt
      exact har (hr.natAbs_le ha (by omega))
    exact hr.eq_of_representable ⟨e, hae.of_le (Int.dvd_add hae.1 hbe) hlt⟩

end Sum

end RiscvPipeline.Double
