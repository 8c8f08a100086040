import Mathlib.Algebra.Order.Field.Basic
import Mathlib.Algebra.Order.Field.Rat
import Mathlib.Tactic.FieldSimp
import Mathlib.Tactic.Linarith
import ScriptRealm.Number.Layout
import ScriptRealm.Proofs.Number.RoundTrip

/-!
# Exact — the rational number that a number is

Every finite number is a rational number (`Binary64.value`), and so is every
decimal (`Decimal.toRat`). The exact expansion of a number has its value
without the sign (`Binary64.toRat_toDecimal`), the minus sign that a number is
written with is that of its value (`Binary64.signMark_eq_ite`), and comparing
finite numbers compares their values (`Binary64.atMost_iff`).

Rounding a decimal at a place gives the integer within a half
(`Decimal.roundScaled_bounds`), and there is only one such integer
(`eq_of_within_half`).
-/

namespace ScriptRealm

/-! ## Rounding, a tie going up -/

/-- The rounded integer is within a half of the ratio. -/
theorem roundHalfUp_bounds (num : Nat) {den : Nat} (hden : 0 < den) :
    2 * (roundHalfUp num den * den) ≤ 2 * num + den
      ∧ 2 * num < 2 * (roundHalfUp num den * den) + den := by
  have hnum := Nat.div_add_mod' num den
  have hrest := Nat.mod_lt num hden
  have hsucc := Nat.succ_mul (num / den) den
  unfold roundHalfUp
  split
  · rw [hsucc]
    omega
  · omega

/-- Only one integer is within a half, when a tie goes up. -/
theorem eq_of_within_half {q : ℚ} {m n : Int} (hm : (m : ℚ) - 1 / 2 ≤ q ∧ q < m + 1 / 2)
    (hn : (n : ℚ) - 1 / 2 ≤ q ∧ q < n + 1 / 2) : m = n := by
  have hmn : (m : ℚ) < n + 1 := by linarith
  have hnm : (n : ℚ) < m + 1 := by linarith
  norm_cast at hmn hnm
  omega

namespace Decimal

/-- The rational number that a decimal is. -/
def toRat (d : Decimal) : ℚ := d.coefficient * 10 ^ d.exponent

theorem ten_zpow_pos (e : Int) : (0 : ℚ) < 10 ^ e := zpow_pos (by norm_num) e

/-- A power of ten as a ratio. -/
theorem ten_zpow (e : Int) : (10 : ℚ) ^ e = 10 ^ e.toNat / 10 ^ (-e).toNat := by
  obtain ⟨n, rfl | rfl⟩ := Int.eq_nat_or_neg e
  · simp
  · simp

/-- A natural number times a power of ten, rounded to an integer, a tie going up. -/
def roundShifted (n : Nat) (shift : Int) : Nat :=
  if 0 ≤ shift then n * 10 ^ shift.toNat else roundHalfUp n (10 ^ (-shift).toNat)

/-- The rounded integer is within a half. -/
theorem roundShifted_bounds (n : Nat) (shift : Int) :
    (roundShifted n shift : ℚ) - 1 / 2 ≤ n * 10 ^ shift
      ∧ n * 10 ^ shift < (roundShifted n shift : ℚ) + 1 / 2 := by
  rw [ten_zpow]
  unfold roundShifted
  split
  · rename_i hshift
    have hnone : (-shift).toNat = 0 := by omega
    rw [hnone]
    push_cast
    constructor <;> norm_num
  · rename_i hshift
    have hnone : shift.toNat = 0 := by omega
    rw [hnone]
    generalize (-shift).toNat = k
    have hpos : 0 < 10 ^ k := Nat.pow_pos (by decide)
    obtain ⟨hlow, hhigh⟩ := roundHalfUp_bounds n hpos
    generalize roundHalfUp n (10 ^ k) = r at hlow hhigh ⊢
    have hten : (0 : ℚ) < 10 ^ k := by positivity
    have hlow : 2 * ((r : ℚ) * 10 ^ k) ≤ 2 * n + 10 ^ k := by exact_mod_cast hlow
    have hhigh : 2 * (n : ℚ) < 2 * (r * 10 ^ k) + 10 ^ k := by exact_mod_cast hhigh
    rw [pow_zero, mul_one_div]
    constructor
    · rw [le_div_iff₀ hten]
      linarith
    · rw [div_lt_iff₀ hten]
      linarith

theorem roundScaled_eq (d : Decimal) (places : Nat) :
    d.roundScaled places = roundShifted d.coefficient (d.exponent + places) := rfl

/-- Rounding at a place gives the integer within a half. -/
theorem roundScaled_bounds (d : Decimal) (places : Nat) :
    (d.roundScaled places : ℚ) - 1 / 2 ≤ d.toRat * 10 ^ places
      ∧ d.toRat * 10 ^ places < d.roundScaled places + 1 / 2 := by
  have hscaled : d.toRat * 10 ^ places = d.coefficient * 10 ^ (d.exponent + places) := by
    rw [toRat, zpow_add₀ (by norm_num), zpow_natCast, mul_assoc]
  rw [hscaled, roundScaled_eq]
  exact roundShifted_bounds _ _

end Decimal

namespace Binary64

theorem isNaN_eq_false {x : Binary64} (h : x.isFinite = true) : x.isNaN = false :=
  decide_eq_false (Nat.lt_asymm (of_decide_eq_true h))

/-- The rational number that a finite number is. -/
def value (x : Binary64) : ℚ := (if x.isNegative then -1 else 1) * (x.quanta / one)

theorem one_cast_pos : (0 : ℚ) < one := by exact_mod_cast one_quanta_pos

theorem abs_value (x : Binary64) : |x.value| = x.quanta / one := by
  have hpos : (0 : ℚ) ≤ x.quanta / one := div_nonneg (Nat.cast_nonneg _) one_cast_pos.le
  unfold value
  split
  · rw [neg_one_mul, abs_neg, abs_of_nonneg hpos]
  · rw [one_mul, abs_of_nonneg hpos]

/-- The exact expansion of a number has its value without the sign. -/
theorem toRat_toDecimal (x : Binary64) : x.toDecimal.toRat = |x.value| := by
  have hten : (10 : ℚ) ^ (-x.toDecimal.exponent).toNat ≠ 0 := by positivity
  have hvalue : (x.toDecimal.coefficient : ℚ) * 10 ^ x.toDecimal.exponent.toNat * one
      = x.quanta * 10 ^ (-x.toDecimal.exponent).toNat := by
    exact_mod_cast x.value_toDecimal
  rw [abs_value, Decimal.toRat, Decimal.ten_zpow, ← mul_div_assoc,
    div_eq_div_iff hten one_cast_pos.ne', hvalue]

/-- The ratio of quanta that a decimal is read from has its value. -/
theorem toRat_mul_quanta (d : Decimal) : d.toRat * (one * (10 ^ (-d.exponent).toNat : Nat))
    = (d.coefficient * 10 ^ d.exponent.toNat * one : Nat) := by
  rw [Decimal.toRat, Decimal.ten_zpow]
  push_cast
  generalize (one : ℚ) = unit
  field_simp

/-! ## Signs -/

theorem quanta_eq_zero_iff (x : Binary64) : x.quanta = 0 ↔ x.isZero = true := by
  constructor
  · intro h
    by_contra hzero
    have hpos := significand_pos (Bool.eq_false_iff.mpr hzero)
    rw [quanta_eq] at h
    exact absurd h (Nat.mul_ne_zero hpos.ne' (Nat.two_pow_pos _).ne')
  · intro h
    have hmagnitude : x.magnitude = 0 := by simpa [isZero] using h
    unfold quanta significand
    rw [hmagnitude, if_pos (by decide), Nat.zero_mul]

theorem value_eq_zero {x : Binary64} (h : x.isZero = true) : x.value = 0 := by
  rw [value, (quanta_eq_zero_iff x).mpr h, Nat.cast_zero, zero_div, mul_zero]

/-- Only a number other than zero with the sign bit is below zero. -/
theorem value_neg_iff (x : Binary64) :
    x.value < 0 ↔ x.isNegative = true ∧ x.isZero = false := by
  have hone := one_cast_pos
  unfold value
  rw [← Bool.not_eq_true, ← quanta_eq_zero_iff]
  constructor
  · intro h
    split at h
    · rename_i hnegative
      refine ⟨hnegative, fun hzero => ?_⟩
      rw [hzero, Nat.cast_zero, zero_div, mul_zero] at h
      exact lt_irrefl _ h
    · rw [one_mul] at h
      exact absurd h (div_nonneg (Nat.cast_nonneg _) hone.le).not_gt
  · rintro ⟨hnegative, hzero⟩
    rw [if_pos hnegative, neg_one_mul, neg_lt_zero]
    exact div_pos (Nat.cast_pos.mpr (Nat.pos_of_ne_zero hzero)) hone

/-- The minus sign is that of the value. -/
theorem signMark_eq_ite {x : Binary64} (hnan : x.isNaN = false) :
    x.signMark = if x.value < 0 then ['-'] else [] := by
  cases hzero : x.isZero with
  | false =>
    rw [signMark_eq hnan hzero]
    refine if_congr ?_ rfl rfl
    rw [value_neg_iff, hzero]
    simp
  | true =>
    have hvalue : ¬ x.value < 0 := by
      rw [value_neg_iff, hzero]
      simp
    have hmagnitude : x.magnitude = 0 := by simpa [isZero] using hzero
    have hposition : x.position = zero.position := by
      unfold position
      rw [hmagnitude]
      cases x.isNegative <;> rfl
    rw [if_neg hvalue]
    unfold signMark below
    simp [hposition]

/-! ## Order -/

/-- A greater magnitude is a greater count of quanta. -/
theorem quanta_le_of_magnitude_le {x y : Binary64} (h : x.magnitude ≤ y.magnitude) :
    x.quanta ≤ y.quanta := by
  have hscale : x.scale ≤ y.scale := Nat.sub_le_sub_right (Nat.div_le_div_right h) 1
  rw [quanta_eq, quanta_eq]
  rcases Nat.eq_or_lt_of_le hscale with hsame | hless
  · rw [hsame]
    refine Nat.mul_le_mul_right _ ?_
    unfold scale at hsame
    unfold significand
    simp only [Nat.pow_eq] at hsame ⊢
    split <;> split <;> omega
  · have hfull : 2 ^ 52 ≤ y.significand := y.scale_eq_zero_or.resolve_left (by omega)
    calc x.significand * 2 ^ x.scale
        ≤ 2 ^ 53 * 2 ^ x.scale := Nat.mul_le_mul_right _ x.significand_lt.le
      _ = 2 ^ 52 * 2 ^ (x.scale + 1) := by ring
      _ ≤ y.significand * 2 ^ y.scale :=
        Nat.mul_le_mul hfull (Nat.pow_le_pow_right (by decide) hless)

/-- A number without a sign is not at most one of fewer quanta. -/
theorem atMost_eq_false {x y : Binary64} (hx : x.isNegative = false) (hy : y.isNegative = false)
    (h : y.quanta < x.quanta) : x.atMost y = false := by
  have hposition : ¬ x.position ≤ y.position := by
    unfold position
    rw [hx, hy]
    intro hle
    have hmagnitude : x.magnitude ≤ y.magnitude := by simpa using hle
    exact Nat.not_lt_of_le (quanta_le_of_magnitude_le hmagnitude) h
  unfold atMost
  rw [decide_eq_false hposition, Bool.and_false]

/-- Among finite numbers a greater magnitude is more quanta, and no others are. -/
theorem magnitude_le_iff {x y : Binary64} (hx : x.isFinite = true) (hy : y.isFinite = true) :
    x.magnitude ≤ y.magnitude ↔ x.quanta ≤ y.quanta := by
  refine ⟨quanta_le_of_magnitude_le, fun hle => ?_⟩
  by_contra hlt
  have hsame : x.quanta = y.quanta :=
    Nat.le_antisymm hle (quanta_le_of_magnitude_le (Nat.le_of_not_le hlt))
  have hmagnitude : x.magnitude = y.magnitude := by
    rw [← magnitudeOfQuanta_quanta hx, ← magnitudeOfQuanta_quanta hy, hsame]
  exact hlt (Nat.le_of_eq hmagnitude)

/-- The value of a finite number, in units of `2^-1074`. -/
def signedQuanta (x : Binary64) : Int := if x.isNegative then -x.quanta else x.quanta

theorem value_eq_signedQuanta (x : Binary64) : x.value = x.signedQuanta / one := by
  unfold value signedQuanta
  split
  · push_cast
    ring
  · push_cast
    ring

/-- Finite numbers have their places in the order of their values. -/
theorem position_le_iff {x y : Binary64} (hx : x.isFinite = true) (hy : y.isFinite = true) :
    x.position ≤ y.position ↔ x.value ≤ y.value := by
  have hxy := magnitude_le_iff hx hy
  have hyx := magnitude_le_iff hy hx
  have hxzero : x.magnitude = 0 ↔ x.quanta = 0 := by
    rw [quanta_eq_zero_iff, isZero, beq_iff_eq]
  have hyzero : y.magnitude = 0 ↔ y.quanta = 0 := by
    rw [quanta_eq_zero_iff, isZero, beq_iff_eq]
  rw [value_eq_signedQuanta, value_eq_signedQuanta, div_le_div_iff_of_pos_right one_cast_pos,
    Int.cast_le]
  unfold position signedQuanta
  cases x.isNegative <;> cases y.isNegative <;>
    simp only [if_true, Bool.false_eq_true, if_false] <;> omega

theorem atMost_iff {x y : Binary64} (hx : x.isFinite = true) (hy : y.isFinite = true) :
    x.atMost y = true ↔ x.value ≤ y.value := by
  rw [atMost, isNaN_eq_false hx, isNaN_eq_false hy, Bool.not_false, Bool.true_and, Bool.true_and,
    decide_eq_true_eq, position_le_iff hx hy]

theorem isNegative_absolute (x : Binary64) : x.absolute.isNegative = false :=
  isNegative_ofMagnitude false x.magnitude_lt

end Binary64

end ScriptRealm
