import Mathlib.Data.Rat.Floor
import ScriptRealm.Proofs.Number.Exact
import ScriptRealm.Proofs.Sameness

/-!
# Truncation — the integer that a number stands for

An argument that counts something is a number, and what it stands for is an integer or an
infinity (`Binary64.StandsFor`). NaN stands for zero, an infinity for itself, and every
other number for its value without the fraction. No zero among these integers has a sign.

Dropping the fraction of a number rounds nothing, since the bits from the units place on
are representable with the whole (`Binary64.truncate_spec`). What is dropped from a number
between minus one and zero is all but its sign: the zeros are looked for before the
fraction is dropped, and not after. These numbers give the negative zero, and no others do
(`Binary64.toIntegerOrInfinity_eq_negativeZero_iff`). From all others comes the integer
that they stand for (`Binary64.standsFor_toIntegerOrInfinity_iff`).
-/

namespace ScriptRealm

/-- The integer that is left of a rational number without its fraction. -/
def towardZero (q : ℚ) : Int := if q < 0 then ⌈q⌉ else ⌊q⌋

theorem towardZero_of_nonneg {q : ℚ} (h : 0 ≤ q) : towardZero q = ⌊q⌋ := if_neg h.not_gt

theorem towardZero_neg {q : ℚ} (h : 0 ≤ q) : towardZero (-q) = -⌊q⌋ := by
  rcases h.eq_or_lt with rfl | hpos
  · simp [towardZero]
  · rw [towardZero, if_pos (neg_lt_zero.mpr hpos), Int.ceil_neg]

namespace Binary64

/-- The zero that has a sign. -/
def negativeZero : Binary64 := ofMagnitude true 0

/-- The number is between minus one and zero. -/
structure NegativeFraction (x : Binary64) : Prop where
  isFinite : x.isFinite = true
  above : -1 < x.value
  below : x.value < 0

/-- The integer or infinity, without a sign where it is zero, that a number stands for. -/
structure StandsFor (x y : Binary64) : Prop where
  isNaN : y.isNaN = false
  ne_negativeZero : y ≠ negativeZero
  nan : x.isNaN = true → y = zero
  infinite : ∀ negative, y = infinity negative ↔ x = infinity negative
  finite : x.isFinite = true → y.isFinite = true ∧ y.value = towardZero x.value
  fraction : x.isFinite = true → |x.value| < 1 → y = zero

/-! ## The two zeros and the infinities -/

theorem eq_negativeZero_iff {x : Binary64} :
    x = negativeZero ↔ x.isNegative = true ∧ x.isZero = true := by
  constructor
  · rintro rfl
    decide
  · rintro ⟨hsign, hzero⟩
    exact eq_of_magnitude hsign (beq_iff_eq.mp hzero)

theorem eq_zero_of_ne_negativeZero {x : Binary64} (hzero : x.isZero = true)
    (hne : x ≠ negativeZero) : x = zero := by
  cases hsign : x.isNegative with
  | false => exact eq_of_magnitude hsign (beq_iff_eq.mp hzero)
  | true => exact absurd (eq_negativeZero_iff.mpr ⟨hsign, hzero⟩) hne

theorem isFinite_of_isZero {x : Binary64} (h : x.isZero = true) : x.isFinite = true := by
  have hmagnitude : x.magnitude = 0 := beq_iff_eq.mp h
  unfold isFinite
  rw [hmagnitude]
  decide

theorem isFinite_infinity (negative : Bool) : (infinity negative).isFinite = false := by
  cases negative <;> decide

theorem isNaN_infinity (negative : Bool) : (infinity negative).isNaN = false := by
  cases negative <;> decide

theorem ne_infinity {x : Binary64} (h : x.isFinite = true) (negative : Bool) :
    x ≠ infinity negative := by
  rintro rfl
  rw [isFinite_infinity] at h
  cases h

/-! ## Dropping the fraction -/

/-- A number has no whole part when its value is below one. -/
theorem wholePart_eq_zero_iff (x : Binary64) : x.wholePart = 0 ↔ |x.value| < 1 := by
  rw [abs_value, div_lt_one one_cast_pos, Nat.cast_lt, wholePart,
    Nat.div_eq_zero_iff_lt one_quanta_pos]

/-- The value of a number without its fraction is the whole part with the sign. -/
theorem towardZero_value (x : Binary64) :
    towardZero x.value = if x.isNegative then -(x.wholePart : Int) else x.wholePart := by
  have hpos : (0 : ℚ) ≤ x.quanta / one := div_nonneg (Nat.cast_nonneg _) one_cast_pos.le
  have hfloor : ⌊(x.quanta / one : ℚ)⌋ = x.wholePart := by
    rw [Rat.floor_natCast_div_natCast, wholePart, Int.natCast_div]
  unfold value
  split
  · rw [neg_one_mul, towardZero_neg hpos, hfloor]
  · rw [one_mul, towardZero_of_nonneg hpos, hfloor]

/-- A finite number without its fraction is a finite number with its sign and whole part. -/
theorem truncate_spec {x : Binary64} (h : x.isFinite = true) :
    x.truncate.isFinite = true ∧ x.truncate.isNegative = x.isNegative
      ∧ x.truncate.quanta = x.wholePart * one := by
  have hwhole : Representable (x.wholePart * one) := x.representable_wholePart.whole
  have hdatum : x.truncate
      = ofMagnitude x.isNegative (magnitudeOfQuanta (x.wholePart * one)) := by
    rw [truncate, if_pos h, ofQuanta, roundQuanta_one hwhole]
  obtain ⟨hfinite, hquanta⟩ := quanta_ofMagnitude x.isNegative hwhole
    (Nat.mul_lt_mul_of_pos_right (wholePart_lt h) one_quanta_pos)
  rw [hdatum]
  exact ⟨hfinite, isNegative_ofMagnitude _ ((magnitudeOfQuanta_le _).trans_lt (by decide)), hquanta⟩

theorem truncate_of_not_isFinite {x : Binary64} (h : x.isFinite = false) : x.truncate = x := by
  rw [truncate, h, if_neg Bool.false_ne_true]

theorem value_truncate {x : Binary64} (h : x.isFinite = true) :
    x.truncate.value = towardZero x.value := by
  obtain ⟨-, hsign, hquanta⟩ := truncate_spec h
  rw [towardZero_value, value, hsign, hquanta, Nat.cast_mul,
    mul_div_cancel_right₀ _ one_cast_pos.ne']
  cases x.isNegative <;> simp

theorem isZero_truncate_iff {x : Binary64} (h : x.isFinite = true) :
    x.truncate.isZero = true ↔ |x.value| < 1 := by
  obtain ⟨-, -, hquanta⟩ := truncate_spec h
  rw [← quanta_eq_zero_iff, hquanta, ← wholePart_eq_zero_iff, Nat.mul_eq_zero,
    or_iff_left one_quanta_pos.ne']

/-- There is no fraction left to drop. -/
theorem truncate_truncate (x : Binary64) : x.truncate.truncate = x.truncate := by
  cases h : x.isFinite with
  | false => rw [truncate_of_not_isFinite h, truncate_of_not_isFinite h]
  | true =>
    obtain ⟨hfinite, hsign, hquanta⟩ := truncate_spec h
    have hwhole : x.truncate.wholePart = x.wholePart := by
      rw [wholePart, hquanta, Nat.mul_div_cancel _ one_quanta_pos]
    rw [truncate, if_pos hfinite, hsign, hwhole, truncate, if_pos h]

/-! ## What a number stands for -/

/-- A negative fraction has a sign, is not zero, and is below one without the sign. -/
theorem negativeFraction_iff {x : Binary64} :
    x.NegativeFraction ↔ x.isFinite = true ∧ (x.isNegative = true ∧ x.isZero = false)
      ∧ |x.value| < 1 := by
  rw [← value_neg_iff, abs_lt]
  constructor
  · rintro ⟨hfinite, habove, hbelow⟩
    exact ⟨hfinite, hbelow, habove, hbelow.trans zero_lt_one⟩
  · rintro ⟨hfinite, hbelow, habove, -⟩
    exact ⟨hfinite, habove, hbelow⟩

theorem standsFor_of_isNaN {x : Binary64} (h : x.isNaN = true) : x.StandsFor zero where
  isNaN := rfl
  ne_negativeZero := by decide
  nan _ := rfl
  infinite negative := by
    refine iff_of_false (ne_infinity (by decide) negative) ?_
    rintro rfl
    rw [isNaN_infinity] at h
    cases h
  finite hfinite := by
    rw [isNaN_eq_false hfinite] at h
    cases h
  fraction _ _ := rfl

theorem standsFor_of_infinite {x : Binary64} (hnan : x.isNaN = false)
    (hfinite : x.isFinite = false) : x.StandsFor x where
  isNaN := hnan
  ne_negativeZero := by
    rintro rfl
    exact absurd hfinite (by decide)
  nan h := by
    rw [hnan] at h
    cases h
  infinite _ := Iff.rfl
  finite h := by
    rw [hfinite] at h
    cases h
  fraction h := by
    rw [hfinite] at h
    cases h

theorem standsFor_of_fraction {x : Binary64} (hfinite : x.isFinite = true)
    (h : |x.value| < 1) : x.StandsFor zero where
  isNaN := rfl
  ne_negativeZero := by decide
  nan _ := rfl
  infinite negative := iff_of_false (ne_infinity (by decide) negative) (ne_infinity hfinite negative)
  finite _ := by
    refine ⟨by decide, ?_⟩
    rw [value_eq_zero (by decide), towardZero_value, (wholePart_eq_zero_iff x).mpr h]
    simp
  fraction _ _ := rfl

theorem standsFor_of_one_le {x : Binary64} (hfinite : x.isFinite = true)
    (h : ¬ |x.value| < 1) : x.StandsFor x.truncate where
  isNaN := isNaN_eq_false (truncate_spec hfinite).1
  ne_negativeZero hzero := h ((isZero_truncate_iff hfinite).mp (eq_negativeZero_iff.mp hzero).2)
  nan hnan := by
    rw [isNaN_eq_false hfinite] at hnan
    cases hnan
  infinite negative := iff_of_false (ne_infinity (truncate_spec hfinite).1 negative)
    (ne_infinity hfinite negative)
  finite _ := ⟨(truncate_spec hfinite).1, value_truncate hfinite⟩
  fraction _ hsmall := absurd hsmall h

/-! ## The conversion -/

/-- NaN and the zeros are looked for before the fraction is dropped. -/
theorem toIntegerOrInfinity_cases (x : Binary64) :
    (x.isNaN = true ∨ x.isZero = true) ∧ x.toIntegerOrInfinity = zero
      ∨ (x.isNaN = false ∧ x.isZero = false) ∧ x.toIntegerOrInfinity = x.truncate := by
  unfold toIntegerOrInfinity
  split
  · next hnone => exact .inl ⟨Bool.or_eq_true_iff.mp hnone, rfl⟩
  · next hother => exact .inr ⟨Bool.or_eq_false_iff.mp (Bool.eq_false_iff.mpr hother), rfl⟩

/-- Only a negative fraction keeps a sign when nothing else is left of it. -/
theorem toIntegerOrInfinity_eq_negativeZero_iff {x : Binary64} :
    x.toIntegerOrInfinity = negativeZero ↔ x.NegativeFraction := by
  rw [negativeFraction_iff]
  rcases x.toIntegerOrInfinity_cases with ⟨hnone, hgives⟩ | ⟨⟨-, hzero⟩, hgives⟩
  · rw [hgives]
    refine iff_of_false (by decide) fun ⟨hfinite, ⟨_, hother⟩, _⟩ => ?_
    rw [isNaN_eq_false hfinite, hother] at hnone
    exact hnone.elim Bool.noConfusion Bool.noConfusion
  · rw [hgives, eq_negativeZero_iff]
    cases hfinite : x.isFinite with
    | false =>
      -- An infinity stays, and is not a zero.
      rw [truncate_of_not_isFinite hfinite, hzero]
      exact iff_of_false (fun h => Bool.noConfusion h.2) fun h => Bool.noConfusion h.1
    | true =>
      rw [isZero_truncate_iff hfinite, (truncate_spec hfinite).2.1]
      simp [hzero]

/-- The conversion gives the integer that a number stands for, unless that is zero and the
number is negative. -/
theorem standsFor_toIntegerOrInfinity_iff (x : Binary64) :
    x.StandsFor x.toIntegerOrInfinity ↔ ¬ x.NegativeFraction := by
  rw [← toIntegerOrInfinity_eq_negativeZero_iff]
  refine ⟨StandsFor.ne_negativeZero, fun hne => ?_⟩
  rcases x.toIntegerOrInfinity_cases with ⟨hnan | hzero, hgives⟩ | ⟨⟨hnan, -⟩, hgives⟩
  · rw [hgives]
    exact standsFor_of_isNaN hnan
  · have hsmall : |x.value| < 1 := by
      rw [value_eq_zero hzero, abs_zero]
      exact zero_lt_one
    rw [hgives]
    exact standsFor_of_fraction (isFinite_of_isZero hzero) hsmall
  · rw [hgives] at hne ⊢
    cases hfinite : x.isFinite with
    | false =>
      rw [truncate_of_not_isFinite hfinite]
      exact standsFor_of_infinite hnan hfinite
    | true =>
      -- Below one a zero is left, and by assumption it has no sign.
      by_cases hsmall : |x.value| < 1
      · rw [eq_zero_of_ne_negativeZero ((isZero_truncate_iff hfinite).mpr hsmall) hne]
        exact standsFor_of_fraction hfinite hsmall
      · exact standsFor_of_one_le hfinite hsmall

/-- What the conversion gives is numerically the integer that the number stands for. -/
theorem exists_standsFor (x : Binary64) :
    ∃ y, x.StandsFor y ∧ x.toIntegerOrInfinity.equal y = true := by
  by_cases hnegative : x.NegativeFraction
  · rw [toIntegerOrInfinity_eq_negativeZero_iff.mpr hnegative]
    exact ⟨zero, standsFor_of_fraction hnegative.isFinite (negativeFraction_iff.mp hnegative).2.2,
      by decide⟩
  · have hstands := x.standsFor_toIntegerOrInfinity_iff.mpr hnegative
    exact ⟨_, hstands, equal_self hstands.isNaN⟩

/-- What the conversion gives is converted to itself, but for the negative zero. -/
theorem toIntegerOrInfinity_again_iff (x : Binary64) :
    x.toIntegerOrInfinity.toIntegerOrInfinity.sameValue x.toIntegerOrInfinity = true
      ↔ ¬ x.NegativeFraction := by
  by_cases hnegative : x.NegativeFraction
  · rw [toIntegerOrInfinity_eq_negativeZero_iff.mpr hnegative]
    exact iff_of_false (by decide) (not_not_intro hnegative)
  · refine iff_of_true (sameValue_iff.mpr (.inl ?_)) hnegative
    have hstands := x.standsFor_toIntegerOrInfinity_iff.mpr hnegative
    rcases x.toIntegerOrInfinity_cases with ⟨-, hgives⟩ | ⟨-, hgives⟩
    · rw [hgives]
      decide
    · rw [hgives] at hstands ⊢
      rcases x.truncate.toIntegerOrInfinity_cases with ⟨hnone, hagain⟩ | ⟨-, hagain⟩
      · rw [hstands.isNaN, or_iff_right Bool.false_ne_true] at hnone
        rw [hagain, eq_zero_of_ne_negativeZero hnone hstands.ne_negativeZero]
      · rw [hagain, truncate_truncate]

end Binary64

end ScriptRealm
