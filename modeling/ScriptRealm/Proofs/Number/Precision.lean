import Mathlib.Tactic.FieldSimp
import ScriptRealm.Proofs.Number.Exponential
import ScriptRealm.Proofs.Number.Numeral

/-!
# Precision — the form with a count of significant digits

`Scientific.PrecisionForm` says how a count of significant digits is written: as the
exponential form does, or without an exponent while the count reaches the units
place and the number is not below `10^-6`. The layout is such a text
(`Scientific.precisionForm_layout`). It shows the digits of the exponential form of
that many digits, and both texts denote one rational number
(`Binary64.toPrecision_agrees`).

Seventeen digits identify a number: what the digits leave off is less than a quarter
of the distance to the next number, in every binade and below the least one
(`Binary64.ofDecimal_of_close`). So the text is read as the number again
(`Binary64.ofScriptText_toPrecision`).
-/

namespace ScriptRealm

namespace Scientific

/-- The text writes digits, the first of which counts the power `e` of ten, as their
exponential form does if the power is below `-6` or not below the count of digits; else
it shows them without an exponent. -/
inductive PrecisionForm (digits : List Char) (e : Int) (exponential : List Char) :
    List Char → Prop
  /-- The exponential form. -/
  | outside (h : e < -6 ∨ (digits.length : Int) ≤ e) :
    PrecisionForm digits e exponential exponential
  /-- No point: the last digit is that of the units. -/
  | whole (h : e = digits.length - 1) : PrecisionForm digits e exponential digits
  /-- A point after the digit of the units. -/
  | split {whole fraction : List Char} (text : digits = whole ++ fraction) (least : 0 ≤ e)
      (below : e < digits.length - 1) (length : (whole.length : Int) = e + 1) :
    PrecisionForm digits e exponential (whole ++ '.' :: fraction)
  /-- Zeros before the first digit. -/
  | behind {zeros : Nat} (least : -6 ≤ e) (below : e < 0) (count : (zeros : Int) = -(e + 1)) :
    PrecisionForm digits e exponential ('0' :: '.' :: (List.replicate zeros '0' ++ digits))

/-- The positional layout of digits that reach the units place or lie behind it. -/
theorem precisionForm_positional {s : Scientific} (exponential : List Char)
    (hleast : -6 ≤ s.exponent) (hbelow : s.exponent < s.digits.length) :
    PrecisionForm s.digits s.exponent exponential s.positional := by
  unfold positional
  dsimp only
  split
  · rename_i hneg
    exact .behind hleast hneg (by omega)
  · rename_i hpos
    split
    · rename_i hlast
      have hnone : s.exponent.toNat + 1 - s.digits.length = 0 := by omega
      rw [hnone, List.replicate_zero, List.append_nil]
      exact .whole (by omega)
    · rename_i hinside
      refine .split (List.take_append_drop _ _).symm (by omega) (by omega) ?_
      rw [List.length_take]
      omega

/-- The layout of a count of significant digits. -/
theorem precisionForm_layout {s : Scientific} {p : Nat} (h : s.digits.length = p) :
    PrecisionForm s.digits s.exponent s.exponential
      (if s.exponent < -6 ∨ (p : Int) ≤ s.exponent then s.exponential else s.positional) := by
  subst h
  split
  · rename_i houtside
    exact .outside houtside
  · rename_i hinside
    exact precisionForm_positional _ (by omega) (by omega)

/-- Whichever layout is chosen, it writes the form. -/
theorem writes_layout {s : Scientific} (h : s.Lawful) (p : Nat) :
    s.Writes (if s.exponent < -6 ∨ (p : Int) ≤ s.exponent then s.exponential
      else s.positional) := by
  split
  · exact writes_exponential h
  · exact writes_positional h

end Scientific

namespace Binary64

/-! ## The digits -/

/-- The significant digits of a number other than zero are those of the closest decimal
of so many digits. -/
theorem closest_significantForm {x : Binary64} (hzero : x.isZero = false) (f : Nat) :
    ∃ (n : Nat) (e : Int), x.significantForm (f + 1) = ⟨Decimal.digits n, e⟩
      ∧ Decimal.Closest |x.value| f n e := by
  rw [significantForm, hzero, if_neg Bool.false_ne_true, ← toRat_toDecimal]
  exact Decimal.closest_roundSignificant (coefficient_pos hzero) f

theorem lawful_significantForm (x : Binary64) (f : Nat) :
    (x.significantForm (f + 1)).Lawful ∧ (x.significantForm (f + 1)).digits.length = f + 1 := by
  cases hzero : x.isZero with
  | true =>
    rw [significantForm, hzero, if_pos rfl]
    refine ⟨⟨?_, fun c hc => Scientific.isDigit_of_mem_zeros hc⟩, List.length_replicate⟩
    rw [List.replicate_succ]
    exact List.cons_ne_nil _ _
  | false =>
    obtain ⟨n, e, hform, hclosest⟩ := closest_significantForm hzero f
    rw [hform]
    exact ⟨Scientific.lawful_digits n e, Decimal.length_of_bounds hclosest.least hclosest.below⟩

/-- With a count of digits that is accepted, the text is laid out from the significant
digits. -/
theorem toPrecision_eq [Printer] {x argument : Binary64} (hfinite : x.isFinite = true) {p : Nat}
    (hcount : DigitMethod.toPrecision.count? argument = some p) :
    x.toPrecision (some argument)
      = .ok (String.ofList (x.signMark
        ++ if (x.significantForm p).exponent < -6 ∨ (p : Int) ≤ (x.significantForm p).exponent
          then (x.significantForm p).exponential else (x.significantForm p).positional)) := by
  unfold toPrecision
  simp only [hfinite, hcount, Bool.not_true, Bool.false_eq_true, if_false]

theorem toRat_value (s : Scientific) : s.value.toRat
    = Decimal.ofDigits s.digits * 10 ^ (s.exponent - ((s.digits.length : Int) - 1)) := rfl

/-- The text of a count of significant digits shows the digits of the exponential form of
as many, in the place that the power of the first one gives, and denotes the same
rational number. -/
theorem toPrecision_agrees [Printer] {x : Binary64} (hfinite : x.isFinite = true) {p : Nat}
    (hlow : 1 ≤ p) (hhigh : p ≤ 21) :
    ∃ (digits : List Char) (e : Int) (sign exponential text : List Char) (q : ℚ),
      digits.length = p ∧ sign = (if x.value < 0 then ['-'] else [])
        ∧ |q| = Decimal.ofDigits digits * 10 ^ (e - ((p : Int) - 1))
        ∧ Scientific.ExponentialForm digits e exponential
        ∧ Scientific.PrecisionForm digits e exponential text
        ∧ x.toExponential (some (ofNat (p - 1))) = .ok (String.ofList (sign ++ exponential))
        ∧ x.toPrecision (some (ofNat p)) = .ok (String.ofList (sign ++ text))
        ∧ Numeral.value? 10 (String.ofList (sign ++ exponential)) = some q
        ∧ Numeral.value? 10 (String.ofList (sign ++ text)) = some q := by
  obtain ⟨f, rfl⟩ : ∃ f, p = f + 1 := ⟨p - 1, by omega⟩
  obtain ⟨hlawful, hlength⟩ := lawful_significantForm x f
  have hform := Scientific.precisionForm_layout hlength
  have hexponential := toExponential_eq hfinite
    (count?_ofNat .toExponential (Nat.zero_le f) (Nat.le_of_succ_le_succ hhigh))
  have hprecision := toPrecision_eq hfinite (count?_ofNat .toPrecision hlow hhigh)
  have hsign : x.signMark = if decide (x.value < 0) then ['-'] else [] := by
    simp only [decide_eq_true_eq]
    exact signMark_eq_ite (isNaN_eq_false hfinite)
  have hvalue := (Scientific.writes_exponential hlawful).value? (decide (x.value < 0))
  have hvalue' := (Scientific.writes_layout hlawful (f + 1)).value? (decide (x.value < 0))
  have habs : |if decide (x.value < 0) then -(x.significantForm (f + 1)).value.toRat
        else (x.significantForm (f + 1)).value.toRat|
      = Decimal.ofDigits (x.significantForm (f + 1)).digits
        * 10 ^ ((x.significantForm (f + 1)).exponent - (((f + 1 : Nat) : Int) - 1)) := by
    have hnonneg := mul_nonneg
      (Nat.cast_nonneg (Decimal.ofDigits (x.significantForm (f + 1)).digits))
      (Decimal.ten_zpow_pos ((x.significantForm (f + 1)).exponent - (((f + 1 : Nat) : Int) - 1))).le
    rw [toRat_value, hlength]
    split
    · rw [abs_neg, abs_of_nonneg hnonneg]
    · rw [abs_of_nonneg hnonneg]
  rw [← hsign] at hvalue hvalue'
  exact ⟨_, _, x.signMark, _, _, _, hlength, signMark_eq_ite (isNaN_eq_false hfinite), habs,
    Scientific.exponentialForm_exponential hlawful, hform, hexponential, hprecision, hvalue,
    hvalue'⟩

/-- The nines of the number next to 0.00009999996 carry at six digits, and zeros stand
before the digits that are left. -/
theorem toPrecision_agrees_carry :
    (⟨0x3f1a36e23b304421⟩ : Binary64).isFinite = true ∧ 1 ≤ 6 ∧ 6 ≤ 21
      ∧ ∃ digits e q, digits.length = 6 ∧ |q| = Decimal.ofDigits digits * (10 : ℚ) ^ (e - 5)
        ∧ Scientific.ExponentialForm digits e "1.00000e-4".toList
        ∧ Scientific.PrecisionForm digits e "1.00000e-4".toList "0.000100000".toList
        ∧ Numeral.value? 10 "1.00000e-4" = some q ∧ Numeral.value? 10 "0.000100000" = some q := by
  have hfinite : (⟨0x3f1a36e23b304421⟩ : Binary64).isFinite = true := by decide +kernel
  have hsign : ¬ (⟨0x3f1a36e23b304421⟩ : Binary64).value < 0 := by
    rw [value_neg_iff]
    decide +kernel
  have hrun : toExponential ⟨0x3f1a36e23b304421⟩ (some (ofNat 5)) = .ok "1.00000e-4" := by
    decide +kernel
  have hrun' : toPrecision ⟨0x3f1a36e23b304421⟩ (some (ofNat 6)) = .ok "0.000100000" := by
    decide +kernel
  have hlow : 1 ≤ 6 := by decide
  have hhigh : 6 ≤ 21 := by decide
  obtain ⟨digits, e, sign, exponential, text, q, hlength, rfl, habs, hform, hform', htext, htext',
    hvalue, hvalue'⟩ := toPrecision_agrees hfinite hlow hhigh
  rw [if_neg hsign, List.nil_append] at htext htext' hvalue hvalue'
  obtain rfl : exponential = "1.00000e-4".toList := by
    rw [Except.ok.inj (hrun.symm.trans htext), String.toList_ofList]
  obtain rfl : text = "0.000100000".toList := by
    rw [Except.ok.inj (hrun'.symm.trans htext'), String.toList_ofList]
  rw [String.ofList_toList] at hvalue hvalue'
  exact ⟨hfinite, hlow, hhigh, digits, e, q, hlength, habs, hform, hform', hvalue, hvalue'⟩

/-! ## Seventeen digits -/

/-- A ratio that differs from a number by at most the part `1 / (2 · 10 ^ 16)` of it rounds
to the number: since a significand is below `2^53`, that is less than half of the gap, and
at a power of two, below which the gap is half as wide, less than a quarter. -/
theorem roundQuanta_of_close {x : Binary64} {num den : Nat} (hden : 0 < den)
    (hless : 2 * 10 ^ 16 * num ≤ x.quanta * den + 2 * 10 ^ 16 * (x.quanta * den))
    (hmore : 2 * 10 ^ 16 * (x.quanta * den) ≤ x.quanta * den + 2 * 10 ^ 16 * num) :
    roundQuanta num den = x.quanta := by
  have hunits : x.quanta * den = x.significand * (den * 2 ^ x.scale) := by
    rw [quanta_eq]
    ring
  have hunit : 0 < den * 2 ^ x.scale := Nat.mul_pos hden (Nat.two_pow_pos _)
  have hbound : x.significand * (den * 2 ^ x.scale) ≤ (2 ^ 53 - 1) * (den * 2 ^ x.scale) :=
    Nat.mul_le_mul_right _ (Nat.le_sub_one_of_lt x.significand_lt)
  rw [hunits] at hless hmore
  refine roundQuanta_near hden x.significand_lt x.scale_eq_zero_or ?_ (by omega)
    (.inr ⟨by omega, by omega⟩)
  split
  · rename_i hnarrow
    rw [hnarrow.1] at hless hmore ⊢
    omega
  · omega

/-- A decimal that differs from a number by at most the part `1 / (2 · 10 ^ 16)` of it is
read as the number. -/
theorem ofDecimal_of_close {x : Binary64} {d : Decimal} (hfinite : x.isFinite = true)
    (h : 2 * 10 ^ 16 * |d.toRat - (|x.value|)| ≤ |x.value|) : ofDecimal x.isNegative d = x := by
  have hden : 0 < 10 ^ (-d.exponent).toNat := Nat.pow_pos (by decide)
  have hdecimal := toRat_mul_quanta d
  have hnumber : |x.value| * (one * (10 ^ (-d.exponent).toNat : Nat))
      = (x.quanta * 10 ^ (-d.exponent).toNat : Nat) := by
    have hone := one_cast_pos.ne'
    rw [abs_value]
    push_cast
    field_simp
  rw [ofDecimal_eq]
  generalize 10 ^ (-d.exponent).toNat = den at hden hdecimal hnumber ⊢
  generalize d.coefficient * 10 ^ d.exponent.toNat * one = num at hdecimal ⊢
  have hpos : (0 : ℚ) ≤ one * den := (mul_pos one_cast_pos (Nat.cast_pos.mpr hden)).le
  refine ofQuanta_eq_of_roundQuanta hfinite (roundQuanta_of_close hden ?_ ?_)
  · have hless : 2 * 10 ^ 16 * (d.toRat - |x.value|) ≤ |x.value| :=
      (mul_le_mul_of_nonneg_left (le_abs_self _) (by norm_num)).trans h
    have hless := mul_le_mul_of_nonneg_right hless hpos
    rw [mul_assoc, sub_mul, hdecimal, hnumber, mul_sub, sub_le_iff_le_add] at hless
    exact_mod_cast hless
  · have hmore : 2 * 10 ^ 16 * (|x.value| - d.toRat) ≤ |x.value| :=
      (mul_le_mul_of_nonneg_left (le_abs_self _) (by norm_num)).trans (abs_sub_comm d.toRat _ ▸ h)
    have hmore := mul_le_mul_of_nonneg_right hmore hpos
    rw [mul_assoc, sub_mul, hdecimal, hnumber, mul_sub, sub_le_iff_le_add] at hmore
    exact_mod_cast hmore

/-- Seventeen significant digits or more are read as the number. -/
theorem ofDecimal_significantForm {x : Binary64} (hfinite : x.isFinite = true)
    (hzero : x.isZero = false) {f : Nat} (hf : 16 ≤ f) :
    ofDecimal x.isNegative (x.significantForm (f + 1)).value = x := by
  have hclose := Decimal.roundSignificant_close (coefficient_pos hzero) f
  rw [toRat_toDecimal] at hclose
  have hpow : (10 : ℚ) ^ 16 ≤ 10 ^ f := pow_le_pow_right₀ (by norm_num) hf
  rw [significantForm, hzero, if_neg Bool.false_ne_true]
  refine ofDecimal_of_close hfinite (le_trans ?_ hclose)
  exact mul_le_mul_of_nonneg_right (by linarith) (abs_nonneg _)

/-- The text of a finite number at seventeen significant digits or more is read as the
number, up to the sign of zero. -/
theorem ofScriptText_toPrecision [Printer] {x : Binary64} (hfinite : x.isFinite = true) {p : Nat}
    (hlow : 17 ≤ p) (hhigh : p ≤ 21) :
    ∃ text, x.toPrecision (some (ofNat p)) = .ok text ∧ (ofScriptText text).equal x = true := by
  obtain ⟨f, rfl⟩ : ∃ f, p = f + 1 := ⟨p - 1, by omega⟩
  have hnan := isNaN_eq_false hfinite
  have hwrites := Scientific.writes_layout (lawful_significantForm x f).1 (f + 1)
  have hcount : DigitMethod.toPrecision.count? (ofNat (f + 1)) = some (f + 1) :=
    count?_ofNat .toPrecision (Nat.le_trans (by decide) hlow) hhigh
  refine ⟨_, toPrecision_eq hfinite hcount, ?_⟩
  cases hzero : x.isZero with
  | false =>
    rw [signMark_eq hnan hzero, ofScriptText_of_writes hwrites,
      ofDecimal_significantForm hfinite hzero (by omega), equal_self hnan]
  | true =>
    have hsign : x.signMark = if false then ['-'] else [] := by
      rw [signMark_eq_ite hnan, if_neg]
      · rfl
      · rw [value_neg_iff, hzero]
        simp
    have hnone : (x.significantForm (f + 1)).value.coefficient = 0 := by
      rw [significantForm, hzero, if_pos rfl]
      exact Decimal.ofDigits_zeros _
    have hread : ofDecimal false (x.significantForm (f + 1)).value = zero := by
      unfold ofDecimal
      rw [if_pos hnone]
      rfl
    rw [hsign, ofScriptText_of_writes hwrites, hread, zero_equal hzero]

/-- The least positive number is read from its first seventeen digits. -/
theorem ofScriptText_toPrecision_least :
    (⟨1⟩ : Binary64).isFinite = true ∧ 17 ≤ 17 ∧ 17 ≤ 21
      ∧ toPrecision ⟨1⟩ (some (ofNat 17)) = .ok "4.9406564584124654e-324"
      ∧ (ofScriptText "4.9406564584124654e-324").equal ⟨1⟩ = true := by
  have hfinite : (⟨1⟩ : Binary64).isFinite = true := by decide +kernel
  have hrun : toPrecision ⟨1⟩ (some (ofNat 17)) = .ok "4.9406564584124654e-324" := by
    decide +kernel
  have hlow : 17 ≤ 17 := Nat.le_refl 17
  have hhigh : 17 ≤ 21 := by decide
  obtain ⟨text, htext, hread⟩ := ofScriptText_toPrecision hfinite hlow hhigh
  obtain rfl : "4.9406564584124654e-324" = text := Except.ok.inj (hrun.symm.trans htext)
  exact ⟨hfinite, hlow, hhigh, hrun, hread⟩

end Binary64

end ScriptRealm
