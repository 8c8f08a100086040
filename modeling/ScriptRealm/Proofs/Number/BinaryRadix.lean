import ScriptRealm.Proofs.Number.Exact
import ScriptRealm.Proofs.Number.RadixLiteral
import ScriptRealm.Proofs.Number.RadixText

/-!
# Binary radix — the digits of a number in a power of two

In a radix that is a power of two no step of the digit loops is rounded, so the text of
a finite number denotes the number itself (`Binary64.value?_toRadix_two_pow`). The text
of a whole number so has the digits of an integer that 53 bits hold. None of these comes
too late for the reader of literals, which reads the number again behind the prefix of
the radix (`Binary64.toRadix_two_pow_exact`).
-/

namespace ScriptRealm

namespace Literal

/-- A digit that was written is a digit of the radix, and it has the value written. -/
theorem digitValue_digitChar {mark : Char} {radix d : Nat} (h : (mark, radix) ∈ radixMarks)
    (hd : d < radix) :
    digitChar radix d ∈ digitsOf radix ∧ digitValue (digitChar radix d) = d := by
  have hall : ∀ p ∈ radixMarks, ∀ d < p.2,
      digitChar p.2 d ∈ digitsOf p.2 ∧ digitValue (digitChar p.2 d) = d := by decide +kernel
  exact hall _ h d hd

/-- The integer of digits that were written. -/
theorem integer_map_digitChar {mark : Char} {radix : Nat} {digits : List Nat}
    (h : (mark, radix) ∈ radixMarks) (hdigits : ∀ d ∈ digits, d < radix) :
    integer radix (digits.map (digitChar radix)) = Nat.ofDigits radix digits.reverse := by
  have hvalues : (digits.map (digitChar radix)).map digitValue = digits := by
    rw [List.map_map]
    conv_rhs => rw [← List.map_id digits]
    exact List.map_congr_left fun d hd => (digitValue_digitChar h (hdigits d hd)).2
  rw [integer, hvalues]

theorem run_map_digitChar {mark : Char} {radix : Nat} {digits : List Nat}
    (h : (mark, radix) ∈ radixMarks) (hne : digits ≠ []) (hdigits : ∀ d ∈ digits, d < radix) :
    Run radix (digits.map (digitChar radix)) := by
  refine ⟨by simpa using hne, fun c hc => ?_⟩
  obtain ⟨d, hd, rfl⟩ := List.mem_map.mp hc
  exact (digitValue_digitChar h (hdigits d hd)).1

end Literal

namespace Binary64

open RadixExpansion
open Literal (radixMarks Run integer)

/-- No digit of an integer that 53 bits hold comes too late. -/
theorem cut_of_representable {j n k : Nat} (h : Fills (2 ^ j) n k) (hn : Representable n) :
    cut (2 ^ j) n k = n := by
  unfold cut
  refine Nat.div_mul_cancel ?_
  rcases h.filled with rfl | hle
  · rw [Nat.pow_zero]
    exact Nat.one_dvd n
  · rw [← Nat.pow_mul] at hle ⊢
    rw [Nat.le_div_iff_mul_le (Nat.two_pow_pos _), ← Nat.pow_add] at hle
    have hbits : j * k ≤ excessBits n :=
      le_excessBits ((Nat.pow_le_pow_right (by decide) (by omega)).trans hle)
    exact (Nat.pow_dvd_pow 2 hbits).trans hn.two_pow_dvd

/-- The zeros have one text. -/
theorem toRadix_zero [Printer] {x : Binary64} (radix : Nat) (hfinite : x.isFinite = true)
    (hzero : x.isZero = true) : x.toRadix radix = "0" := by
  unfold toRadix toText
  rw [if_pos (.inr (.inr hzero)), isNaN_eq_false hfinite, if_neg Bool.false_ne_true, if_pos hzero]

/-- In a power of two the text of a finite number denotes the number itself. -/
theorem value?_toRadix_two_pow [Printer] {x : Binary64} {j : Nat} (hfinite : x.isFinite = true)
    (hj : 0 < j) (hhigh : 2 ^ j ≤ 36) :
    Numeral.value? (2 ^ j) (x.toRadix (2 ^ j)) = some x.value := by
  have hlow : 2 ≤ 2 ^ j := Nat.pow_le_pow_right (n := 2) (by decide) hj
  cases hzero : x.isZero with
  | true => rw [toRadix_zero _ hfinite hzero, value?_zero hlow hhigh, value_eq_zero hzero]
  | false =>
    have hten : 2 ^ j ≠ 10 := by
      have hall : ∀ j < 6, 2 ^ j ≠ 10 := by decide
      exact hall j ((Nat.pow_lt_pow_iff_right (a := 2) (by decide)).mp (by omega))
    obtain ⟨num, places, hdenotes, hvalue⟩ :=
      denotes_two_pow hj (x := x.absolute) (by rw [isFinite_absolute, hfinite])
    have hpow : (((2 ^ j) ^ places : Nat) : ℚ) ≠ 0 := by positivity
    have hratio : (num : ℚ) / ((2 ^ j) ^ places : Nat) = x.quanta / one := by
      rw [quanta_absolute] at hvalue
      rw [div_eq_div_iff hpow one_cast_pos.ne']
      exact_mod_cast hvalue
    rw [value?_toRadix hlow hhigh hten hfinite hzero, hdenotes.read hlow hhigh, hratio, value]
    generalize (x.quanta : ℚ) / one = q
    cases x.isNegative <;> simp

/-! ## Whole numbers read back -/

/-- A number without a fraction has none in its text. -/
theorem fractionOf_whole {radix : Nat} {x : Binary64} (h : x.quanta % one = 0) :
    fractionOf radix x = ([], false) := by
  have htolerance : ¬ tolerance x ≤ 0 := Nat.not_le_of_lt (Nat.le_max_right _ 1)
  unfold fractionOf
  rw [quanta_sub_wholePart, h, if_neg htolerance]

theorem carriedWhole_whole {radix : Nat} {x : Binary64} (h : x.quanta % one = 0) :
    carriedWhole radix x = x.wholePart * one := by
  unfold carriedWhole
  rw [fractionOf_whole h, if_neg Bool.false_ne_true]

theorem wholePart_absolute (x : Binary64) : x.absolute.wholePart = x.wholePart := by
  rw [wholePart, quanta_absolute, wholePart]

/-- A whole value is a count of ones. -/
theorem quanta_of_value {x : Binary64} {n : Nat} (h : x.value = n) : x.quanta = n * one := by
  have habs : (x.quanta : ℚ) / one = n := by
    rw [← abs_value, h, Nat.abs_cast]
  rw [div_eq_iff one_cast_pos.ne'] at habs
  exact_mod_cast habs

theorem wholePart_of_value {x : Binary64} {n : Nat} (h : x.value = n) : x.wholePart = n := by
  rw [wholePart, quanta_of_value h, Nat.mul_div_cancel _ one_quanta_pos]

theorem representable_of_value {x : Binary64} {n : Nat} (h : x.value = n) : Representable n := by
  have hwhole := representable_wholePart x
  rwa [wholePart_of_value h] at hwhole

/-- A whole number has its digits in a power of two. -/
theorem integerOf_of_value {x : Binary64} {n j : Nat} (hfinite : x.isFinite = true)
    (hvalue : x.value = n) (hj : 0 < j) :
    (∀ d ∈ integerOf (2 ^ j) (n * one), d < 2 ^ j)
      ∧ Nat.ofDigits (2 ^ j) (integerOf (2 ^ j) (n * one)).reverse = n := by
  have hsteps : 2 ^ 1024 ≤ 2 ^ steps := by decide +kernel
  have hbelow := Nat.lt_of_lt_of_le (wholePart_lt hfinite) hsteps
  rw [wholePart_of_value hvalue] at hbelow
  exact integerOf_two_pow hj (representable_of_value hvalue) hbelow

/-- The text of a whole number has the digits of the whole part only. -/
theorem text_whole {radix : Nat} {x : Binary64} (h : x.quanta % one = 0) :
    text radix x = (integerOf radix (x.wholePart * one)).map (digitChar radix) := by
  rw [text_eq, carriedWhole_whole h, fractionOf_whole h]
  simp [Numeral.write]

theorem toRadix_eq_integerOf [Printer] {x : Binary64} {n radix : Nat} (hfinite : x.isFinite = true)
    (hzero : x.isZero = false) (hvalue : x.value = n) (hten : radix ≠ 10) :
    (x.toRadix radix).toList = (integerOf radix (n * one)).map (digitChar radix) := by
  have hsign : ¬ x.value < 0 := by
    rw [hvalue]
    exact not_lt_of_ge (Nat.cast_nonneg n)
  have htext : text radix x.absolute = (integerOf radix (n * one)).map (digitChar radix) := by
    rw [text_whole, wholePart_absolute, wholePart_of_value hvalue]
    rw [quanta_absolute, quanta_of_value hvalue, Nat.mul_mod_left]
  unfold toRadix
  rw [if_neg (by simp [hten, hfinite, hzero]), signMark_eq_ite (isNaN_eq_false hfinite),
    if_neg hsign, String.toList_ofList, List.nil_append, htext]

/-- The text of a whole number is a run of digits that denote it. -/
theorem toRadix_whole [Printer] {x : Binary64} {n : Nat} {mark : Char} {radix : Nat}
    (hfinite : x.isFinite = true) (hvalue : x.value = n) (hmark : (mark, radix) ∈ radixMarks) :
    Run radix (x.toRadix radix).toList ∧ integer radix (x.toRadix radix).toList = n := by
  have hall : ∀ p ∈ radixMarks, p.2 ≠ 10 ∧ 1 < p.2 ∧ '0' ∈ Literal.digitsOf p.2
      ∧ integer p.2 ['0'] = 0 := by decide +kernel
  obtain ⟨hten, hone, hmem, hinteger⟩ := hall _ hmark
  cases hzero : x.isZero with
  | true =>
    have hn : n = 0 := by
      rw [value_eq_zero hzero] at hvalue
      exact_mod_cast hvalue.symm
    rw [toRadix_zero radix hfinite hzero, hn]
    exact ⟨⟨List.cons_ne_nil _ _, List.forall_mem_singleton.mpr hmem⟩, hinteger⟩
  | false =>
    rw [toRadix_eq_integerOf hfinite hzero hvalue hten]
    obtain ⟨j, rfl⟩ := Literal.exists_two_pow hmark
    have hj : 0 < j := by
      refine Nat.pos_of_ne_zero fun hzero => ?_
      rw [hzero] at hone
      exact lt_irrefl 1 hone
    obtain ⟨hdigits, hvalue⟩ := integerOf_of_value hfinite hvalue hj
    rw [Literal.integer_map_digitChar hmark hdigits]
    exact ⟨Literal.run_map_digitChar hmark (integerOf_ne_nil _ _) hdigits, hvalue⟩

/-- The number nearest to its value is the number. -/
theorem nearest_of_value {x : Binary64} {n : Nat} (hfinite : x.isFinite = true)
    (hvalue : x.value = n) : (Numeral.nearest (n : ℚ)).equal x = true := by
  rw [nearest_natCast, ← quanta_of_value hvalue]
  cases hzero : x.isZero with
  | true =>
    have hread : ofQuanta false 0 1 = zero := by decide +kernel
    rw [(quanta_eq_zero_iff x).mpr hzero, hread, zero_equal hzero]
  | false =>
    have hsign : x.isNegative = false := by
      have hpos : ¬ x.value < 0 := by
        rw [hvalue]
        exact not_lt_of_ge (Nat.cast_nonneg n)
      simpa [value_neg_iff, hzero] using hpos
    have hself : ofQuanta x.isNegative (x.quanta * 1) 1 = x := ofQuanta_quanta hfinite Nat.one_pos
    rw [hsign, Nat.mul_one] at hself
    rw [hself, equal_self (isNaN_eq_false hfinite)]

/-- In a radix that is a power of two the text of a finite number denotes the number
itself. Behind the prefix of the radix, if it has one, the text of a whole number that is
not negative is read as the number. -/
theorem toRadix_two_pow_exact [Printer] {x : Binary64} (hfinite : x.isFinite = true) :
    (∀ radix ∈ [2, 4, 8, 16, 32], Numeral.value? radix (x.toRadix radix) = some x.value)
      ∧ ∀ n : Nat, x.value = n → ∀ mark radix, (mark, radix) ∈ radixMarks →
        (ofScriptText (String.ofList ('0' :: mark :: (x.toRadix radix).toList))).equal x
          = true := by
  constructor
  · intro radix hradix
    have hpower : ∀ r ∈ [2, 4, 8, 16, 32], ∃ j < 6, 0 < j ∧ 2 ^ j ≤ 36 ∧ r = 2 ^ j := by decide
    obtain ⟨j, -, hj, hhigh, rfl⟩ := hpower radix hradix
    exact value?_toRadix_two_pow hfinite hj hhigh
  · intro n hvalue mark radix hmark
    obtain ⟨hrun, hinteger⟩ := toRadix_whole hfinite hvalue hmark
    obtain ⟨k, hfills, hread⟩ := ofScriptText_prefixed hmark hrun
    obtain ⟨j, rfl⟩ := Literal.exists_two_pow hmark
    rw [hinteger] at hfills hread
    rw [hread, cut_of_representable hfills (representable_of_value hvalue)]
    exact nearest_of_value hfinite hvalue

/-- The integer `2^58 + 192`, whose last bit of 53 counts 64, in base 32 and behind `0o`. -/
theorem toRadix_two_pow_exact_large :
    (⟨0x4390000000000003⟩ : Binary64).isFinite = true
      ∧ Numeral.value? 32 (toRadix ⟨0x4390000000000003⟩ 32)
        = some (⟨0x4390000000000003⟩ : Binary64).value
      ∧ (⟨0x4390000000000003⟩ : Binary64).value = (2 ^ 58 + 192 : Nat)
      ∧ ('o', 8) ∈ radixMarks
      ∧ (ofScriptText (String.ofList ('0' :: 'o' :: (toRadix ⟨0x4390000000000003⟩ 8).toList))).equal
        ⟨0x4390000000000003⟩ = true := by
  have hfinite : (⟨0x4390000000000003⟩ : Binary64).isFinite = true := by decide
  have hsign : (⟨0x4390000000000003⟩ : Binary64).isNegative = false := by decide
  have hquanta : (⟨0x4390000000000003⟩ : Binary64).quanta = (2 ^ 58 + 192) * one := by
    decide +kernel
  have hvalue : (⟨0x4390000000000003⟩ : Binary64).value = (2 ^ 58 + 192 : Nat) := by
    rw [value, hsign, hquanta, Nat.cast_mul, mul_div_cancel_right₀ _ one_cast_pos.ne']
    simp
  have hmark : ('o', 8) ∈ radixMarks := by decide
  obtain ⟨hexact, hread⟩ := toRadix_two_pow_exact hfinite
  exact ⟨hfinite, hexact 32 (by decide), hvalue, hmark, hread _ hvalue _ _ hmark⟩

end Binary64

end ScriptRealm
