import ScriptRealm.Number.Literal
import ScriptRealm.Proofs.Number.Reading

/-!
# Printing — the decimals that are written

A scientific form writes a decimal (`Scientific.value`). The exact expansion of a number
is a decimal too, and it has the value of the number (`value_toDecimal`).
-/

namespace ScriptRealm

namespace Decimal

/-! ## Digits -/

theorem ofDigits_append (a b : List Char) :
    ofDigits (a ++ b) = ofDigits a * 10 ^ b.length + ofDigits b := by
  have hsplit : ofDigits (a ++ b) = Nat.ofDigitChars 10 b (ofDigits a) :=
    Nat.ofDigitChars_append 0
  rw [hsplit, Nat.ofDigitChars_eq_ofDigitChars_zero, Nat.mul_comm]
  rfl

theorem ofDigits_zeros (n : Nat) : ofDigits (List.replicate n '0') = 0 :=
  Nat.ofDigitChars_replicate_zero.trans (Nat.mul_zero _)

theorem ofDigits_cons (c : Char) (rest : List Char) :
    ofDigits (c :: rest) = digitValue c * 10 ^ rest.length + ofDigits rest := by
  have hsingle : ofDigits [c] = digitValue c := Nat.zero_add _
  rw [← hsingle, ← ofDigits_append]
  rfl

/-- A digit is below ten, and one other than zero is above it. -/
theorem digitValue_bounds {c : Char} (h : c.isDigit = true) :
    digitValue c ≤ 9 ∧ (c ≠ '0' → 1 ≤ digitValue c) := by
  have hbounds : '0'.toNat ≤ c.toNat ∧ c.toNat ≤ '0'.toNat + 9 := Char.isDigit_iff_toNat.mp h
  unfold digitValue
  refine ⟨by omega, fun hne => ?_⟩
  have hcode : c.toNat ≠ '0'.toNat := fun hsame => hne (Char.toNat_inj.mp hsame)
  omega

theorem ofDigits_lt {digits : List Char} (h : ∀ c ∈ digits, c.isDigit = true) :
    ofDigits digits < 10 ^ digits.length := by
  induction digits with
  | nil => decide
  | cons c rest ih =>
    obtain ⟨hdigit, hrest⟩ := List.forall_mem_cons.mp h
    have hlead := Nat.mul_le_mul_right (10 ^ rest.length) (digitValue_bounds hdigit).1
    have hbelow := ih hrest
    rw [ofDigits_cons, List.length_cons, Nat.pow_succ]
    omega

/-- Digits that do not begin with a zero count the power of ten of the first. -/
theorem le_ofDigits {first : Char} (others : List Char) (h : first.isDigit = true)
    (hne : first ≠ '0') : 10 ^ others.length ≤ ofDigits (first :: others) := by
  rw [ofDigits_cons]
  exact (Nat.le_mul_of_pos_left _ ((digitValue_bounds h).2 hne)).trans (Nat.le_add_right _ _)

/-- Digits begin with the zeros that are dropped from their front. -/
theorem exists_leading_zeros (digits : List Char) :
    ∃ z, digits = List.replicate z '0' ++ digits.dropWhile (· == '0') := by
  refine ⟨(digits.takeWhile (· == '0')).length, ?_⟩
  have hzeros : digits.takeWhile (· == '0')
      = List.replicate (digits.takeWhile (· == '0')).length '0' := by
    refine List.eq_replicate_iff.mpr ⟨rfl, fun c hc => ?_⟩
    simpa using List.all_eq_true.mp List.all_takeWhile c hc
  rw [← hzeros, List.takeWhile_append_dropWhile]

/-- Digits end with the zeros that are dropped from their end. -/
theorem exists_trailing_zeros (digits : List Char) :
    ∃ z, digits = (digits.reverse.dropWhile (· == '0')).reverse ++ List.replicate z '0' := by
  obtain ⟨z, hz⟩ := exists_leading_zeros digits.reverse
  refine ⟨z, List.reverse_inj.mp ?_⟩
  rwa [List.reverse_append, List.reverse_replicate, List.reverse_reverse]

theorem isDigit_of_mem_digits {n : Nat} {c : Char} (h : c ∈ digits n) : c.isDigit = true :=
  Nat.isDigit_of_mem_toDigits (by decide) (by decide) h

end Decimal

namespace Scientific

/-- The decimal that a scientific form writes. -/
def value (s : Scientific) : Decimal :=
  ⟨Decimal.ofDigits s.digits, s.exponent - ((s.digits.length : Int) - 1)⟩

/-- There are digits, and they are digits of base ten. -/
structure Lawful (s : Scientific) : Prop where
  nonempty : s.digits ≠ []
  digits : ∀ c ∈ s.digits, c.isDigit = true

end Scientific

namespace Binary64

theorem significand_pos {x : Binary64} (h : x.isZero = false) : 0 < x.significand := by
  have hpos : x.magnitude ≠ 0 := by simpa [isZero] using h
  unfold significand
  simp only [Nat.pow_eq]
  split <;> omega

/-- The exact expansion has the value of the number. -/
theorem value_toDecimal (x : Binary64) :
    x.toDecimal.coefficient * 10 ^ x.toDecimal.exponent.toNat * one
      = x.quanta * 10 ^ (-x.toDecimal.exponent).toNat := by
  unfold toDecimal
  simp only [Nat.pow_eq]
  split
  · rename_i hscale
    have hpow : 2 ^ (x.scale - 1074) * one = 2 ^ x.scale := by
      rw [one_quanta_eq, ← pow_add, Nat.sub_add_cancel hscale]
    calc x.significand * 2 ^ (x.scale - 1074) * 10 ^ 0 * one
        = x.significand * (2 ^ (x.scale - 1074) * one) := by ring
      _ = x.quanta * 10 ^ 0 := by rw [hpow, quanta_eq, Nat.pow_zero, Nat.mul_one]
  · rename_i hscale
    generalize hk : 1074 - x.scale = k
    have hpow : one = 2 ^ x.scale * 2 ^ k := by
      rw [one_quanta_eq, ← pow_add, ← hk, Nat.add_sub_cancel' (by omega)]
    have hneg : (-(k : Int)).toNat = 0 := by omega
    have hpos : (- -(k : Int)).toNat = k := by omega
    have hten : 10 ^ k = 2 ^ k * 5 ^ k := (Nat.mul_pow 2 5 k).symm ▸ rfl
    rw [hneg, hpos, hpow, quanta_eq, hten]
    ring

theorem coefficient_pos {x : Binary64} (h : x.isZero = false) :
    0 < x.toDecimal.coefficient := by
  have hpos := significand_pos h
  unfold toDecimal
  simp only [Nat.pow_eq]
  split
  · exact Nat.mul_pos hpos (Nat.pow_pos (by decide))
  · exact Nat.mul_pos hpos (Nat.pow_pos (by decide))

end Binary64

end ScriptRealm
