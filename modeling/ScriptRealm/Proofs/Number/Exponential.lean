import ScriptRealm.Proofs.Number.Significant

/-!
# Exponential — the exponential form with a count of digits

`Scientific.ExponentialForm` says when a text writes digits with a point after the
first of them and the power of ten that this first digit counts behind them. The
exponential layout is such a text (`Scientific.exponentialForm_exponential`), and
the digits that it is given are those of the one closest decimal of that many
digits (`Binary64.toExponential_rounds`).
-/

namespace ScriptRealm

namespace Scientific

/-- The text writes the first digit, a point and the other digits if there are any, and
the mark of the exponent with a sign and the digits of its absolute value, which do not
begin with a zero but where it stands alone. -/
inductive ExponentialForm (digits : List Char) (e : Int) : List Char → Prop
  | intro {first : Char} {others power : List Char} (split : digits = first :: others)
      (isDigit : ∀ c ∈ digits ++ power, c.isDigit = true) (nonempty : power ≠ [])
      (front : power = ['0'] ∨ power.head? ≠ some '0')
      (value : Decimal.ofDigits power = e.natAbs) :
      ExponentialForm digits e (first :: (if others = [] then [] else '.' :: others)
        ++ 'e' :: (if e < 0 then '-' else '+') :: power)

/-- The digits of a natural number do not begin with a zero but where it stands alone. -/
theorem front_digits (n : Nat) :
    Decimal.digits n = ['0'] ∨ (Decimal.digits n).head? ≠ some '0' := by
  rcases Nat.eq_zero_or_pos n with rfl | hn
  · exact .inl rfl
  · exact .inr (Decimal.head?_digits hn)

theorem pointAfterFirst_cons (first : Char) (others : List Char) :
    pointAfterFirst (first :: others)
      = first :: if others = [] then [] else '.' :: others := by
  cases others <;> rfl

theorem lawful_digits (n : Nat) (e : Int) : Lawful ⟨Decimal.digits n, e⟩ :=
  ⟨Nat.toDigits_ne_nil, fun _ hc => Decimal.isDigit_of_mem_digits hc⟩

/-- The exponential layout. -/
theorem exponentialForm_exponential {s : Scientific} (h : s.Lawful) :
    ExponentialForm s.digits s.exponent s.exponential := by
  obtain ⟨digits, e⟩ := s
  have hdigits : ∀ c ∈ digits, c.isDigit = true := h.digits
  cases digits with
  | nil => exact absurd rfl h.nonempty
  | cons first others =>
    simp only [exponential, pointAfterFirst_cons, exponentMark]
    refine .intro rfl (List.forall_mem_append.mpr ⟨hdigits, ?_⟩) Nat.toDigits_ne_nil
      (front_digits _) Nat.ofDigitChars_ten_toDigits
    exact fun c hc => Decimal.isDigit_of_mem_digits hc

end Scientific

namespace Binary64

/-- With a count of digits that is accepted, the text is laid out from the significant
digits. -/
theorem toExponential_eq [Printer] {x argument : Binary64} (hfinite : x.isFinite = true) {f : Nat}
    (hcount : DigitMethod.toExponential.count? argument = some f) :
    x.toExponential (some argument)
      = .ok (String.ofList (x.signMark ++ (x.significantForm (f + 1)).exponential)) := by
  unfold toExponential
  simp only [hfinite, hcount, Bool.not_true, Bool.false_eq_true, if_false]

/-- The exponential form with a count of digits is exactly rounded: the text has the
minus sign of the value, and writes the digits of the closest decimal that has so many,
of whatever power, the larger winning a tie. -/
theorem toExponential_rounds [Printer] {x : Binary64} (hfinite : x.isFinite = true)
    (hzero : x.isZero = false) {f : Nat} (hf : f ≤ 20) :
    ∃ (digits : List Char) (e : Int) (text : List Char),
      digits.length = f + 1 ∧ digits.head? ≠ some '0'
        ∧ (∀ (n : Nat) (k : Int),
          Decimal.Closest |x.value| f n k ↔ n = Decimal.ofDigits digits ∧ k = e)
        ∧ Scientific.ExponentialForm digits e text
        ∧ x.toExponential (some (ofNat f))
          = .ok (String.ofList ((if x.value < 0 then ['-'] else []) ++ text)) := by
  obtain ⟨n, e, hform, hclosest⟩ :=
    Decimal.closest_roundSignificant (coefficient_pos hzero) f
  have hvalue : Decimal.ofDigits (Decimal.digits n) = n := Nat.ofDigitChars_ten_toDigits
  have hpos : 0 < n := Nat.lt_of_lt_of_le (Nat.pow_pos (by decide)) hclosest.least
  rw [toRat_toDecimal] at hclosest
  refine ⟨Decimal.digits n, e, Scientific.exponential ⟨Decimal.digits n, e⟩,
    Decimal.length_of_bounds hclosest.least hclosest.below, Decimal.head?_digits hpos,
    fun m k => ?_, Scientific.exponentialForm_exponential (Scientific.lawful_digits n e), ?_⟩
  · rw [hvalue]
    constructor
    · exact fun h => h.unique hclosest
    · rintro ⟨rfl, rfl⟩
      exact hclosest
  · rw [toExponential_eq hfinite (count?_ofNat .toExponential (Nat.zero_le f) hf), significantForm,
      hzero, if_neg Bool.false_ne_true, hform, signMark_eq_ite (isNaN_eq_false hfinite)]

/-- Two nines carry in the number next to 99.95, and the digits stand one power higher. -/
theorem toExponential_rounds_carry :
    (⟨0x4058fccccccccccd⟩ : Binary64).isFinite = true
      ∧ (⟨0x4058fccccccccccd⟩ : Binary64).isZero = false
      ∧ ∃ digits e, digits.length = 3 ∧ digits.head? ≠ some '0'
        ∧ (∀ (n : Nat) (k : Int),
          Decimal.Closest |(⟨0x4058fccccccccccd⟩ : Binary64).value| 2 n k
            ↔ n = Decimal.ofDigits digits ∧ k = e)
        ∧ Scientific.ExponentialForm digits e "1.00e+2".toList := by
  have hfinite : (⟨0x4058fccccccccccd⟩ : Binary64).isFinite = true := by decide +kernel
  have hzero : (⟨0x4058fccccccccccd⟩ : Binary64).isZero = false := by decide +kernel
  have hsign : ¬ (⟨0x4058fccccccccccd⟩ : Binary64).value < 0 := by
    rw [value_neg_iff]
    decide +kernel
  have hrun : toExponential ⟨0x4058fccccccccccd⟩ (some (ofNat 2)) = .ok "1.00e+2" := by
    decide +kernel
  obtain ⟨digits, e, text, hlength, hhead, hclosest, hform, htext⟩ :=
    toExponential_rounds hfinite hzero (f := 2) (by decide)
  rw [if_neg hsign, List.nil_append, hrun] at htext
  have htoList : "1.00e+2".toList = text := by
    rw [Except.ok.inj htext, String.toList_ofList]
  rw [htoList]
  exact ⟨hfinite, hzero, digits, e, hlength, hhead, hclosest, hform⟩

end Binary64

end ScriptRealm
