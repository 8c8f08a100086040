import ScriptRealm.Number.Layout
import ScriptRealm.Proofs.Blank
import ScriptRealm.Proofs.Number.Printing

/-!
# Round trip — what is laid out is read back

The layouts of a scientific form are read back as the decimal that the form
writes (`Scientific.Writes`), whatever digits were chosen, and with a sign before
them as the number nearest to it (`Binary64.ofScriptText_of_writes`).
-/

namespace ScriptRealm

namespace Decimal

/-! ## Reading what was laid out -/

/-- The text does not go on with a digit. -/
def Stops (rest : List Char) : Prop := ∀ c ∈ rest.head?, c.isDigit = false

theorem takeWhile_digits {whole rest : List Char} (h : ∀ c ∈ whole, c.isDigit = true)
    (hrest : Stops rest) : (whole ++ rest).takeWhile Char.isDigit = whole := by
  rw [List.takeWhile_append_of_pos h]
  cases rest with
  | nil => simp
  | cons c rest => rw [List.takeWhile_cons_of_neg (by simp [hrest c rfl]), List.append_nil]

theorem dropWhile_digits {whole rest : List Char} (h : ∀ c ∈ whole, c.isDigit = true)
    (hrest : Stops rest) : (whole ++ rest).dropWhile Char.isDigit = rest := by
  rw [List.dropWhile_append_of_pos h]
  cases rest with
  | nil => rfl
  | cons c rest => rw [List.dropWhile_cons_of_neg (by simp [hrest c rfl])]

/-- Digits without a point are the whole coefficient. -/
theorem parse?_whole {whole rest : List Char} (h : ∀ c ∈ whole, c.isDigit = true)
    (hne : whole ≠ []) (hrest : Stops rest) (hpoint : rest.head? ≠ some '.') :
    parse? (whole ++ rest)
      = (parseExponent? rest).map fun exponent => ⟨ofDigits whole, exponent⟩ := by
  unfold parse?
  rw [takeWhile_digits h hrest, dropWhile_digits h hrest]
  dsimp only
  split
  · rename_i r
    exact absurd rfl hpoint
  · simp [hne]

/-- Digits on the two sides of a point are one coefficient; one side may have none. -/
theorem parse?_point {whole fraction rest : List Char} (h : ∀ c ∈ whole, c.isDigit = true)
    (hfraction : ∀ c ∈ fraction, c.isDigit = true) (hne : whole ++ fraction ≠ [])
    (hrest : Stops rest) :
    parse? (whole ++ '.' :: (fraction ++ rest))
      = (parseExponent? rest).map fun exponent =>
        ⟨ofDigits (whole ++ fraction), exponent - (fraction.length : Int)⟩ := by
  have hstops : Stops ('.' :: (fraction ++ rest)) := by
    rintro c ⟨⟩
    rfl
  have hsome : (whole.isEmpty && fraction.isEmpty) = false := by simpa using hne
  unfold parse?
  rw [takeWhile_digits h hstops, dropWhile_digits h hstops]
  simp [takeWhile_digits hfraction hrest, dropWhile_digits hfraction hrest, hsome]

/-- The exponent is read back from its mark. -/
theorem parseExponent?_exponentMark (e : Int) :
    parseExponent? (Scientific.exponentMark e) = some e := by
  have hdigits : ((digits e.natAbs).isEmpty || !(digits e.natAbs).all Char.isDigit) = false := by
    have hne : (digits e.natAbs).isEmpty = false :=
      List.isEmpty_eq_false_iff.mpr Nat.toDigits_ne_nil
    have hall : (digits e.natAbs).all Char.isDigit = true :=
      List.all_eq_true.mpr fun c hc => isDigit_of_mem_digits hc
    rw [hne, hall]
    rfl
  have hvalue : ofDigits (digits e.natAbs) = e.natAbs := Nat.ofDigitChars_ten_toDigits
  unfold Scientific.exponentMark parseExponent?
  by_cases he : e < 0
  · simp only [he, if_true, hdigits, hvalue, true_or, Bool.false_eq_true, if_false]
    congr 1
    omega
  · simp only [he, if_true, hdigits, hvalue, true_or, Bool.false_eq_true, if_false]
    congr 1
    omega

end Decimal

namespace Scientific

/-- The characters that a number is laid out with. -/
def Plain (c : Char) : Prop := c.isDigit = true ∨ c ∈ ['.', 'e', '+', '-']

instance : DecidablePred Plain := fun c =>
  inferInstanceAs (Decidable (c.isDigit = true ∨ c ∈ ['.', 'e', '+', '-']))

/-- The text starts with a digit, and it is written with plain characters. -/
structure Laid (text : List Char) : Prop where
  leads : ∃ c rest, text = c :: rest ∧ c.isDigit = true
  plain : ∀ c ∈ text, Plain c

theorem plain_exponentMark (e : Int) : ∀ c ∈ exponentMark e, Plain c := by
  unfold exponentMark
  have hsign : Plain (if e < 0 then '-' else '+') := by
    split <;> exact .inr (by decide)
  refine List.forall_mem_cons.mpr ⟨.inr (by decide), List.forall_mem_cons.mpr ⟨hsign, ?_⟩⟩
  exact fun c hc => .inl (Decimal.isDigit_of_mem_digits hc)

theorem stops_exponentMark (e : Int) : Decimal.Stops (exponentMark e) := by
  rintro c ⟨⟩
  rfl

/-- The exponential form is read as the decimal that it writes. -/
theorem parse?_exponential {s : Scientific} (h : s.Lawful) :
    Decimal.parse? s.exponential = some s.value := by
  obtain ⟨digits, e⟩ := s
  unfold exponential value
  have hall : ∀ c ∈ digits, c.isDigit = true := h.digits
  cases digits with
  | nil => exact absurd rfl h.nonempty
  | cons first rest =>
    obtain ⟨hfirst, hrest⟩ := List.forall_mem_cons.mp hall
    have hlead : ∀ c ∈ [first], c.isDigit = true := by simpa using hfirst
    cases rest with
    | nil =>
      have hread := Decimal.parse?_whole hlead (List.cons_ne_nil _ _) (stops_exponentMark e)
        (by simp [exponentMark])
      rw [Decimal.parseExponent?_exponentMark] at hread
      simpa [pointAfterFirst] using hread
    | cons second rest =>
      have hread := Decimal.parse?_point hlead hrest (List.cons_ne_nil _ _) (stops_exponentMark e)
      rw [Decimal.parseExponent?_exponentMark] at hread
      simpa [pointAfterFirst] using hread

theorem laid_exponential {s : Scientific} (h : s.Lawful) : Laid s.exponential := by
  obtain ⟨digits, e⟩ := s
  unfold exponential
  have hall : ∀ c ∈ digits, c.isDigit = true := h.digits
  cases digits with
  | nil => exact absurd rfl h.nonempty
  | cons first rest =>
    obtain ⟨hfirst, hrest⟩ := List.forall_mem_cons.mp hall
    cases rest with
    | nil =>
      refine ⟨⟨first, _, rfl, hfirst⟩, ?_⟩
      exact List.forall_mem_cons.mpr ⟨.inl hfirst, plain_exponentMark e⟩
    | cons second rest =>
      refine ⟨⟨first, _, rfl, hfirst⟩, ?_⟩
      refine List.forall_mem_append.mpr ⟨?_, plain_exponentMark e⟩
      refine List.forall_mem_cons.mpr ⟨.inl hfirst, List.forall_mem_cons.mpr ⟨.inr (by decide), ?_⟩⟩
      exact fun c hc => .inl (hrest c hc)

theorem stops_nil : Decimal.Stops [] := by
  rintro c ⟨⟩

theorem isDigit_of_mem_zeros {n : Nat} {c : Char} (h : c ∈ List.replicate n '0') :
    c.isDigit = true := by
  rw [(List.mem_replicate.mp h).2]
  rfl

theorem parseExponent?_nil : Decimal.parseExponent? [] = some 0 := rfl

/-- Digits behind a point and zeros. -/
theorem parse?_behindZeros {digits : List Char} (h : ∀ c ∈ digits, c.isDigit = true) (n : Nat) :
    Decimal.parse? ('0' :: '.' :: (List.replicate n '0' ++ digits))
      = some ⟨Decimal.ofDigits digits, -((n + digits.length : Nat) : Int)⟩ := by
  have hfraction : ∀ c ∈ List.replicate n '0' ++ digits, c.isDigit = true :=
    List.forall_mem_append.mpr ⟨fun c hc => isDigit_of_mem_zeros hc, h⟩
  have hlead : ∀ c ∈ ['0'], c.isDigit = true := List.forall_mem_singleton.mpr rfl
  have hzero : Decimal.ofDigits ['0'] = 0 := rfl
  have hread := Decimal.parse?_point hlead hfraction (List.cons_ne_nil _ _) stops_nil
  rw [List.append_nil, Decimal.ofDigits_append, Decimal.ofDigits_append, Decimal.ofDigits_zeros,
    hzero, List.length_append, List.length_replicate] at hread
  simpa [parseExponent?_nil] using hread

/-- Digits in front of zeros. -/
theorem parse?_beforeZeros {digits : List Char} (h : ∀ c ∈ digits, c.isDigit = true)
    (hne : digits ≠ []) (n : Nat) :
    Decimal.parse? (digits ++ List.replicate n '0')
      = some ⟨Decimal.ofDigits digits * 10 ^ n, 0⟩ := by
  have hwhole : ∀ c ∈ digits ++ List.replicate n '0', c.isDigit = true :=
    List.forall_mem_append.mpr ⟨h, fun c hc => isDigit_of_mem_zeros hc⟩
  have hread := Decimal.parse?_whole hwhole (List.append_ne_nil_of_left_ne_nil hne _) stops_nil
    (by decide)
  rw [List.append_nil, Decimal.ofDigits_append, Decimal.ofDigits_zeros, Nat.add_zero,
    List.length_replicate] at hread
  exact hread

/-- Digits with a point among them. -/
theorem parse?_split {digits : List Char} (h : ∀ c ∈ digits, c.isDigit = true) {n : Nat}
    (hpos : 0 < n) (hlength : n < digits.length) :
    Decimal.parse? (digits.take n ++ '.' :: digits.drop n)
      = some ⟨Decimal.ofDigits digits, -((digits.length - n : Nat) : Int)⟩ := by
  have hwhole : ∀ c ∈ digits.take n, c.isDigit = true :=
    fun c hc => h c (List.mem_of_mem_take hc)
  have hfraction : ∀ c ∈ digits.drop n, c.isDigit = true :=
    fun c hc => h c (List.mem_of_mem_drop hc)
  have hne : digits.take n ≠ [] := by
    refine List.ne_nil_of_length_pos ?_
    rw [List.length_take]
    omega
  have hread := Decimal.parse?_point hwhole hfraction (List.append_ne_nil_of_left_ne_nil hne _)
    stops_nil
  rw [List.append_nil, List.take_append_drop, List.length_drop] at hread
  simpa [parseExponent?_nil] using hread

/-- The positional form is read as the decimal that it writes, zeros moved between
coefficient and exponent. -/
theorem parse?_positional {s : Scientific} (h : s.Lawful) :
    ∃ (z : Nat) (e : Int), Decimal.parse? s.positional = some ⟨s.value.coefficient * 10 ^ z, e⟩
      ∧ s.value.exponent = e + z := by
  obtain ⟨digits, e⟩ := s
  have hall : ∀ c ∈ digits, c.isDigit = true := h.digits
  have hlength : 0 < digits.length := List.length_pos_iff.mpr h.nonempty
  unfold positional value
  dsimp only
  split
  · refine ⟨0, -(((-e - 1).toNat + digits.length : Nat) : Int), ?_, by omega⟩
    rw [pow_zero, Nat.mul_one]
    exact parse?_behindZeros hall _
  · split
    · exact ⟨_, 0, parse?_beforeZeros hall h.nonempty _, by omega⟩
    · refine ⟨0, -((digits.length - (e.toNat + 1) : Nat) : Int), ?_, by omega⟩
      rw [pow_zero, Nat.mul_one]
      exact parse?_split hall (Nat.succ_pos _) (by omega)

theorem laid_positional {s : Scientific} (h : s.Lawful) : Laid s.positional := by
  obtain ⟨digits, e⟩ := s
  have hall : ∀ c ∈ digits, c.isDigit = true := h.digits
  unfold positional
  dsimp only
  cases digits with
  | nil => exact absurd rfl h.nonempty
  | cons first rest =>
    have hplain : ∀ c ∈ first :: rest, Plain c := fun c hc => .inl (hall c hc)
    have hzeros : ∀ n, ∀ c ∈ List.replicate n '0', Plain c := fun n c hc =>
      .inl (isDigit_of_mem_zeros hc)
    split
    · refine ⟨⟨'0', _, rfl, rfl⟩, ?_⟩
      refine List.forall_mem_cons.mpr ⟨.inl rfl, List.forall_mem_cons.mpr ⟨.inr (by decide), ?_⟩⟩
      exact List.forall_mem_append.mpr ⟨hzeros _, hplain⟩
    · split
      · refine ⟨⟨first, _, rfl, hall _ List.mem_cons_self⟩, ?_⟩
        exact List.forall_mem_append.mpr ⟨hplain, hzeros _⟩
      · refine ⟨⟨first, _, rfl, hall _ List.mem_cons_self⟩, ?_⟩
        refine List.forall_mem_append.mpr ⟨fun c hc => hplain c (List.mem_of_mem_take hc), ?_⟩
        refine List.forall_mem_cons.mpr ⟨.inr (by decide), ?_⟩
        exact fun c hc => hplain c (List.mem_of_mem_drop hc)

/-- The text is laid out from a scientific form, and read as the decimal that the form
writes, zeros moved between coefficient and exponent. -/
structure Writes (s : Scientific) (text : List Char) : Prop where
  laid : Laid text
  reads : ∃ (z : Nat) (e : Int), Decimal.parse? text = some ⟨s.value.coefficient * 10 ^ z, e⟩
    ∧ s.value.exponent = e + z

theorem writes_exponential {s : Scientific} (h : s.Lawful) : s.Writes s.exponential := by
  refine ⟨laid_exponential h, 0, s.value.exponent, ?_, (Int.add_zero _).symm⟩
  rw [pow_zero, Nat.mul_one]
  exact parse?_exponential h

theorem writes_positional {s : Scientific} (h : s.Lawful) : s.Writes s.positional :=
  ⟨laid_positional h, parse?_positional h⟩

/-- What a form writes is read as one number. -/
theorem Writes.ofDecimal {s : Scientific} {text : List Char} (h : s.Writes text) :
    ∃ d, Decimal.parse? text = some d
      ∧ ∀ negative, Binary64.ofDecimal negative d = Binary64.ofDecimal negative s.value := by
  obtain ⟨z, e, hparse, hexponent⟩ := h.reads
  refine ⟨_, hparse, fun negative => ?_⟩
  rw [Binary64.ofDecimal_mul_pow, ← hexponent]

end Scientific

namespace Binary64

/-! ## Reading the text of a number -/

/-- Where no letter after a zero names a radix, infinity or a decimal is read. -/
theorem ofTrimmedText_unmarked {text : List Char} (hne : text ≠ [])
    (hmark : ∀ mark rest, text = '0' :: mark :: rest → mark ∉ ['x', 'X', 'o', 'O', 'b', 'B']) :
    ofTrimmedText text = if (splitSign text).2 = "Infinity".toList then infinity (splitSign text).1
      else ((Decimal.parse? (splitSign text).2).map (ofDecimal (splitSign text).1)).getD nan := by
  unfold ofTrimmedText
  split
  case h_1 => exact absurd rfl hne
  case h_8 =>
    dsimp only
    cases Decimal.parse? (splitSign text).2 <;> rfl
  all_goals exact absurd (by decide) (hmark _ _ rfl)

theorem ofTrimmedText_decimal {text unsigned : List Char} {negative : Bool} {d : Decimal}
    (hne : text ≠ []) (hmark : ∀ mark rest, text = '0' :: mark :: rest → Scientific.Plain mark)
    (hsign : splitSign text = (negative, unsigned)) (hinfinity : unsigned ≠ "Infinity".toList)
    (hparse : Decimal.parse? unsigned = some d) : ofTrimmedText text = ofDecimal negative d := by
  have hnames : ∀ mark ∈ ['x', 'X', 'o', 'O', 'b', 'B'], ¬ Scientific.Plain mark := by
    simp [Scientific.Plain]
  rw [ofTrimmedText_unmarked hne fun mark rest h hname => hnames mark hname (hmark mark rest h),
    hsign, if_neg hinfinity, hparse]
  rfl

/-- A text that is laid out from digits is read as a decimal, with its sign. -/
theorem ofTrimmedText_laid (negative : Bool) {text : List Char} {d : Decimal}
    (hlaid : Scientific.Laid text) (hparse : Decimal.parse? text = some d) :
    ofTrimmedText ((if negative then ['-'] else []) ++ text) = ofDecimal negative d := by
  obtain ⟨c, rest, rfl, hc⟩ := hlaid.leads
  have hinfinity : c :: rest ≠ "Infinity".toList := by
    intro h
    obtain rfl : c = 'I' := (List.cons.inj h).1
    exact absurd hc (by decide)
  cases negative with
  | false =>
    refine ofTrimmedText_decimal (List.cons_ne_nil _ _) (fun mark tail h => ?_) ?_ hinfinity hparse
    · exact hlaid.plain mark (by rw [show c :: rest = '0' :: mark :: tail from h]; simp)
    · unfold splitSign
      split
      · rename_i h
        obtain rfl : c = '-' := (List.cons.inj h).1
        exact absurd hc (by decide)
      · rename_i h
        obtain rfl : c = '+' := (List.cons.inj h).1
        exact absurd hc (by decide)
      · rfl
  | true =>
    refine ofTrimmedText_decimal (List.cons_ne_nil _ _) (fun mark tail h => ?_) rfl hinfinity hparse
    exact absurd (List.cons.inj h).1 (by decide)

/-- Nothing that a number is laid out with is blank. -/
theorem script_eq_false_of_plain {c : Char} (h : Scientific.Plain c) :
    Blank.script c = false := by
  have hrange : 0x2B ≤ c.toNat ∧ c.toNat ≤ 0x65 := by
    rcases h with h | h
    · unfold Char.isDigit at h
      simp only [Bool.and_eq_true, decide_eq_true_eq, ge_iff_le, UInt32.le_iff_toNat_le] at h
      have hlow : 0x30 ≤ c.toNat := h.1
      have hhigh : c.toNat ≤ 0x39 := h.2
      omega
    · simp only [List.mem_cons, List.not_mem_nil, or_false] at h
      rcases h with rfl | rfl | rfl | rfl <;> decide
  simp only [Blank.script, Blank.shared, Bool.or_eq_false_iff, Bool.and_eq_false_iff,
    decide_eq_false_iff_not, beq_eq_false_iff_ne]
  omega

theorem signMark_eq {x : Binary64} (hnan : x.isNaN = false) (hzero : x.isZero = false) :
    x.signMark = if x.isNegative then ['-'] else [] := by
  have hpos : x.magnitude ≠ 0 := by simpa [isZero] using hzero
  have hbelow : x.below zero = x.isNegative := by
    have hzero : zero.isNaN = false := rfl
    have hposition : zero.position = 0 := rfl
    unfold below
    rw [hnan, hzero, hposition]
    unfold position
    cases x.isNegative
    · simp
    · simpa using Nat.pos_of_ne_zero hpos
  unfold signMark
  rw [hbelow]

/-- What a form writes is read with its sign as the decimal of the form. -/
theorem ofScriptText_of_writes {s : Scientific} {text : List Char} (h : s.Writes text)
    (negative : Bool) :
    ofScriptText (String.ofList ((if negative then ['-'] else []) ++ text))
      = ofDecimal negative s.value := by
  obtain ⟨d, hparse, hvalue⟩ := h.ofDecimal
  have hplain : ∀ c ∈ (if negative then ['-'] else []) ++ text, Scientific.Plain c := by
    refine List.forall_mem_append.mpr ⟨?_, h.laid.plain⟩
    split
    · exact List.forall_mem_singleton.mpr (.inr (by decide))
    · simp
  have hblank : ∀ c ∈ (if negative then ['-'] else []) ++ text, ¬ Blank.script c = true :=
    fun c hc => Bool.eq_false_iff.mp (script_eq_false_of_plain (hplain c hc))
  unfold ofScriptText
  rw [String.toList_ofList, Blank.trim_of_ends (fun c hc => hblank c (List.mem_of_mem_head? hc))
      fun c hc => hblank c (List.mem_of_mem_getLast? hc),
    ofTrimmedText_laid _ h.laid hparse, hvalue]

theorem equal_self {x : Binary64} (h : x.isNaN = false) : x.equal x = true := by
  unfold equal
  simp [h]

/-- The zeros are equal. -/
theorem zero_equal {x : Binary64} (h : x.isZero = true) : zero.equal x = true := by
  have hmagnitude : x.magnitude = 0 := beq_iff_eq.mp h
  unfold equal isNaN position
  rw [hmagnitude]
  cases x.isNegative <;> rfl

theorem sameValueZero_refl (x : Binary64) : x.sameValueZero x = true := by
  unfold sameValueZero equal
  cases x.isNaN <;> simp

/-- An infinity is what its name with its sign reads as. -/
theorem ofScriptText_infinity (negative : Bool) :
    ofScriptText (String.ofList ((if negative then ['-'] else []) ++ "Infinity".toList))
      = infinity negative := by
  cases negative <;> decide +kernel

end Binary64

end ScriptRealm
