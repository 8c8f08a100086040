import ScriptRealm.Proofs.Number.DefaultText
import ScriptRealm.Proofs.Number.Exponential

/-!
# Printed form — the digits of a printed decimal read off again

A printed decimal has digits, a point only before more of them, and behind them the mark
of an exponent or none (`Scientific.Printed`). However the zeros lie in it, before the
point, behind it or at the ends, `Scientific.ofText` reads off digits without zeros at the
ends and the power of ten that the first of them counts, and the text writes that form
(`Scientific.Printed.ofText`). So with a printer that prints such decimals
(`Printer.PrintsDecimals`), which need neither be shortest nor round to the number, the
exponential form without a count of digits loses nothing of the default text
(`Binary64.toExponential_shortest`).
-/

namespace ScriptRealm

namespace Decimal

/-! ## Zeros at the ends -/

/-- Digits without the zeros at their ends. -/
def trimZeros (digits : List Char) : List Char :=
  ((digits.dropWhile (· == '0')).reverse.dropWhile (· == '0')).reverse

theorem ofDigits_leading_zeros (z : Nat) (digits : List Char) :
    ofDigits (List.replicate z '0' ++ digits) = ofDigits digits := by
  rw [ofDigits_append, ofDigits_zeros, Nat.zero_mul, Nat.zero_add]

theorem ofDigits_trailing_zeros (digits : List Char) (z : Nat) :
    ofDigits (digits ++ List.replicate z '0') = ofDigits digits * 10 ^ z := by
  rw [ofDigits_append, ofDigits_zeros, Nat.add_zero, List.length_replicate]

/-- No zero is at the front once these are dropped. -/
theorem head?_dropZeros (digits : List Char) :
    (digits.dropWhile (· == '0')).head? ≠ some '0' := by
  intro h
  simpa [h] using List.head?_dropWhile_not (· == '0') digits

theorem getLast?_trimZeros (digits : List Char) : (trimZeros digits).getLast? ≠ some '0' := by
  unfold trimZeros
  rw [List.getLast?_reverse]
  exact head?_dropZeros _

/-- Between the zeros at the ends of digits that are not all zero stand a digit other than
zero and perhaps more, the last of which is not zero either. -/
theorem exists_trimZeros {digits : List Char} (h : ofDigits digits ≠ 0) :
    ∃ first others z, trimZeros digits = first :: others ∧ first ≠ '0'
      ∧ others.getLast? ≠ some '0'
      ∧ digits.dropWhile (· == '0') = first :: others ++ List.replicate z '0'
      ∧ ofDigits digits = ofDigits (first :: others) * 10 ^ z := by
  obtain ⟨a, ha⟩ := exists_leading_zeros digits
  obtain ⟨z, hz⟩ := exists_trailing_zeros (digits.dropWhile (· == '0'))
  have htrim : digits.dropWhile (· == '0') = trimZeros digits ++ List.replicate z '0' := hz
  have hvalue : ofDigits digits = ofDigits (trimZeros digits) * 10 ^ z := by
    rw [← ofDigits_trailing_zeros, ← htrim]
    conv_lhs => rw [ha, ofDigits_leading_zeros]
  have hlast := getLast?_trimZeros digits
  cases hdigits : trimZeros digits with
  | nil =>
    rw [hdigits] at hvalue
    exact absurd (hvalue.trans (Nat.zero_mul _)) h
  | cons first others =>
    rw [hdigits] at htrim hvalue hlast
    refine ⟨first, others, z, rfl, ?_, ?_, htrim, hvalue⟩
    · have hhead := head?_dropZeros digits
      rw [htrim] at hhead
      simpa using hhead
    · cases others with
      | nil => simp
      | cons second rest => rwa [List.getLast?_cons_cons] at hlast

end Decimal

/-- The significant digits of a decimal text: those before the mark of an exponent, without
the zeros at their ends. -/
def Numeral.significant (text : String) : List Char :=
  Decimal.trimZeros ((text.toList.takeWhile (· != 'e')).filter Char.isDigit)

namespace Scientific

/-! ## Printed decimals -/

/-- What stands behind the digits of a printed decimal: nothing, or the mark of an exponent
that 32 bits hold. -/
inductive Marked : Int → List Char → Prop
  | bare : Marked 0 []
  | signed {e : Int} (least : -2 ^ 31 ≤ e) (below : e < 2 ^ 31) : Marked e (exponentMark e)

/-- Digits, and a point before those of the fraction if there are any. -/
def pointed (whole fraction : List Char) : List Char :=
  whole ++ if fraction = [] then [] else '.' :: fraction

/-- A decimal other than zero as it is printed: digits on both sides of a point, or without
one where none are behind it, and what stands behind them. -/
structure Printed (whole fraction : List Char) (e : Int) (text : List Char) : Prop where
  digits : ∀ c ∈ whole ++ fraction, c.isDigit = true
  nonempty : whole ≠ []
  nonzero : Decimal.ofDigits (whole ++ fraction) ≠ 0
  marked : ∃ mark, Marked e mark ∧ text = pointed whole fraction ++ mark

theorem Marked.parseExponent? {e : Int} {mark : List Char} (h : Marked e mark) :
    Decimal.parseExponent? mark = some e := by
  cases h with
  | bare => rfl
  | signed => exact Decimal.parseExponent?_exponentMark e

theorem Marked.trailingExponent {e : Int} {mark : List Char} (h : Marked e mark) :
    Scientific.trailingExponent mark = e := by
  have hpow : ((Nat.pow 2 31 : Nat) : Int) = 2 ^ 31 := by decide
  have hbits : -2 ^ 31 ≤ e ∧ e < 2 ^ 31 := by
    cases h with
    | bare => decide
    | signed least below => exact ⟨least, below⟩
  unfold Scientific.trailingExponent
  rw [h.parseExponent?, Option.filter_some, hpow, if_pos (decide_eq_true hbits), Option.getD_some]

theorem Marked.head {e : Int} {mark : List Char} (h : Marked e mark) :
    ∀ c ∈ mark.head?, c = 'e' := by
  cases h with
  | bare => simp
  | signed => simp [exponentMark]

theorem Marked.plain {e : Int} {mark : List Char} (h : Marked e mark) : ∀ c ∈ mark, Plain c := by
  cases h with
  | bare => simp
  | signed => exact plain_exponentMark e

section

variable {whole fraction text : List Char} {e : Int}

theorem ne_of_isDigit {c d : Char} (h : c.isDigit = true) (hd : d.isDigit = false) : c ≠ d := by
  rintro rfl
  simp [hd] at h

theorem mem_pointed {c : Char} (h : c ∈ pointed whole fraction) :
    c = '.' ∨ c ∈ whole ++ fraction := by
  unfold pointed at h
  cases fraction with
  | nil => exact .inr (by simpa using h)
  | cons d rest =>
    simp only [List.mem_append, List.mem_cons, reduceCtorEq, if_false] at h ⊢
    tauto

/-- Digits with a point before those of the fraction are taken apart at the point. -/
theorem split_point (h : ∀ c ∈ whole ++ fraction, c.isDigit = true) :
    (pointed whole fraction).takeWhile (· != '.') = whole
      ∧ ((pointed whole fraction).dropWhile (· != '.')).tail = fraction := by
  have hwhole : ∀ c ∈ whole, c ≠ '.' := fun c hc =>
    ne_of_isDigit (h c (List.mem_append_left _ hc)) rfl
  have hpoint : ∀ c ∈ (if fraction = [] then [] else '.' :: fraction).head?, c = '.' := by
    split <;> simp
  obtain ⟨htake, hdrop⟩ := takeWhile_ne_append hwhole hpoint
  unfold pointed
  rw [htake, hdrop]
  cases fraction <;> simp

/-- Behind the digits and the point stands the mark of the exponent. -/
theorem split_mark {mark : List Char} (h : ∀ c ∈ whole ++ fraction, c.isDigit = true)
    (hmark : Marked e mark) :
    (pointed whole fraction ++ mark).takeWhile (· != 'e') = pointed whole fraction
      ∧ (pointed whole fraction ++ mark).dropWhile (· != 'e') = mark := by
  refine takeWhile_ne_append (fun c hc => ?_) hmark.head
  rcases mem_pointed hc with rfl | hc
  · decide
  · exact ne_of_isDigit (h c hc) rfl

/-- The form that is read off a printed decimal. -/
theorem Printed.ofText_eq (h : Printed whole fraction e text) :
    ofText text = ⟨Decimal.trimZeros (whole ++ fraction),
      (whole.length : Int) - ((whole ++ fraction).length
        - ((whole ++ fraction).dropWhile (· == '0')).length : Nat) - 1 + e⟩ := by
  obtain ⟨mark, hmarked, rfl⟩ := h.marked
  obtain ⟨hmantissa, hmark⟩ := split_mark h.digits hmarked
  obtain ⟨hwhole, hfraction⟩ := split_point h.digits
  unfold ofText
  dsimp only
  rw [hmantissa, hmark, hwhole, hfraction, hmarked.trailingExponent]
  rfl

/-- A printed decimal is read as its digits are, those of the fraction behind the point. -/
theorem Printed.parse? (h : Printed whole fraction e text) :
    Decimal.parse? text
      = some ⟨Decimal.ofDigits (whole ++ fraction), e - (fraction.length : Int)⟩ := by
  obtain ⟨hwhole, hfraction⟩ := List.forall_mem_append.mp h.digits
  obtain ⟨mark, hmarked, rfl⟩ := h.marked
  have hstops : Decimal.Stops mark := fun c hc => by
    obtain rfl := hmarked.head c hc
    rfl
  unfold pointed
  cases fraction with
  | nil =>
    have hpoint : mark.head? ≠ some '.' := fun h => absurd (hmarked.head _ h) (by decide)
    have hread := Decimal.parse?_whole hwhole h.nonempty hstops hpoint
    rw [hmarked.parseExponent?] at hread
    simpa using hread
  | cons c rest =>
    have hread := Decimal.parse?_point hwhole hfraction
      (List.append_ne_nil_of_left_ne_nil h.nonempty _) hstops
    rw [hmarked.parseExponent?] at hread
    simpa using hread

theorem Printed.laid (h : Printed whole fraction e text) : Laid text := by
  obtain ⟨mark, hmarked, rfl⟩ := h.marked
  obtain ⟨c, rest, rfl⟩ := List.exists_cons_of_ne_nil h.nonempty
  refine ⟨⟨c, _, rfl, h.digits c (by simp)⟩, List.forall_mem_append.mpr ⟨fun d hd => ?_, ?_⟩⟩
  · rcases mem_pointed hd with rfl | hd
    · exact .inr (by decide)
    · exact .inl (h.digits d hd)
  · exact hmarked.plain

/-- What is read off a printed decimal is its form without zeros at the ends, which the
text writes. -/
theorem Printed.ofText (h : Printed whole fraction e text) :
    (Scientific.ofText text).Writes text ∧ ∃ first others,
      (Scientific.ofText text).digits = first :: others ∧ first ≠ '0'
        ∧ others.getLast? ≠ some '0' ∧ ∀ c ∈ first :: others, c.isDigit = true := by
  obtain ⟨first, others, z, htrim, hfirst, hlast, hdrop, hvalue⟩ :=
    Decimal.exists_trimZeros h.nonzero
  have hlength := (List.dropWhile_sublist (· == '0') (l := whole ++ fraction)).length_le
  have hmem : ∀ c ∈ first :: others, c.isDigit = true := fun c hc => by
    refine h.digits c ((List.dropWhile_sublist (· == '0')).subset ?_)
    rw [hdrop]
    exact List.mem_append_left _ hc
  rw [hdrop] at hlength
  rw [h.ofText_eq, htrim, hdrop]
  simp only [List.length_append, List.length_cons, List.length_replicate] at hlength ⊢
  refine ⟨⟨h.laid, z, e - fraction.length, ?_, ?_⟩, first, others, rfl, hfirst, hlast, hmem⟩
  · rw [h.parse?, hvalue]
    rfl
  · unfold value
    simp only [List.length_cons]
    omega

/-- The digits that are read off a printed decimal are its significant ones. -/
theorem Printed.significant (h : Printed whole fraction e text) (negative : Bool) :
    Numeral.significant (String.ofList ((if negative then ['-'] else []) ++ text))
      = (Scientific.ofText text).digits := by
  have hsign : ∀ c ∈ (if negative then ['-'] else []), (c != 'e') = true := by
    split <;> simp
  have hnone : (if negative then ['-'] else []).filter Char.isDigit = [] := by
    split <;> rfl
  have hpoint : (pointed whole fraction).filter Char.isDigit = whole ++ fraction := by
    have hkeep := List.filter_eq_self.mpr h.digits
    rw [← hkeep]
    unfold pointed
    cases fraction <;> simp
  obtain ⟨mark, hmarked, rfl⟩ := h.marked
  unfold Numeral.significant
  rw [String.toList_ofList, List.takeWhile_append_of_pos hsign, (split_mark h.digits hmarked).1,
    List.filter_append, hnone, hpoint, h.ofText_eq]
  rfl

/-! ## The layouts -/

variable {s : Scientific}

/-- The exponential layout is a printed decimal. -/
theorem printed_exponential (h : s.Lawful) (hnonzero : Decimal.ofDigits s.digits ≠ 0)
    (hleast : -2 ^ 31 ≤ s.exponent) (hbelow : s.exponent < 2 ^ 31) :
    ∃ whole fraction, Printed whole fraction s.exponent s.exponential := by
  obtain ⟨digits, e⟩ := s
  obtain ⟨first, others, rfl⟩ := List.exists_cons_of_ne_nil h.nonempty
  refine ⟨[first], others, h.digits, List.cons_ne_nil _ _, hnonzero, _, .signed hleast hbelow, ?_⟩
  unfold exponential pointed
  rw [pointAfterFirst_cons]
  rfl

/-- Digits behind a point and zeros. -/
theorem printed_behindZeros (h : s.Lawful) (hnonzero : Decimal.ofDigits s.digits ≠ 0) (z : Nat) :
    Printed ['0'] (List.replicate z '0' ++ s.digits) 0
      ('0' :: '.' :: (List.replicate z '0' ++ s.digits)) where
  digits := List.forall_mem_append.mpr ⟨List.forall_mem_singleton.mpr rfl,
    List.forall_mem_append.mpr ⟨fun _ hc => isDigit_of_mem_zeros hc, h.digits⟩⟩
  nonempty := List.cons_ne_nil _ _
  nonzero := by
    rw [← List.append_assoc]
    exact (Decimal.ofDigits_leading_zeros (z + 1) s.digits).trans_ne hnonzero
  marked := ⟨[], .bare, by simp [pointed, h.nonempty]⟩

/-- Digits in front of zeros. -/
theorem printed_beforeZeros (h : s.Lawful) (hnonzero : Decimal.ofDigits s.digits ≠ 0) (z : Nat) :
    Printed (s.digits ++ List.replicate z '0') [] 0 (s.digits ++ List.replicate z '0') where
  digits := by
    rw [List.append_nil]
    exact List.forall_mem_append.mpr ⟨h.digits, fun _ hc => isDigit_of_mem_zeros hc⟩
  nonempty := List.append_ne_nil_of_left_ne_nil h.nonempty _
  nonzero := by
    rw [List.append_nil, Decimal.ofDigits_trailing_zeros]
    exact Nat.mul_ne_zero hnonzero (Nat.pow_pos (by decide)).ne'
  marked := ⟨[], .bare, by simp [pointed]⟩

/-- Digits with a point among them. -/
theorem printed_split (h : s.Lawful) (hnonzero : Decimal.ofDigits s.digits ≠ 0) {n : Nat}
    (hpos : 0 < n) (hlength : n < s.digits.length) :
    Printed (s.digits.take n) (s.digits.drop n) 0 (s.digits.take n ++ '.' :: s.digits.drop n) where
  digits := by
    rw [List.take_append_drop]
    exact h.digits
  nonempty := by simpa using ⟨hpos.ne', h.nonempty⟩
  nonzero := by rwa [List.take_append_drop]
  marked := by
    have hsome : s.digits.drop n ≠ [] := by simpa using hlength
    exact ⟨[], .bare, by simp [pointed, hsome]⟩

/-- The positional layout is a printed decimal, whichever zeros fill it. -/
theorem printed_positional (h : s.Lawful) (hnonzero : Decimal.ofDigits s.digits ≠ 0) :
    ∃ whole fraction, Printed whole fraction 0 s.positional := by
  unfold positional
  dsimp only
  split
  · exact ⟨_, _, printed_behindZeros h hnonzero _⟩
  · split
    · exact ⟨_, _, printed_beforeZeros h hnonzero _⟩
    · exact ⟨_, _, printed_split h hnonzero (Nat.succ_pos _) (by omega)⟩

end

/-- A form that does not begin with a zero is at least the power of ten of its exponent and
below the next one. -/
theorem leading_bounds {s : Scientific} {first : Char} {others : List Char}
    (h : s.digits = first :: others) (hdigits : ∀ c ∈ s.digits, c.isDigit = true)
    (hfirst : first ≠ '0') :
    10 ^ s.exponent ≤ s.value.toRat ∧ s.value.toRat < 10 ^ (s.exponent + 1) := by
  have hunit := Decimal.ten_zpow_pos (s.exponent - (s.digits.length - 1 : Int))
  have hleast := Decimal.le_ofDigits others (hdigits first (h ▸ List.mem_cons_self)) hfirst
  have hbelow := Decimal.ofDigits_lt hdigits
  rw [← h] at hleast
  have hlength : s.digits.length = others.length + 1 := by rw [h, List.length_cons]
  unfold value Decimal.toRat
  dsimp only
  constructor
  · rw [← Decimal.ten_pow_mul others.length
      (show others.length + (s.exponent - (s.digits.length - 1 : Int)) = s.exponent by omega)]
    exact mul_le_mul_of_nonneg_right (by exact_mod_cast hleast) hunit.le
  · rw [← Decimal.ten_pow_mul s.digits.length
      (show s.digits.length + (s.exponent - (s.digits.length - 1 : Int)) = s.exponent + 1 by omega)]
    exact mul_lt_mul_of_pos_right (by exact_mod_cast hbelow) hunit

end Scientific

/-! ## Printers of decimals -/

/-- The printer prints every finite number above zero as a decimal other than zero, plain
or with an exponent that 32 bits hold; `Scientific.trailingExponent` would take any other
for zero. -/
def Printer.PrintsDecimals [Printer] : Prop :=
  ∀ x : Binary64, x.isFinite = true → 0 < x.value →
    ∃ whole fraction e, Scientific.Printed whole fraction e (Printer.print x)

/-- What rounds to a finite number other than zero is far from zero and infinity. -/
theorem Binary64.NearestTo.range {x : Binary64} {q : ℚ} (hsign : x.isNegative = false)
    (hfinite : x.isFinite = true) (hzero : x.isZero = false) (h : x.NearestTo q) :
    10 ^ (-400 : Int) < q ∧ q < 10 ^ (400 : Int) := by
  have hone := one_cast_pos
  have hquanta : 0 < x.quanta := Nat.mul_pos (significand_pos hzero) (Nat.two_pow_pos _)
  have hmiddle := (nearestTo_iff_middle hsign).mp h
  constructor
  · -- at least half of the least count
    have hlow : (1 : ℚ) / one ≤ 2 * q := by
      have hle : (1 : ℚ) / one ≤ (0 : Nat) / one + x.quanta / one := by
        rw [Nat.cast_zero, zero_div, zero_add]
        exact (div_le_div_iff_of_pos_right hone).mpr (Nat.one_le_cast.mpr hquanta)
      rcases (hmiddle 0 (.of_lt (by decide))).2 hquanta with hlt | ⟨heq, -⟩
      · exact hle.trans hlt.le
      · exact hle.trans heq.ge
    have hsmall : (2 : ℚ) * 10 ^ (-400 : Int) < 1 / one := by
      have hunit : 2 * one < 10 ^ 400 := by decide +kernel
      rw [zpow_neg, ← div_eq_mul_inv, div_lt_div_iff₀ (Decimal.ten_zpow_pos 400) hone, one_mul]
      exact_mod_cast hunit
    linarith
  · -- below the count behind the largest
    obtain ⟨top, hwhole, hten, hlargest⟩ : ∃ top : Nat, Representable (top * one)
        ∧ top ≤ 10 ^ 400 ∧ x.quanta < top * one :=
      ⟨2 ^ 1024, (Representable.two_pow 1024).whole, two_pow_le_ten_pow (by decide),
        (Nat.div_lt_iff_lt_mul one_quanta_pos).mp (wholePart_lt hfinite)⟩
    have hcount : ((top * one : Nat) : ℚ) / one = top := by
      rw [Nat.cast_mul, mul_div_cancel_right₀ _ hone.ne']
    have hbelow : (x.quanta : ℚ) / one < top := by
      rw [← hcount]
      exact (div_lt_div_iff_of_pos_right hone).mpr (Nat.cast_lt.mpr hlargest)
    have hhigh : 2 * q ≤ x.quanta / one + top := by
      rw [← hcount]
      rcases (hmiddle _ hwhole).1 hlargest with hlt | ⟨heq, -⟩
      · exact hlt.le
      · exact heq.le
    have hless : q < top := by linarith
    exact hless.trans_le (by exact_mod_cast hten)

/-- A printer that prints the shortest decimals prints decimals. -/
theorem Printer.PrintsShortest.printsDecimals [Printer] (h : Printer.PrintsShortest) :
    Printer.PrintsDecimals := by
  intro x hfinite hpos
  obtain ⟨s, hs, hprint⟩ := h x hfinite hpos
  obtain ⟨hsign, hzero⟩ := Binary64.of_value_pos hpos
  obtain ⟨first, others, hdigits, hfirst⟩ := hs.front
  obtain ⟨hleast, hbelow⟩ := Scientific.leading_bounds hdigits hs.digits hfirst
  obtain ⟨hlow, hhigh⟩ := hs.nearest.range hsign hfinite hzero
  -- the exponent is within 400 on both sides of zero
  have hten : (1 : ℚ) < 10 := by norm_num
  have hlow := (zpow_lt_zpow_iff_right₀ hten).mp (hlow.trans hbelow)
  have hhigh := (zpow_lt_zpow_iff_right₀ hten).mp (hleast.trans_lt hhigh)
  have hnonzero : Decimal.ofDigits s.digits ≠ 0 := by
    have hpower := Decimal.le_ofDigits others (hs.digits first (hdigits ▸ List.mem_cons_self)) hfirst
    rw [hdigits]
    exact (Nat.lt_of_lt_of_le (Nat.pow_pos (by decide)) hpower).ne'
  rw [hprint]
  unfold Scientific.layout
  split
  · obtain ⟨whole, fraction, hprinted⟩ := Scientific.printed_positional hs.lawful hnonzero
    exact ⟨whole, fraction, 0, hprinted⟩
  · obtain ⟨whole, fraction, hprinted⟩ :=
      Scientific.printed_exponential hs.lawful hnonzero (by omega) (by omega)
    exact ⟨whole, fraction, _, hprinted⟩

namespace Binary64

/-! ## The exponential form -/

/-- Without a count of digits the exponential form is laid out from what is read off the
text that is printed. -/
theorem toExponential_none [Printer] {x : Binary64} (hfinite : x.isFinite = true)
    (hzero : x.isZero = false) :
    x.toExponential none = .ok (String.ofList
      (x.signMark ++ (Scientific.ofText (Printer.print x.absolute)).exponential)) := by
  unfold toExponential
  simp only [hfinite, hzero, Bool.not_true, Bool.false_eq_true, if_false]

/-- The exponential form without a count of digits loses nothing of the default text. It
has one digit other than zero before the point, no zero at the end of its digits, and no
point behind a single one. These are the significant digits of the default text, and both
texts denote the same rational number. -/
theorem toExponential_shortest [Printer] (h : Printer.PrintsDecimals) {x : Binary64}
    (hfinite : x.isFinite = true) (hzero : x.isZero = false) :
    ∃ (first : Char) (others : List Char) (e : Int) (sign text : List Char) (q : ℚ),
      sign = (if x.value < 0 then ['-'] else [])
        ∧ first ≠ '0' ∧ others.getLast? ≠ some '0'
        ∧ Scientific.ExponentialForm (first :: others) e text
        ∧ x.toExponential none = .ok (String.ofList (sign ++ text))
        ∧ Numeral.significant x.toText = first :: others
        ∧ Numeral.value? 10 x.toText = some q
        ∧ Numeral.value? 10 (String.ofList (sign ++ text)) = some q := by
  obtain ⟨whole, fraction, e, hprinted⟩ :=
    h x.absolute (by rwa [isFinite_absolute]) (value_absolute_pos hzero)
  obtain ⟨hwrites, first, others, hdigits, hfirst, hlast, hall⟩ := hprinted.ofText
  have hlawful : (Scientific.ofText (Printer.print x.absolute)).Lawful := by
    refine ⟨?_, ?_⟩
    · rw [hdigits]
      exact List.cons_ne_nil _ _
    · rwa [hdigits]
  have hform := Scientific.exponentialForm_exponential hlawful
  rw [hdigits] at hform
  have hsignificant := hprinted.significant x.isNegative
  have hvalue := hwrites.value? x.isNegative
  have hvalue' := (Scientific.writes_exponential hlawful).value? x.isNegative
  rw [← toText_eq hfinite hzero] at hsignificant hvalue
  rw [← signMark_eq (isNaN_eq_false hfinite) hzero] at hvalue'
  exact ⟨first, others, _, x.signMark, _, _, signMark_eq_ite (isNaN_eq_false hfinite), hfirst,
    hlast, hform, toExponential_none hfinite hzero, hsignificant.trans hdigits, hvalue, hvalue'⟩

/-- The zeros that fill the text of 1200000 are no digits of its exponential form. -/
theorem toExponential_shortest_zeros :
    @Printer.PrintsDecimals Printer.shortest
      ∧ (⟨0x41324f8000000000⟩ : Binary64).isFinite = true
      ∧ (⟨0x41324f8000000000⟩ : Binary64).isZero = false
      ∧ toText ⟨0x41324f8000000000⟩ = "1200000"
      ∧ toExponential ⟨0x41324f8000000000⟩ none = .ok "1.2e+6"
      ∧ ∃ e q, Scientific.ExponentialForm (Numeral.significant "1200000") e "1.2e+6".toList
        ∧ Numeral.value? 10 "1200000" = some q ∧ Numeral.value? 10 "1.2e+6" = some q := by
  have hfinite : (⟨0x41324f8000000000⟩ : Binary64).isFinite = true := by decide +kernel
  have hzero : (⟨0x41324f8000000000⟩ : Binary64).isZero = false := by decide +kernel
  have hsign : ¬ (⟨0x41324f8000000000⟩ : Binary64).value < 0 := by
    rw [value_neg_iff]
    decide +kernel
  have hplain : toText ⟨0x41324f8000000000⟩ = "1200000" := by decide +kernel
  have hrun : toExponential ⟨0x41324f8000000000⟩ none = .ok "1.2e+6" := by decide +kernel
  obtain ⟨first, others, e, sign, text, q, rfl, -, -, hform, htext, hdigits, hvalue, hvalue'⟩ :=
    toExponential_shortest Printer.shortest_printsShortest.printsDecimals hfinite hzero
  rw [if_neg hsign, List.nil_append] at htext hvalue'
  rw [hplain] at hdigits hvalue
  obtain rfl : text = "1.2e+6".toList := by
    rw [Except.ok.inj (hrun.symm.trans htext), String.toList_ofList]
  rw [String.ofList_toList] at hvalue'
  rw [← hdigits] at hform
  exact ⟨Printer.shortest_printsShortest.printsDecimals, hfinite, hzero, hplain, hrun, e, q,
    hform, hvalue, hvalue'⟩

end Binary64

end ScriptRealm
