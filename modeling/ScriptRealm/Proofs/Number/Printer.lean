import Mathlib.Tactic.MkIffOfInductiveProp
import ScriptRealm.Proofs.Number.Exact

/-!
# Printer — what is asked of a printer of numbers

The text of a finite number above zero comes from a `Printer`, of which nothing is
known. What a result asks of it is said here and taken as a hypothesis: a printer
prints the shortest decimals (`Printer.PrintsShortest`) when it lays out, for each
such number, a decimal that rounds to the number, that has no more digits than any
other which does, and that is the closest of those with as many
(`Scientific.ShortestFor`).

Rounding is stated here over all representable counts (`Binary64.NearestTo`) and
without the way in which a ratio is rounded. The two agree (`Binary64.nearestTo_iff`),
so a decimal is read as the number that it rounds to (`Binary64.NearestTo.reads`).
-/

namespace ScriptRealm

/-! ## The nearer of two values -/

section

variable {a b : ℚ}

theorem sq_sub_sq_middle (a b q : ℚ) :
    (b - q) ^ 2 - (a - q) ^ 2 = (b - a) * (a + b - 2 * q) := by
  ring

/-- Below the middle of two values the lower one is nearer. -/
theorem abs_sub_lt_iff_lt_middle (h : a < b) (q : ℚ) :
    |a - q| < |b - q| ↔ 2 * q < a + b := by
  rw [← sq_lt_sq, ← sub_pos, sq_sub_sq_middle, mul_pos_iff_of_pos_left (sub_pos.mpr h), sub_pos]

/-- Above the middle of two values the higher one is nearer. -/
theorem abs_sub_lt_iff_middle_lt (h : a < b) (q : ℚ) :
    |b - q| < |a - q| ↔ a + b < 2 * q := by
  rw [← sq_lt_sq, ← sub_pos, ← neg_sub, sq_sub_sq_middle, ← mul_neg, neg_sub,
    mul_pos_iff_of_pos_left (sub_pos.mpr h), sub_pos]

/-- Two values are as far from their middle, and from nothing else. -/
theorem abs_sub_eq_iff_eq_middle (h : a < b) (q : ℚ) :
    |b - q| = |a - q| ↔ 2 * q = a + b := by
  rw [← sq_eq_sq_iff_abs_eq_abs, ← sub_eq_zero, sq_sub_sq_middle,
    mul_eq_zero_iff_left (sub_pos.mpr h).ne', sub_eq_zero, eq_comm]

end

namespace Binary64

/-! ## The number that a value rounds to -/

/-- The value rounds to the number, which is above zero: every other representable count
of quanta is farther away than the number, or as far while the significand of the number
is even. Counts beyond the largest number are among them, since a value that is nearest to
one of these rounds to infinity. -/
def NearestTo (x : Binary64) (q : ℚ) : Prop :=
  ∀ n, Representable n → n ≠ x.quanta →
    |x.value - q| < |n / one - q| ∨ |x.value - q| = |n / one - q| ∧ x.significand % 2 = 0

theorem value_of_nonneg {x : Binary64} (h : x.isNegative = false) : x.value = x.quanta / one := by
  rw [value, h, if_neg Bool.false_ne_true, one_mul]

/-- The ratio is within half a gap of the count `m * 2 ^ s`, and at half the gap only when
the significand `m` is even. Just below a power of two the gap is half as wide. -/
@[mk_iff]
structure WithinHalfGap (m s num den : Nat) : Prop where
  low : if m = 2 ^ 52 ∧ 0 < s then 4 * (m * (den * 2 ^ s)) ≤ 4 * num + den * 2 ^ s
    else 2 * (m * (den * 2 ^ s)) ≤ 2 * num + den * 2 ^ s
  high : 2 * num ≤ 2 * (m * (den * 2 ^ s)) + den * 2 ^ s
  tie : m % 2 = 0 ∨ 2 * (m * (den * 2 ^ s)) < 2 * num + den * 2 ^ s
    ∧ 2 * num < 2 * (m * (den * 2 ^ s)) + den * 2 ^ s

theorem WithinHalfGap.rounds {x : Binary64} {num den : Nat}
    (h : WithinHalfGap x.significand x.scale num den) (hden : 0 < den) :
    roundQuanta num den = x.quanta :=
  roundQuanta_near hden x.significand_lt x.scale_eq_zero_or h.low h.high h.tie

section

variable {x : Binary64} {q : ℚ} {num den : Nat}

/-- A ratio of quanta compared with the middle of two counts. -/
theorem compare_middle (hden : 0 < den) (hq : q * (one * den) = num) (m n : Nat) :
    (2 * q < m / one + n / one ↔ 2 * num < (m + n) * den)
      ∧ ((m : ℚ) / one + n / one < 2 * q ↔ (m + n) * den < 2 * num)
      ∧ (2 * q = m / one + n / one ↔ 2 * num = (m + n) * den) := by
  have hpos : (0 : ℚ) < one * den := mul_pos one_cast_pos (Nat.cast_pos.mpr hden)
  have hone := one_cast_pos.ne'
  have hmiddle : ((m : ℚ) / one + n / one) * (one * den) = ((m + n) * den : Nat) := by
    push_cast
    field_simp
  have hratio : 2 * q * (one * den) = (2 * num : Nat) := by
    push_cast
    rw [mul_assoc, hq]
  refine ⟨?_, ?_, ?_⟩
  · rw [← mul_lt_mul_iff_of_pos_right hpos, hmiddle, hratio, Nat.cast_lt]
  · rw [← mul_lt_mul_iff_of_pos_right hpos, hmiddle, hratio, Nat.cast_lt]
  · rw [← mul_left_inj' hpos.ne', hmiddle, hratio, Nat.cast_inj]

/-- A value rounds to the number when it keeps to the side of the number at the middle of
the number and every other count; an even significand has the middle too. -/
theorem nearestTo_iff_middle (hsign : x.isNegative = false) :
    x.NearestTo q ↔ ∀ n, Representable n →
      (x.quanta < n → 2 * q < x.quanta / one + n / one
          ∨ 2 * q = x.quanta / one + n / one ∧ x.significand % 2 = 0)
        ∧ (n < x.quanta → (n : ℚ) / one + x.quanta / one < 2 * q
          ∨ 2 * q = n / one + x.quanta / one ∧ x.significand % 2 = 0) := by
  have hcast : ∀ m n : Nat, m < n → (m : ℚ) / one < n / one := fun m n h =>
    (div_lt_div_iff_of_pos_right one_cast_pos).mpr (Nat.cast_lt.mpr h)
  unfold NearestTo
  rw [value_of_nonneg hsign]
  refine forall₂_congr fun n _ => ?_
  rcases Nat.lt_trichotomy x.quanta n with h | rfl | h
  · rw [abs_sub_lt_iff_lt_middle (hcast _ _ h), eq_comm (a := |_|),
      abs_sub_eq_iff_eq_middle (hcast _ _ h)]
    simp only [h, h.ne', h.not_gt, ne_eq, not_false_eq_true, forall_const, false_imp_iff, and_true]
  · simp only [ne_eq, not_true_eq_false, lt_irrefl, false_imp_iff, and_self]
  · rw [abs_sub_lt_iff_middle_lt (hcast _ _ h), abs_sub_eq_iff_eq_middle (hcast _ _ h)]
    simp only [h, h.ne, h.not_gt, ne_eq, not_false_eq_true, forall_const, false_imp_iff, true_and]

/-- The same for a ratio of quanta. -/
theorem nearestTo_iff_sides (hsign : x.isNegative = false) (hden : 0 < den)
    (hq : q * (one * den) = num) :
    x.NearestTo q ↔ ∀ n, Representable n →
      (x.quanta < n → 2 * num < (x.quanta + n) * den
          ∨ 2 * num = (x.quanta + n) * den ∧ x.significand % 2 = 0)
        ∧ (n < x.quanta → (n + x.quanta) * den < 2 * num
          ∨ 2 * num = (n + x.quanta) * den ∧ x.significand % 2 = 0) := by
  have hmiddle := compare_middle hden hq
  rw [nearestTo_iff_middle hsign]
  simp only [(hmiddle _ _).1, (hmiddle _ _).2.1, (hmiddle _ _).2.2]

/-- The next count below a power of two has a unit half as large. -/
theorem NearestTo.low_of_power (hsign : x.isNegative = false) (hden : 0 < den)
    (hq : q * (one * den) = num) (h : x.NearestTo q) (hpower : x.significand = 2 ^ 52)
    (hscale : 0 < x.scale) :
    4 * (x.significand * (den * 2 ^ x.scale)) ≤ 4 * num + den * 2 ^ x.scale := by
  obtain ⟨t, ht⟩ := Nat.exists_eq_succ_of_ne_zero hscale.ne'
  have hquanta : (2 ^ 53 - 1) * 2 ^ t + 2 ^ t = x.quanta := by
    rw [quanta_eq, hpower, ht, Nat.succ_eq_add_one]
    ring
  have hnext := ((nearestTo_iff_sides hsign hden hq).mp h _
    ((Representable.of_lt (n := 2 ^ 53 - 1) (by decide)).mul_two_pow t)).2
      (hquanta ▸ Nat.lt_add_of_pos_right (Nat.two_pow_pos t))
  have hmiddle : 2 * (((2 ^ 53 - 1) * 2 ^ t + x.quanta) * den) + den * 2 ^ x.scale
      = 4 * (x.significand * (den * 2 ^ x.scale)) := by
    rw [quanta_eq, hpower, ht, Nat.succ_eq_add_one]
    ring
  omega

theorem NearestTo.within (hsign : x.isNegative = false) (hzero : x.isZero = false)
    (hden : 0 < den) (hq : q * (one * den) = num) (h : x.NearestTo q) :
    WithinHalfGap x.significand x.scale num den := by
  have hsides := (nearestTo_iff_sides hsign hden hq).mp h
  have hpower := h.low_of_power hsign hden hq
  have hlt := x.significand_lt
  obtain ⟨m, hm⟩ := Nat.exists_eq_succ_of_ne_zero (significand_pos hzero).ne'
  rw [quanta_eq, hm] at hsides
  rw [hm] at hlt hpower ⊢
  generalize x.scale = s at hsides hpower ⊢
  have hgrow : ∀ k, k * 2 ^ s < (k + 1) * 2 ^ s := fun k =>
    Nat.mul_lt_mul_of_pos_right (Nat.lt_succ_self k) (Nat.two_pow_pos s)
  have habove := (hsides _ ((Representable.of_le (Nat.succ_le_of_lt hlt)).mul_two_pow s)).1
    (hgrow _)
  have hbelow := (hsides _ ((Representable.of_lt (by omega)).mul_two_pow s)).2 (hgrow m)
  have hupper : ((m + 1) * 2 ^ s + (m + 1 + 1) * 2 ^ s) * den
      = 2 * ((m + 1) * (den * 2 ^ s)) + den * 2 ^ s := by ring
  have hlower : (m * 2 ^ s + (m + 1) * 2 ^ s) * den + den * 2 ^ s
      = 2 * ((m + 1) * (den * 2 ^ s)) := by ring
  simp only [Nat.succ_eq_add_one, hupper] at habove hbelow hpower ⊢
  refine ⟨?_, by omega, by omega⟩
  split
  · next hnarrow => exact hpower hnarrow.1 hnarrow.2
  · omega

/-- Rounding to the number by the distances of all counts is rounding the ratio. -/
theorem nearestTo_iff (hsign : x.isNegative = false) (hzero : x.isZero = false)
    (hden : 0 < den) (hq : q * (one * den) = num) :
    x.NearestTo q ↔ roundQuanta num den = x.quanta := by
  constructor
  · exact fun h => (h.within hsign hzero hden hq).rounds hden
  · intro h
    refine (nearestTo_iff_sides hsign hden hq).mpr fun n hn => ?_
    have hnear := roundQuanta_nearest num hden hn
    have htie := @roundQuanta_tie num den n hden hn
    have heven : 2 ^ (excessBits x.quanta + 1) ∣ x.quanta → x.significand % 2 = 0 := fun hdvd => by
      rw [excessBits_quanta, quanta_eq, Nat.pow_succ'] at hdvd
      exact Nat.mod_eq_zero_of_dvd (Nat.dvd_of_mul_dvd_mul_right (Nat.two_pow_pos _) hdvd)
    rw [h] at hnear htie
    rw [Nat.add_mul, Nat.add_mul]
    constructor
    · intro hlt
      have hscaled := Nat.mul_lt_mul_of_pos_right hlt hden
      have hdvd := htie hlt.ne'
      by_cases hmiddle : 2 * num = x.quanta * den + n * den
      · exact .inr ⟨hmiddle, heven (hdvd (by omega))⟩
      · exact .inl (by omega)
    · intro hlt
      have hscaled := Nat.mul_lt_mul_of_pos_right hlt hden
      have hdvd := htie hlt.ne
      by_cases hmiddle : 2 * num = n * den + x.quanta * den
      · exact .inr ⟨hmiddle, heven (hdvd (by omega))⟩
      · exact .inl (by omega)

/-- The ratios that round to a number are those within half a gap of it. -/
theorem nearestTo_iff_within (hsign : x.isNegative = false) (hzero : x.isZero = false)
    (hden : 0 < den) (hq : q * (one * den) = num) :
    x.NearestTo q ↔ WithinHalfGap x.significand x.scale num den :=
  ⟨NearestTo.within hsign hzero hden hq,
    fun h => (nearestTo_iff hsign hzero hden hq).mpr (h.rounds hden)⟩

/-- Only what is above zero rounds to a number above zero. -/
theorem NearestTo.pos (hsign : x.isNegative = false) (hzero : x.isZero = false)
    (h : x.NearestTo q) : 0 < q := by
  have hquanta : 0 < x.quanta := Nat.mul_pos (significand_pos hzero) (Nat.two_pow_pos _)
  have hvalue : (0 : ℚ) < x.quanta / one := div_pos (Nat.cast_pos.mpr hquanta) one_cast_pos
  rcases ((nearestTo_iff_middle hsign).mp h 0 (.of_lt (by decide))).2 hquanta with
    hlt | ⟨hmiddle, -⟩
  · rw [Nat.cast_zero, zero_div, zero_add] at hlt
    linarith
  · rw [Nat.cast_zero, zero_div, zero_add] at hmiddle
    linarith

theorem nearestTo_value (hsign : x.isNegative = false) : x.NearestTo x.value := by
  intro n _ hne
  refine .inl ?_
  rw [sub_self, abs_zero, abs_pos, value_of_nonneg hsign, ← sub_div]
  refine div_ne_zero (sub_ne_zero.mpr ?_) one_cast_pos.ne'
  exact_mod_cast hne

/-- Between two values that round to the number every value does. -/
theorem NearestTo.between {p r : ℚ} (hp : x.NearestTo p) (hr : x.NearestTo r)
    (hsign : x.isNegative = false) (hlow : p ≤ q) (hhigh : q ≤ r) : x.NearestTo q := by
  rw [nearestTo_iff_middle hsign] at hp hr ⊢
  refine fun n hn => ⟨fun h => ?_, fun h => ?_⟩
  · rcases (hr n hn).1 h with hlt | ⟨hmiddle, heven⟩
    · exact .inl (by linarith)
    · rcases hhigh.lt_or_eq with hlt | rfl
      · exact .inl (by linarith)
      · exact .inr ⟨hmiddle, heven⟩
  · rcases (hp n hn).2 h with hlt | ⟨hmiddle, heven⟩
    · exact .inl (by linarith)
    · rcases hlow.lt_or_eq with hlt | rfl
      · exact .inl (by linarith)
      · exact .inr ⟨hmiddle, heven⟩

end

section

variable {x : Binary64}

theorem isZero_absolute (x : Binary64) : x.absolute.isZero = x.isZero := by
  unfold isZero absolute
  rw [magnitude_ofMagnitude false x.magnitude_lt]

theorem of_value_pos (h : 0 < x.value) : x.isNegative = false ∧ x.isZero = false := by
  have hzero : x.isZero = false := by
    by_contra hzero
    exact h.ne' (value_eq_zero (by simpa using hzero))
  refine ⟨?_, hzero⟩
  by_contra hsign
  exact h.not_gt ((value_neg_iff x).mpr ⟨by simpa using hsign, hzero⟩)

theorem value_absolute_pos (h : x.isZero = false) : 0 < x.absolute.value := by
  rw [value_of_nonneg (isNegative_absolute x)]
  refine div_pos (Nat.cast_pos.mpr (Nat.pos_of_ne_zero fun hquanta => ?_)) one_cast_pos
  rw [quanta_eq_zero_iff, isZero_absolute, h] at hquanta
  cases hquanta

/-- A decimal is read, with the sign of a number, as the number when it rounds to it. -/
theorem NearestTo.reads {d : Decimal} (h : x.absolute.NearestTo d.toRat)
    (hfinite : x.isFinite = true) (hzero : x.isZero = false) : ofDecimal x.isNegative d = x := by
  have hden : 0 < 10 ^ (-d.exponent).toNat := Nat.pow_pos (by decide)
  have hround := (nearestTo_iff (isNegative_absolute x) ((isZero_absolute x).trans hzero) hden
    (toRat_mul_quanta d)).mp h
  rw [ofDecimal_eq]
  exact ofQuanta_eq_of_roundQuanta hfinite (hround.trans (quanta_absolute x))

end

end Binary64

/-! ## Printers -/

/-- The form writes a shortest decimal of a number above zero: one that rounds to the
number and has no more digits than any other which does. Of those with as many digits
none is closer to the number. -/
structure Scientific.ShortestFor (s : Scientific) (x : Binary64) : Prop where
  digits : ∀ c ∈ s.digits, c.isDigit = true
  front : ∃ first others, s.digits = first :: others ∧ first ≠ '0'
  nearest : x.NearestTo s.value.toRat
  fewest : ∀ d : Decimal, x.NearestTo d.toRat →
    s.digits.length ≤ (Decimal.digits d.coefficient).length
  closest : ∀ d : Decimal, x.NearestTo d.toRat →
    (Decimal.digits d.coefficient).length = s.digits.length →
      |s.value.toRat - x.value| ≤ |d.toRat - x.value|

theorem Scientific.ShortestFor.lawful {s : Scientific} {x : Binary64} (h : s.ShortestFor x) :
    s.Lawful := by
  obtain ⟨first, others, hdigits, -⟩ := h.front
  refine ⟨?_, h.digits⟩
  rw [hdigits]
  exact List.cons_ne_nil _ _

/-- The printer prints every finite number above zero as its shortest decimal, in the
layout of the default text. -/
def Printer.PrintsShortest [Printer] : Prop :=
  ∀ x : Binary64, x.isFinite = true → 0 < x.value →
    ∃ s : Scientific, s.ShortestFor x ∧ Printer.print x = s.layout

end ScriptRealm
