import Mathlib.Data.Nat.Digits.Defs
import ScriptRealm.Number.Radix
import ScriptRealm.Proofs.Number.Exact

/-!
# Numeral — the rational number that a text denotes

`Numeral.value?` reads a text in a radix from 2 to 36 exactly: a sign, digits,
an optional point and more digits. In base ten an exponent may follow, as it
does in the default text of numbers. `Numeral.nearest` is the one rounding of
such a value to a number, nearest and with ties to even. Neither looks at how
the text was made.

Digits written with `digitChar` are read back (`positional?_write`), as are the layouts
of a scientific form (`Scientific.Writes.value?`), and the rounding of a value is that of
any ratio which equals it (`nearest_of_ratio`).
-/

namespace ScriptRealm

/-- A text up to a character that it has behind its front at the latest. -/
theorem takeWhile_ne_append {c : Char} {front rest : List Char} (h : ∀ d ∈ front, d ≠ c)
    (hrest : ∀ d ∈ rest.head?, d = c) :
    (front ++ rest).takeWhile (· != c) = front ∧ (front ++ rest).dropWhile (· != c) = rest := by
  have hfront : ∀ d ∈ front, (d != c) = true := fun d hd => bne_iff_ne.mpr (h d hd)
  rw [List.takeWhile_append_of_pos hfront, List.dropWhile_append_of_pos hfront]
  cases rest with
  | nil => simp
  | cons d rest =>
    obtain rfl : d = c := hrest d rfl
    simp

namespace Numeral

/-- The value of a digit character: the ten digits, then the lower-case letters. -/
def charValue? (c : Char) : Option Nat :=
  if c.isDigit then some (c.toNat - '0'.toNat)
  else if c.isLower then some (c.toNat - 'a'.toNat + 10)
  else none

/-- The value of a digit that the radix has. -/
def digit? (radix : Nat) (c : Char) : Option Nat := (charValue? c).filter (· < radix)

/-- Digits with an optional point, one digit at least before it. -/
def positional? (radix : Nat) (text : List Char) : Option ℚ :=
  let whole := text.takeWhile (· != '.')
  let fraction := (text.dropWhile (· != '.')).tail
  if whole.isEmpty then none
  else ((whole ++ fraction).mapM (digit? radix)).map fun digits =>
    (Nat.ofDigits radix digits.reverse : ℚ) / radix ^ fraction.length

/-- The value of a text without a sign. -/
def unsigned? (radix : Nat) (text : List Char) : Option ℚ :=
  if radix = 10 then (Decimal.parse? text).map fun d => d.coefficient * 10 ^ d.exponent
  else positional? radix text

/-- The exact value of a text in a radix. -/
def value? (radix : Nat) (text : String) : Option ℚ :=
  match text.toList with
  | '-' :: unsigned => (unsigned? radix unsigned).map fun q => -q
  | unsigned => unsigned? radix unsigned

/-- The number nearest to a rational one, a tie going to the even significand. -/
def nearest (q : ℚ) : Binary64 :=
  Binary64.ofQuanta (decide (q < 0)) (q.num.natAbs * Binary64.one) q.den

/-! ## Digits read back -/

/-- A digit that the radix has is read back, and one that it has not reads as zero. -/
theorem digit?_digitChar {radix : Nat} (hlow : 0 < radix) (hhigh : radix ≤ 36) (d : Nat) :
    digit? radix (digitChar radix d) = some (if d < radix then d else 0) := by
  have hall : ∀ d < 36, charValue? (if d < 10 then Char.ofNat ('0'.toNat + d)
      else Char.ofNat ('a'.toNat + (d - 10))) = some d := by decide
  unfold digit? digitChar
  by_cases hd : d < radix
  · rw [if_neg (Nat.not_le_of_lt hd), hall d (by omega), if_pos hd]
    simp [hd]
  · have hzero : charValue? '0' = some 0 := rfl
    rw [if_pos (Nat.le_of_not_lt hd), hzero, if_neg hd]
    simp [hlow]

/-- No digit is a point. -/
theorem digitChar_ne_point {radix : Nat} (hlow : 0 < radix) (hhigh : radix ≤ 36) (d : Nat) :
    digitChar radix d ≠ '.' := by
  intro h
  have hread := digit?_digitChar hlow hhigh d
  rw [h] at hread
  cases hread

/-- Digits of a radix, with a point before those of the fraction. -/
def write (radix : Nat) (whole fraction : List Nat) : List Char :=
  whole.map (digitChar radix)
    ++ if fraction.isEmpty then [] else '.' :: fraction.map (digitChar radix)

/-- What is written in a radix is read, digits that the radix has not being zeros. -/
theorem positional?_write {radix : Nat} (hlow : 0 < radix) (hhigh : radix ≤ 36)
    {whole : List Nat} (hne : whole ≠ []) (fraction : List Nat) :
    positional? radix (write radix whole fraction)
      = some ((Nat.ofDigits radix ((whole ++ fraction).map
          fun d => if d < radix then d else 0).reverse : ℚ) / radix ^ fraction.length) := by
  have hplain : ∀ c ∈ whole.map (digitChar radix), c ≠ '.' := by
    intro c hc
    obtain ⟨d, -, rfl⟩ := List.mem_map.mp hc
    exact digitChar_ne_point hlow hhigh d
  have hread : ∀ digits : List Nat, (digits.map (digitChar radix)).mapM (digit? radix)
      = some (digits.map fun d => if d < radix then d else 0) := by
    intro digits
    induction digits with
    | nil => rfl
    | cons d digits ih => simp [digit?_digitChar hlow hhigh, ih]
  have hpoint : ∀ c ∈ (if fraction.isEmpty then [] else '.' :: fraction.map (digitChar radix)).head?,
      c = '.' := by
    cases fraction <;> simp
  have htail : (if fraction.isEmpty then [] else '.' :: fraction.map (digitChar radix)).tail
      = fraction.map (digitChar radix) := by
    cases fraction <;> rfl
  obtain ⟨htake, hdrop⟩ := takeWhile_ne_append hplain hpoint
  have hnonempty : (whole.map (digitChar radix)).isEmpty = false := by simpa using hne
  unfold positional? write
  dsimp only
  rw [htake, hdrop, htail, hnonempty, ← List.map_append, hread, List.length_map]
  rfl

theorem write_ne_minus {radix : Nat} (hlow : 0 < radix) (hhigh : radix ≤ 36) {whole : List Nat}
    (hne : whole ≠ []) (fraction : List Nat) (rest : List Char) :
    write radix whole fraction ≠ '-' :: rest := by
  intro h
  obtain ⟨d, digits, rfl⟩ := List.exists_cons_of_ne_nil hne
  have hread := digit?_digitChar hlow hhigh d
  rw [show digitChar radix d = '-' from (List.cons.inj h).1] at hread
  cases hread

/-- The sign is read off first. -/
theorem value?_signed (negative : Bool) (radix : Nat) {text : List Char}
    (h : ∀ rest, text ≠ '-' :: rest) :
    value? radix (String.ofList ((if negative then ['-'] else []) ++ text))
      = (unsigned? radix text).map fun q => if negative then -q else q := by
  unfold value?
  rw [String.toList_ofList]
  cases negative with
  | true => rfl
  | false =>
    rw [if_neg Bool.false_ne_true, List.nil_append]
    split
    · exact absurd rfl (h _)
    · simp

end Numeral

/-- What a form writes denotes, in base ten and with its sign, the value of the form. -/
theorem Scientific.Writes.value? {s : Scientific} {text : List Char} (h : s.Writes text)
    (negative : Bool) :
    Numeral.value? 10 (String.ofList ((if negative then ['-'] else []) ++ text))
      = some (if negative then -s.value.toRat else s.value.toRat) := by
  have hminus : ∀ rest, text ≠ '-' :: rest := by
    intro rest htext
    obtain ⟨c, tail, hc, hdigit⟩ := h.laid.leads
    obtain rfl : c = '-' := (List.cons.inj (hc.symm.trans htext)).1
    exact absurd hdigit (by decide)
  obtain ⟨z, e, hparse, hexponent⟩ := h.reads
  have hvalue : ((s.value.coefficient * 10 ^ z : Nat) : ℚ) * 10 ^ e = s.value.toRat := by
    rw [Decimal.toRat, hexponent, zpow_add₀ (by norm_num), zpow_natCast]
    push_cast
    ring
  rw [Numeral.value?_signed _ _ hminus, Numeral.unsigned?, if_pos rfl, hparse, ← hvalue]
  rfl

namespace Numeral

/-! ## The nearest number -/

/-- The parts of a rational number are in the ratio of its absolute value. -/
theorem natAbs_num_mul {q : ℚ} {num den : Nat} (hden : 0 < den) (h : |q| = (num : ℚ) / den) :
    q.num.natAbs * den = num * q.den := by
  have habs : |q| = (q.num.natAbs : ℚ) / q.den := by
    conv_lhs => rw [← Rat.num_div_den q]
    rw [abs_div, Nat.abs_cast, Nat.cast_natAbs, Int.cast_abs]
  have hcross := habs.symm.trans h
  rw [div_eq_div_iff (Nat.cast_ne_zero.mpr q.den_nz) (Nat.cast_ne_zero.mpr hden.ne')] at hcross
  exact_mod_cast hcross

/-- The rounding of a value is that of any ratio which equals it. -/
theorem nearest_of_ratio (negative : Bool) {num den : Nat} (hnum : 0 < num) (hden : 0 < den) :
    nearest (if negative then -((num : ℚ) / den) else (num : ℚ) / den)
      = Binary64.ofQuanta negative (num * Binary64.one) den := by
  have hpos : (0 : ℚ) < (num : ℚ) / den :=
    div_pos (Nat.cast_pos.mpr hnum) (Nat.cast_pos.mpr hden)
  have hround : ∀ q : ℚ, |q| = (num : ℚ) / den →
      Binary64.roundQuanta (q.num.natAbs * Binary64.one) q.den
        = Binary64.roundQuanta (num * Binary64.one) den := fun q hq => by
    refine Binary64.roundQuanta_congr q.den_pos hden ?_
    rw [Nat.mul_right_comm, natAbs_num_mul hden hq, Nat.mul_right_comm]
  unfold nearest Binary64.ofQuanta
  cases negative with
  | false =>
    rw [if_neg Bool.false_ne_true, hround _ (abs_of_pos hpos), decide_eq_false (not_lt_of_gt hpos)]
  | true =>
    rw [if_pos rfl, hround _ (by rw [abs_neg, abs_of_pos hpos]),
      decide_eq_true (neg_lt_zero.mpr hpos)]

/-- The value of a decimal rounds to the number that the decimal is read as. -/
theorem nearest_toRat (negative : Bool) {d : Decimal} (h : 0 < d.toRat) :
    nearest (if negative then -d.toRat else d.toRat) = Binary64.ofDecimal negative d := by
  have hden : 0 < 10 ^ (-d.exponent).toNat := Nat.pow_pos (by decide)
  have hvalue : d.toRat
      = ((d.coefficient * 10 ^ d.exponent.toNat : Nat) : ℚ) / (10 ^ (-d.exponent).toNat : Nat) := by
    rw [Decimal.toRat, Decimal.ten_zpow]
    push_cast
    ring
  have hnum : 0 < d.coefficient * 10 ^ d.exponent.toNat := by
    rw [hvalue, div_pos_iff_of_pos_right (Nat.cast_pos.mpr hden)] at h
    exact Nat.cast_pos.mp h
  rw [hvalue, nearest_of_ratio _ hnum hden, ← Binary64.ofDecimal_eq]

end Numeral

end ScriptRealm
