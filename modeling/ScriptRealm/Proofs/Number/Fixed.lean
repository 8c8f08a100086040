import Mathlib.Data.List.Basic
import ScriptRealm.Number.Shortest
import ScriptRealm.Proofs.Number.Exact

/-!
# Fixed — a fixed count of places

`Decimal.Places` says when a text writes a natural number with a point before its
last digits: so many digits after the point, one at least before it, and no zero
at the front but one that stands alone. The layout of a fixed count of places is
such a text (`Decimal.places_withPlaces`), and the number that it writes is the
value in units of the last place, rounded to the integer within a half, a tie
going up (`Binary64.toFixed_rounds`).
-/

namespace ScriptRealm

namespace Decimal

/-- The digits of a positive number do not begin with a zero. -/
theorem head?_digits {n : Nat} (hn : 0 < n) : (digits n).head? ≠ some '0' := by
  induction n using Nat.strongRecOn with
  | ind n ih =>
    unfold digits
    rw [Nat.toDigits_eq_if (by decide)]
    split
    · rename_i hlt
      have hdigit : ∀ d < 10, 0 < d → d.digitChar ≠ '0' := by decide
      simpa using hdigit n hlt hn
    · rename_i hge
      rw [List.head?_append_of_ne_nil _ Nat.toDigits_ne_nil]
      exact ih (n / 10) (Nat.div_lt_self hn (by decide)) (Nat.div_pos (Nat.le_of_not_lt hge)
        (by decide))

/-- The text writes `n` with a point before its last `places` digits, and without a
point when there are none of these. -/
inductive Places (n places : Nat) : List Char → Prop
  | intro {whole fraction : List Char} (nonempty : whole ≠ [])
      (length : fraction.length = places) (digits : ∀ c ∈ whole ++ fraction, c.isDigit = true)
      (front : whole = ['0'] ∨ whole.head? ≠ some '0')
      (value : ofDigits (whole ++ fraction) = n) :
      Places n places (whole ++ if places = 0 then [] else '.' :: fraction)

/-- Digits with a point before the last of them. -/
theorem places_of_digits {text : List Char} {places : Nat} (hlength : places < text.length)
    (hdigits : ∀ c ∈ text, c.isDigit = true)
    (hfront : text.take (text.length - places) = ['0'] ∨ text.head? ≠ some '0') :
    Places (ofDigits text) places (text.take (text.length - places)
      ++ if places = 0 then [] else '.' :: text.drop (text.length - places)) := by
  have hsplit : text.take (text.length - places) ++ text.drop (text.length - places) = text :=
    List.take_append_drop _ _
  have hwhole : text.take (text.length - places) ≠ [] := by
    intro hnil
    have hzero := congrArg List.length hnil
    rw [List.length_take, List.length_nil] at hzero
    omega
  refine .intro hwhole ?_ (hsplit.symm ▸ hdigits) (hfront.imp_right fun hhead => ?_)
    (congrArg ofDigits hsplit)
  · rw [List.length_drop]
    omega
  · have hsame : (text.take (text.length - places) ++ text.drop (text.length - places)).head?
        = (text.take (text.length - places)).head? := List.head?_append_of_ne_nil _ hwhole
    rwa [← hsame, hsplit]

/-- The digits of a number with zeros in front, as many as make one digit more than
there are places. -/
def filled (n places : Nat) : List Char :=
  List.replicate (places + 1 - (digits n).length) '0' ++ digits n

theorem length_filled (n places : Nat) :
    (filled n places).length = max (places + 1) (digits n).length := by
  rw [filled, List.length_append, List.length_replicate]
  omega

theorem filled_of_lt {n places : Nat} (h : places < (digits n).length) :
    filled n places = digits n := by
  rw [filled, Nat.sub_eq_zero_of_le h, List.replicate_zero, List.nil_append]

theorem ofDigits_filled (n places : Nat) : ofDigits (filled n places) = n := by
  rw [filled, ofDigits_append, ofDigits_zeros, Nat.zero_mul, Nat.zero_add]
  exact Nat.ofDigitChars_ten_toDigits

theorem isDigit_of_mem_filled {n places : Nat} {c : Char} (h : c ∈ filled n places) :
    c.isDigit = true := by
  rcases List.mem_append.mp h with h | h
  · rw [List.eq_of_mem_replicate h]
    decide
  · exact isDigit_of_mem_digits h

/-- Zeros are put in front only as far as the place before the point, and then that has
the zero that stands alone. -/
theorem front_filled (n places : Nat) :
    (filled n places).take ((filled n places).length - places) = ['0']
      ∨ (filled n places).head? ≠ some '0' := by
  rcases Nat.lt_or_ge places (digits n).length with hlong | hshort
  · rw [filled_of_lt hlong]
    rcases Nat.eq_zero_or_pos n with rfl | hn
    · have hplaces : places = 0 := Nat.lt_one_iff.mp hlong
      rw [hplaces]
      exact .inl rfl
    · exact .inr (head?_digits hn)
  · obtain ⟨z, hz⟩ : ∃ z, places + 1 - (digits n).length = z + 1 :=
      ⟨places - (digits n).length, Nat.succ_sub hshort⟩
    have hone : (filled n places).length - places = 1 := by
      rw [length_filled]
      omega
    rw [hone, filled, hz, List.replicate_succ, List.cons_append, List.take_succ_cons,
      List.take_zero]
    exact .inl rfl

theorem withPlaces_eq (n places : Nat) :
    Binary64.withPlaces n places = (filled n places).take ((filled n places).length - places)
      ++ if places = 0 then [] else '.' :: (filled n places).drop
        ((filled n places).length - places) := by
  unfold Binary64.withPlaces
  by_cases hplaces : places = 0
  · have hpos : places < (digits n).length := hplaces ▸ Nat.length_toDigits_pos
    rw [if_pos hplaces, if_pos hplaces, filled_of_lt hpos, hplaces, Nat.sub_zero,
      List.take_length, List.append_nil]
  · rw [if_neg hplaces, if_neg hplaces]
    rfl

/-- The layout of a fixed count of places. -/
theorem places_withPlaces (n places : Nat) : Places n places (Binary64.withPlaces n places) := by
  have hlength : places < (filled n places).length := by
    rw [length_filled]
    omega
  have hplaces := places_of_digits hlength (fun c => isDigit_of_mem_filled) (front_filled n places)
  rwa [ofDigits_filled, ← withPlaces_eq] at hplaces

example : Binary64.withPlaces 5 2 = ['0', '.', '0', '5'] := rfl

end Decimal

namespace Binary64

/-- A count in its range is accepted as it is. -/
theorem count?_ofNat (m : DigitMethod) {k : Nat} (hlow : m.least ≤ k) (hhigh : k ≤ m.greatest) :
    m.count? (ofNat k) = some k := by
  have hall : ∀ m ∈ [DigitMethod.toFixed, .toExponential, .toPrecision], ∀ k ≤ m.greatest,
      m.least ≤ k → m.count? (ofNat k) = some k := by decide +kernel
  cases m with
  | toFixed => exact hall _ (by simp) k hhigh hlow
  | toExponential => exact hall _ (by simp) k hhigh hlow
  | toPrecision => exact hall _ (by simp) k hhigh hlow

theorem count?_toFixed {f : Nat} (hf : f ≤ 20) :
    DigitMethod.toFixed.count? (ofNat f) = some f :=
  count?_ofNat .toFixed (Nat.zero_le f) hf

/-- Below `10^21` the text is laid out from the rounded expansion. -/
theorem toFixed_eq [Printer] {x argument : Binary64} (hfinite : x.isFinite = true)
    (hsmall : |x.value| < 10 ^ 21) {f : Nat}
    (hcount : DigitMethod.toFixed.count? argument = some f) :
    x.toFixed argument
      = .ok (String.ofList (x.signMark ++ withPlaces (x.toDecimal.roundScaled f) f)) := by
  have hbound : x.absolute.quanta < (ofNat (Nat.pow 10 21)).quanta := by
    have hquanta : (ofNat (Nat.pow 10 21)).quanta = 10 ^ 21 * one := by decide +kernel
    rw [abs_value, div_lt_iff₀ one_cast_pos] at hsmall
    rw [quanta_absolute, hquanta]
    exact_mod_cast hsmall
  have hlarge : (ofNat (Nat.pow 10 21)).atMost x.absolute = false :=
    atMost_eq_false (by decide +kernel) x.isNegative_absolute hbound
  unfold toFixed
  simp only [hcount, isNaN_eq_false hfinite, hlarge, Bool.false_eq_true, if_false]

/-- A fixed count of places is exactly rounded: the text has the minus sign of the
value, and writes the one integer that is within a half of the value without its
sign in units of the last place, a tie going up. -/
theorem toFixed_rounds [Printer] {x : Binary64} (hfinite : x.isFinite = true)
    (hsmall : |x.value| < 10 ^ 21) {f : Nat} (hf : f ≤ 20) :
    ∃ (n : Nat) (text : List Char),
      (∀ k : Int, (k : ℚ) - 1 / 2 ≤ |x.value| * 10 ^ f ∧ |x.value| * 10 ^ f < k + 1 / 2 ↔ k = n)
        ∧ Decimal.Places n f text
        ∧ x.toFixed (ofNat f) = .ok (String.ofList ((if x.value < 0 then ['-'] else []) ++ text)) := by
  have hbounds := x.toDecimal.roundScaled_bounds f
  rw [toRat_toDecimal] at hbounds
  refine ⟨x.toDecimal.roundScaled f, withPlaces (x.toDecimal.roundScaled f) f, fun k => ?_,
    Decimal.places_withPlaces _ _, ?_⟩
  · constructor
    · intro hk
      exact eq_of_within_half hk (by exact_mod_cast hbounds)
    · rintro rfl
      exact_mod_cast hbounds
  · rw [← signMark_eq_ite (isNaN_eq_false hfinite)]
    exact toFixed_eq hfinite hsmall (count?_toFixed hf)

/-- The number `-2^(-24)` keeps its sign at two places, where it rounds to zero. -/
theorem toFixed_rounds_tiny :
    (⟨0xbe70000000000000⟩ : Binary64).isFinite = true
      ∧ |(⟨0xbe70000000000000⟩ : Binary64).value| < 10 ^ 21
      ∧ ∃ text, Decimal.Places 0 2 text
        ∧ toFixed ⟨0xbe70000000000000⟩ (ofNat 2) = .ok (String.ofList ('-' :: text)) := by
  have hfinite : (⟨0xbe70000000000000⟩ : Binary64).isFinite = true := by decide +kernel
  have hscaled : |(⟨0xbe70000000000000⟩ : Binary64).value| < 1 / 200 := by
    have hquanta : (⟨0xbe70000000000000⟩ : Binary64).quanta * 200 < one := by decide +kernel
    rw [abs_value, div_lt_div_iff₀ one_cast_pos (by norm_num), one_mul]
    exact_mod_cast hquanta
  have hsmall : |(⟨0xbe70000000000000⟩ : Binary64).value| < 10 ^ 21 := hscaled.trans (by norm_num)
  obtain ⟨n, text, hn, hplaces, htext⟩ := toFixed_rounds hfinite hsmall (f := 2) (by decide)
  have hzero : n = 0 := by
    have hnonneg := abs_nonneg (⟨0xbe70000000000000⟩ : Binary64).value
    exact_mod_cast ((hn 0).mp (by constructor <;> norm_num <;> linarith)).symm
  have hnegative : (⟨0xbe70000000000000⟩ : Binary64).value < 0 := by
    rw [value_neg_iff]
    decide +kernel
  rw [if_pos hnegative] at htext
  exact ⟨hfinite, hsmall, text, hzero ▸ hplaces, htext⟩

end Binary64

end ScriptRealm
