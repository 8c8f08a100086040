import Mathlib.Tactic.Linarith
import ScriptRealm.Proofs.Number.Fixed

/-!
# Significant — a fixed count of significant digits

`Decimal.Closest` says that a number of `f + 1` digits, at the power of ten that
its first digit counts, is the closest such decimal to a value, over all such
numbers and all powers, the larger winning a tie. Rounding to significant digits
gives it (`Decimal.closest_roundSignificant`).

The grid below the leading digit of the value is fine enough for this: decimals
of a greater power are points of that grid too, and those of a lower power lie
below the least point that counts (`Preferred.of_lt`). When nines carry,
the rounded integer is a power of ten with one digit too many, and the digits
taken have the same value one power higher
(`Decimal.exists_roundSignificant`).
-/

namespace ScriptRealm

/-- Of two values `a` is taken for `q` rather than `b`: it is nearer to it, or as near
and not smaller. -/
def Preferred (q a b : ℚ) : Prop := |a - q| < |b - q| ∨ |a - q| = |b - q| ∧ b ≤ a

/-- The multiple of a unit that is within half a unit, a tie going up, is preferred to
every multiple. -/
theorem preferred_multiple {q unit : ℚ} (hunit : 0 < unit) {r : Int}
    (hlow : (r - 1 / 2) * unit ≤ q) (hhigh : q < (r + 1 / 2) * unit) (j : Int) :
    Preferred q (r * unit) (j * unit) := by
  have hnear : |r * unit - q| ≤ unit / 2 := by
    rw [abs_le]
    constructor <;> linarith
  rcases Int.lt_trichotomy j r with hj | rfl | hj
  · have hstep : ((j : ℚ) + 1) * unit ≤ r * unit :=
      mul_le_mul_of_nonneg_right (by exact_mod_cast hj) hunit.le
    have hfar : unit / 2 ≤ |j * unit - q| := by
      rw [abs_sub_comm]
      exact le_trans (by linarith) (le_abs_self _)
    rcases (hnear.trans hfar).lt_or_eq with hless | hsame
    · exact .inl hless
    · exact .inr ⟨hsame, by linarith⟩
  · exact .inr ⟨rfl, le_rfl⟩
  · have hstep : ((r : ℚ) + 1) * unit ≤ j * unit :=
      mul_le_mul_of_nonneg_right (by exact_mod_cast hj) hunit.le
    exact .inl (lt_of_le_of_lt hnear (lt_of_lt_of_le (by linarith) (le_abs_self _)))

/-- What is preferred to a value below `q` is preferred to all that lies below that. -/
theorem Preferred.of_lt {q a b c : ℚ} (h : Preferred q a b) (hb : b ≤ q) (hc : c < b) :
    Preferred q a c := by
  have hfar : |b - q| < |c - q| := by
    rw [abs_sub_comm b, abs_sub_comm c, abs_of_nonneg (by linarith), abs_of_nonneg (by linarith)]
    linarith
  rcases h with hless | ⟨hsame, -⟩
  · exact .inl (hless.trans hfar)
  · exact .inl (hsame ▸ hfar)

theorem Preferred.antisymm {q a b : ℚ} (h : Preferred q a b) (h' : Preferred q b a) : a = b := by
  rcases h with hless | ⟨hsame, hle⟩
  · rcases h' with hless' | ⟨hsame', -⟩
    · exact absurd hless' hless.not_gt
    · exact absurd hsame' hless.ne'
  · rcases h' with hless' | ⟨-, hle'⟩
    · exact absurd hsame hless'.ne'
    · exact le_antisymm hle' hle

namespace Decimal

/-- A number of `f + 1` digits, of which the first counts the power `e` of ten, is the
closest such decimal to a value: no other number of that many digits is preferred, at
any power. -/
structure Closest (q : ℚ) (f n : Nat) (e : Int) : Prop where
  least : 10 ^ f ≤ n
  below : n < 10 ^ (f + 1)
  preferred : ∀ (m : Nat) (k : Int), 10 ^ f ≤ m → m < 10 ^ (f + 1) →
    Preferred q (n * 10 ^ (e - f)) (m * 10 ^ (k - f))

theorem ten_pow_mul (k : Nat) {e j : Int} (h : k + e = j) : (10 : ℚ) ^ k * 10 ^ e = 10 ^ j := by
  rw [← zpow_natCast, ← zpow_add₀ (by norm_num), h]

/-- A decimal of `f + 1` digits lies between its power of ten and the next. -/
theorem Closest.range {q : ℚ} {f n : Nat} {e : Int} (h : Closest q f n e) :
    (10 : ℚ) ^ e ≤ n * 10 ^ (e - f) ∧ (n : ℚ) * 10 ^ (e - f) < 10 ^ (e + 1) := by
  have hleast : (10 : ℚ) ^ f * 10 ^ (e - f) = 10 ^ e := ten_pow_mul f (by omega)
  have hnext : (10 : ℚ) ^ (f + 1) * 10 ^ (e - f) = 10 ^ (e + 1) := ten_pow_mul (f + 1) (by omega)
  rw [← hleast, ← hnext]
  exact ⟨mul_le_mul_of_nonneg_right (by exact_mod_cast h.least) (ten_zpow_pos _).le,
    mul_lt_mul_of_pos_right (by exact_mod_cast h.below) (ten_zpow_pos _)⟩

/-- There is only one closest decimal of so many digits. -/
theorem Closest.unique {q : ℚ} {f n m : Nat} {e k : Int} (h : Closest q f n e)
    (h' : Closest q f m k) : n = m ∧ e = k := by
  have hsame : (n : ℚ) * 10 ^ (e - f) = m * 10 ^ (k - f) :=
    (h.preferred m k h'.least h'.below).antisymm (h'.preferred n e h.least h.below)
  obtain ⟨hlow, hhigh⟩ := h.range
  obtain ⟨hlow', hhigh'⟩ := h'.range
  rw [hsame] at hlow hhigh
  have hek : e < k + 1 := (zpow_lt_zpow_iff_right₀ (by norm_num)).mp (hlow.trans_lt hhigh')
  have hke : k < e + 1 := (zpow_lt_zpow_iff_right₀ (by norm_num)).mp (hlow'.trans_lt hhigh)
  obtain rfl : e = k := by omega
  have hnm : (n : ℚ) = m := mul_right_cancel₀ (ten_zpow_pos _).ne' hsame
  exact ⟨by exact_mod_cast hnm, rfl⟩

/-! ## Counts of digits -/

theorem length_digits_pos (n : Nat) : 0 < (digits n).length := Nat.length_toDigits_pos

theorem length_digits_le_iff (n f : Nat) : (digits n).length ≤ f + 1 ↔ n < 10 ^ (f + 1) :=
  Nat.length_toDigits_le_iff (by decide) (Nat.succ_pos f)

/-- A positive number lies between the powers of ten that its count of digits gives. -/
theorem bounds_of_length {n f : Nat} (hn : 0 < n) (h : (digits n).length = f + 1) :
    10 ^ f ≤ n ∧ n < 10 ^ (f + 1) := by
  refine ⟨?_, (length_digits_le_iff n f).mp h.le⟩
  cases f with
  | zero => exact hn
  | succ f =>
    rw [← Nat.not_lt, ← length_digits_le_iff, h]
    omega

theorem length_of_bounds {n f : Nat} (hlow : 10 ^ f ≤ n) (hhigh : n < 10 ^ (f + 1)) :
    (digits n).length = f + 1 := by
  have hle := (length_digits_le_iff n f).mpr hhigh
  cases f with
  | zero => exact Nat.le_antisymm hle (length_digits_pos n)
  | succ f =>
    have hlong : ¬ (digits n).length ≤ f + 1 := by
      rw [length_digits_le_iff]
      exact Nat.not_lt_of_le hlow
    omega

/-- Without its last digit a number is its tenth. -/
theorem take_digits {n f : Nat} (h : (digits n).length = f + 2) :
    (digits n).take (f + 1) = digits (n / 10) := by
  have hten : 10 ≤ n := by
    have hlong : ¬ n < 10 ^ (0 + 1) := by
      rw [← length_digits_le_iff, h]
      omega
    omega
  have hsplit : digits n = digits (n / 10) ++ [(n % 10).digitChar] :=
    Nat.toDigits_of_base_le (by decide) hten
  have hlength : (digits (n / 10)).length = f + 1 := by
    rw [hsplit, List.length_append, List.length_singleton] at h
    omega
  rw [hsplit, List.take_left' hlength]

/-! ## The rounded integer -/

/-- The integer that the significant digits are taken from. -/
def significant (d : Decimal) (f : Nat) : Nat :=
  roundShifted d.coefficient (f + 1 - (digits d.coefficient).length)

/-- The leading digit counts the power of ten that the value reaches. -/
theorem leading_bounds {d : Decimal} (h : 0 < d.coefficient) :
    (10 : ℚ) ^ d.leadingExponent ≤ d.toRat ∧ d.toRat < 10 ^ (d.leadingExponent + 1) := by
  obtain ⟨f, hf⟩ : ∃ f, (digits d.coefficient).length = f + 1 :=
    ⟨_, (Nat.succ_pred_eq_of_pos (length_digits_pos _)).symm⟩
  obtain ⟨hlow, hhigh⟩ := bounds_of_length h hf
  have hpow := ten_zpow_pos d.exponent
  have hleading : d.leadingExponent = f + d.exponent := by
    rw [leadingExponent, hf]
    omega
  rw [hleading, add_right_comm, zpow_add₀ (by norm_num), zpow_add₀ (by norm_num) (_ + 1), toRat]
  constructor
  · refine mul_le_mul_of_nonneg_right ?_ hpow.le
    exact_mod_cast hlow
  · refine mul_lt_mul_of_pos_right ?_ hpow
    exact_mod_cast hhigh

/-- The rounded integer is within a half of the value in units of the last digit. -/
theorem significant_bounds (d : Decimal) (f : Nat) :
    ((d.significant f : ℚ) - 1 / 2) * 10 ^ (d.leadingExponent - f) ≤ d.toRat
      ∧ d.toRat < ((d.significant f : ℚ) + 1 / 2) * 10 ^ (d.leadingExponent - f) := by
  have hunit := ten_zpow_pos (d.leadingExponent - f)
  have hvalue : d.toRat = d.coefficient * 10 ^ ((f : Int) + 1 - (digits d.coefficient).length)
      * 10 ^ (d.leadingExponent - f) := by
    rw [mul_assoc, ← zpow_add₀ (by norm_num), toRat, leadingExponent]
    congr 2
    omega
  obtain ⟨hlow, hhigh⟩ := roundShifted_bounds d.coefficient (f + 1 - (digits d.coefficient).length)
  rw [hvalue]
  exact ⟨mul_le_mul_of_nonneg_right hlow hunit.le, mul_lt_mul_of_pos_right hhigh hunit⟩

/-- The rounded integer has `f + 1` digits, or it is the power of ten after these. -/
theorem significant_range {d : Decimal} (h : 0 < d.coefficient) (f : Nat) :
    10 ^ f ≤ d.significant f ∧ d.significant f ≤ 10 ^ (f + 1) := by
  have hunit := ten_zpow_pos (d.leadingExponent - f)
  have hleading : (10 : ℚ) ^ f * 10 ^ (d.leadingExponent - f) = 10 ^ d.leadingExponent :=
    ten_pow_mul f (by omega)
  have hnext : (10 : ℚ) ^ (f + 1) * 10 ^ (d.leadingExponent - f) = 10 ^ (d.leadingExponent + 1) :=
    ten_pow_mul (f + 1) (by omega)
  obtain ⟨hlow, hhigh⟩ := significant_bounds d f
  obtain ⟨hleast, hbelow⟩ := leading_bounds h
  rw [← hleading] at hleast
  rw [← hnext] at hbelow
  have hleast := lt_of_mul_lt_mul_right (hleast.trans_lt hhigh) hunit.le
  have hbelow := lt_of_mul_lt_mul_right (hlow.trans_lt hbelow) hunit.le
  constructor
  · have hlt : ((10 ^ f : Nat) : ℚ) < (d.significant f + 1 : Nat) := by
      push_cast
      linarith
    exact Nat.lt_succ_iff.mp (by exact_mod_cast hlt)
  · have hlt : ((d.significant f : Nat) : ℚ) < (10 ^ (f + 1) + 1 : Nat) := by
      push_cast
      linarith
    exact Nat.lt_succ_iff.mp (by exact_mod_cast hlt)

theorem roundSignificant_eq (d : Decimal) (f : Nat) :
    d.roundSignificant (f + 1)
      = if f + 1 < (digits (d.significant f)).length
        then ⟨(digits (d.significant f)).take (f + 1), d.leadingExponent + 1⟩
        else ⟨digits (d.significant f), d.leadingExponent⟩ := by
  have hrounded : (if (digits d.coefficient).length ≤ f + 1
      then d.coefficient * Nat.pow 10 (f + 1 - (digits d.coefficient).length)
      else roundHalfUp d.coefficient (Nat.pow 10 ((digits d.coefficient).length - (f + 1))))
      = d.significant f := by
    unfold significant roundShifted
    simp only [Nat.pow_eq]
    split
    · rw [if_pos (by omega)]
      congr 2
      omega
    · rw [if_neg (by omega)]
      congr 2
      omega
  unfold roundSignificant
  dsimp only
  rw [hrounded]

/-- The digits taken are those of a number of `f + 1` digits, and their value is that of
the rounded integer: when nines carry it stands one power higher. -/
theorem exists_roundSignificant {d : Decimal} (h : 0 < d.coefficient) (f : Nat) :
    ∃ (n : Nat) (e : Int), d.roundSignificant (f + 1) = ⟨digits n, e⟩
      ∧ 10 ^ f ≤ n ∧ n < 10 ^ (f + 1)
      ∧ (n : ℚ) * 10 ^ (e - f) = d.significant f * 10 ^ (d.leadingExponent - f) := by
  obtain ⟨hlow, hhigh⟩ := significant_range h f
  rw [roundSignificant_eq]
  rcases Nat.lt_or_eq_of_le hhigh with hless | hcarry
  · rw [if_neg (by rw [length_of_bounds hlow hless]; exact Nat.lt_irrefl _)]
    exact ⟨_, _, rfl, hlow, hless, rfl⟩
  · have hgrow : ∀ k, 10 ^ k < 10 ^ (k + 1) := fun k =>
      Nat.pow_lt_pow_right (by decide) (Nat.lt_succ_self k)
    have hlength : (digits (10 ^ (f + 1))).length = f + 2 := length_of_bounds le_rfl (hgrow _)
    have htenth : 10 ^ (f + 1) / 10 = 10 ^ f := Nat.mul_div_cancel _ (by decide)
    rw [hcarry, hlength, if_pos (Nat.lt_succ_self _), take_digits hlength, htenth]
    refine ⟨_, _, rfl, le_rfl, hgrow f, ?_⟩
    rw [add_sub_right_comm, zpow_add_one₀ (by norm_num)]
    push_cast
    ring

/-- Rounding to significant digits gives the closest decimal of that many digits. -/
theorem closest_roundSignificant {d : Decimal} (h : 0 < d.coefficient) (f : Nat) :
    ∃ (n : Nat) (e : Int), d.roundSignificant (f + 1) = ⟨digits n, e⟩
      ∧ Closest d.toRat f n e := by
  obtain ⟨n, e, hform, hleast, hbelow, hvalue⟩ := exists_roundSignificant h f
  obtain ⟨hlow, hhigh⟩ := significant_bounds d f
  have hunit := ten_zpow_pos (d.leadingExponent - f)
  refine ⟨n, e, hform, hleast, hbelow, fun m k hm hm' => ?_⟩
  rw [hvalue]
  have hgrid := preferred_multiple (r := d.significant f) hunit (by exact_mod_cast hlow)
    (by exact_mod_cast hhigh)
  rcases le_or_gt d.leadingExponent k with hk | hk
  · -- a decimal of the leading power or a greater one is a point of the grid
    obtain ⟨z, rfl⟩ : ∃ z : Nat, k = d.leadingExponent + z :=
      ⟨(k - d.leadingExponent).toNat, by omega⟩
    have hpoint : (m : ℚ) * 10 ^ (d.leadingExponent + z - f)
        = ((m * 10 ^ z : Nat) : Int) * 10 ^ (d.leadingExponent - f) := by
      rw [add_sub_right_comm, zpow_add₀ (by norm_num), zpow_natCast]
      push_cast
      ring
    rw [hpoint]
    exact_mod_cast hgrid (m * 10 ^ z : Nat)
  · -- one of a lower power is below the least point that has as many digits
    have hpoint : ((10 ^ f : Nat) : Int) * (10 : ℚ) ^ (d.leadingExponent - f)
        = 10 ^ d.leadingExponent := by
      push_cast
      exact ten_pow_mul f (by omega)
    have hsmall : (m : ℚ) * 10 ^ (k - f) < 10 ^ d.leadingExponent := by
      calc (m : ℚ) * 10 ^ (k - f) < 10 ^ (f + 1) * 10 ^ (k - f) :=
            mul_lt_mul_of_pos_right (by exact_mod_cast hm') (ten_zpow_pos _)
        _ = 10 ^ (k + 1) := ten_pow_mul (f + 1) (by omega)
        _ ≤ 10 ^ d.leadingExponent := zpow_le_zpow_right₀ (by norm_num) (by omega)
    have hleading := hgrid (10 ^ f : Nat)
    rw [hpoint] at hleading
    exact_mod_cast hleading.of_lt (leading_bounds h).1 hsmall

/-- The form of `f + 1` digits has their number in units of the last of them. -/
theorem toRat_value_digits {n f : Nat} (hleast : 10 ^ f ≤ n) (hbelow : n < 10 ^ (f + 1)) (e : Int) :
    (Scientific.value ⟨digits n, e⟩).toRat = n * 10 ^ (e - f) := by
  have hvalue : ofDigits (digits n) = n := Nat.ofDigitChars_ten_toDigits
  have hplaces : e - (((digits n).length : Int) - 1) = e - f := by
    rw [length_of_bounds hleast hbelow]
    omega
  simp only [Scientific.value, toRat, hvalue, hplaces]

/-- What `f + 1` significant digits leave off is at most the part `1 / (2 · 10 ^ f)` of the
value. -/
theorem roundSignificant_close {d : Decimal} (h : 0 < d.coefficient) (f : Nat) :
    2 * 10 ^ f * |(d.roundSignificant (f + 1)).value.toRat - d.toRat| ≤ d.toRat := by
  obtain ⟨n, e, hform, hleast, hbelow, hvalue⟩ := exists_roundSignificant h f
  obtain ⟨hlow, hhigh⟩ := significant_bounds d f
  have hnear : |(d.significant f : ℚ) * 10 ^ (d.leadingExponent - f) - d.toRat|
      ≤ 10 ^ (d.leadingExponent - f) / 2 := by
    rw [abs_le]
    constructor <;> linarith
  rw [hform, toRat_value_digits hleast hbelow, hvalue]
  calc 2 * 10 ^ f * |(d.significant f : ℚ) * 10 ^ (d.leadingExponent - f) - d.toRat|
      ≤ 2 * 10 ^ f * (10 ^ (d.leadingExponent - f) / 2) :=
        mul_le_mul_of_nonneg_left hnear (by positivity)
    _ = 10 ^ f * 10 ^ (d.leadingExponent - f) := by ring
    _ = 10 ^ d.leadingExponent := ten_pow_mul f (by omega)
    _ ≤ d.toRat := (leading_bounds h).1

end Decimal

end ScriptRealm
