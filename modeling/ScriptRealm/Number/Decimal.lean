import ScriptRealm.Number.Rounding

/-!
# Decimal — exact decimal values

A `Decimal` is a natural number times a power of ten. Every finite number
has an exact one (`Binary64.toDecimal`), and every decimal has a nearest
number (`Binary64.ofDecimal`): printing rounds the first, reading the second.
-/

namespace ScriptRealm

/-- The value `coefficient · 10 ^ exponent`. -/
structure Decimal where
  coefficient : Nat
  exponent : Int
deriving DecidableEq

/-- A positive value in scientific form: its digits from the leading one on,
and the power of ten that the leading digit counts. -/
structure Scientific where
  digits : List Char
  exponent : Int
deriving DecidableEq

/-- The integer nearest to `num / den`, a tie going up. -/
def roundHalfUp (num den : Nat) : Nat :=
  if den ≤ 2 * (num % den) then num / den + 1 else num / den

namespace Decimal

/-- The digits of a natural number in base ten. -/
def digits (n : Nat) : List Char := Nat.toDigits 10 n

/-- The power of ten that the leading digit of the coefficient counts. -/
def leadingExponent (d : Decimal) : Int :=
  ((digits d.coefficient).length : Int) - 1 + d.exponent

/-- The integer nearest to the value times `10 ^ places`, a tie going up. -/
def roundScaled (d : Decimal) (places : Nat) : Nat :=
  let shift := d.exponent + places
  if 0 ≤ shift then d.coefficient * Nat.pow 10 shift.toNat
  else roundHalfUp d.coefficient (Nat.pow 10 (-shift).toNat)

/-- The value rounded to `count` significant digits, a tie going up. When
all digits are nines and carry, the form starts with 1 one power higher. -/
def roundSignificant (d : Decimal) (count : Nat) : Scientific :=
  let held := (digits d.coefficient).length
  let rounded :=
    if held ≤ count then d.coefficient * Nat.pow 10 (count - held)
    else roundHalfUp d.coefficient (Nat.pow 10 (held - count))
  let text := digits rounded
  if count < text.length then ⟨text.take count, d.leadingExponent + 1⟩
  else ⟨text, d.leadingExponent⟩

end Decimal

namespace Binary64

/-- The exact decimal value of a finite number, without its sign. -/
def toDecimal (x : Binary64) : Decimal :=
  if 1074 ≤ x.scale then ⟨x.significand * Nat.pow 2 (x.scale - 1074), 0⟩
  else ⟨x.significand * Nat.pow 5 (1074 - x.scale), -((1074 - x.scale : Nat) : Int)⟩

/-- The number nearest to a decimal value, a tie going to the even
significand. Exponents that put the value past the largest number, or under
half of the least one, are answered without writing the power of ten out. -/
def ofDecimal (negative : Bool) (d : Decimal) : Binary64 :=
  if d.coefficient = 0 then ofMagnitude negative 0
  else if 0 ≤ d.exponent then
    if 400 < d.exponent then infinity negative
    else ofQuanta negative (d.coefficient * Nat.pow 10 d.exponent.toNat * one) 1
  else
    let places := (-d.exponent).toNat
    if d.coefficient.log2 + 1076 ≤ 3 * places then ofMagnitude negative 0
    else ofQuanta negative (d.coefficient * one) (Nat.pow 10 places)

end Binary64

end ScriptRealm
