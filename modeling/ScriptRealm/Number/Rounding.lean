import ScriptRealm.Number.Binary64

/-!
# Rounding — the number nearest to a ratio

The one rounding rule: of the representable numbers the nearest is taken,
and of two equally near the one with the even significand. It is stated
once, on ratios of natural numbers counted in quanta; reading a decimal
and each step of the radix expansion go through it.

`roundQuanta` has no largest number. The overflow to infinity is decided
where a count of quanta becomes a datum (`ofQuanta`).
-/

namespace ScriptRealm.Binary64

/-- The integer nearest to `num / den`, a tie going to the even one. -/
def roundHalfEven (num den : Nat) : Nat :=
  let low := num / den
  let rest := num % den
  if 2 * rest < den then low
  else if den < 2 * rest then low + 1
  else low + low % 2

/-- How many bits of `n` lie below the 53 that a significand holds. -/
def excessBits (n : Nat) : Nat := n.log2 - 52

/-- The count of quanta nearest to `num / den` among those whose binary
expansion has at most 53 significant bits. -/
def roundQuanta (num den : Nat) : Nat :=
  let unit := Nat.pow 2 (excessBits (num / den))
  roundHalfEven num (den * unit) * unit

/-- The magnitude of a count of quanta; past the largest finite number it
is infinite. The sum is right for subnormal and normal counts alike, since
the leading bit of a normal significand adds one to the exponent field. -/
def magnitudeOfQuanta (count : Nat) : Nat :=
  min infiniteMagnitude
    (excessBits count * Nat.pow 2 52 + count / Nat.pow 2 (excessBits count))

/-- The number nearest to `num / den` quanta, with the given sign. -/
def ofQuanta (negative : Bool) (num den : Nat) : Binary64 :=
  ofMagnitude negative (magnitudeOfQuanta (roundQuanta num den))

/-- The number nearest to a natural number. -/
def ofNat (n : Nat) : Binary64 := ofQuanta false (n * one) 1

/-- The number with its fraction dropped, keeping its sign; what is not
finite stays as it is. -/
def truncate (x : Binary64) : Binary64 :=
  if x.isFinite then ofQuanta x.isNegative (x.wholePart * one) 1 else x

/-- The integer a count argument stands for: NaN and the zeros give 0,
infinities stay, and the fraction of all others is dropped. -/
def toIntegerOrInfinity (x : Binary64) : Binary64 :=
  if x.isNaN || x.isZero then zero else x.truncate

/-- The number is an integer. -/
def isIntegral (x : Binary64) : Bool := x.isFinite && x.truncate.equal x

end ScriptRealm.Binary64
