/-!
# Binary64 — the numbers of a script

A script has one number type, the 64-bit binary floating-point datum. It is
kept by its bits, so that every bit pattern is a number and the many
patterns of NaN stay apart until an operation says otherwise.

Two readings of the bits carry everything else:

- `magnitude`, the bits without the sign. It grows with the absolute value,
  so comparison never decodes (`position`).
- `quanta`, the absolute value of a finite number counted in units of
  `2^-1074`, the least positive number. Every finite number is a whole
  number of quanta, hence exact arithmetic on numbers is arithmetic on `Nat`.
-/

namespace ScriptRealm

/-- A 64-bit floating-point datum, by its bits. -/
structure Binary64 where
  bits : UInt64
deriving DecidableEq, Inhabited

namespace Binary64

/-- The exponent and fraction fields: the datum without its sign. -/
def magnitude (x : Binary64) : Nat := x.bits.toNat % Nat.pow 2 63

/-- The sign bit; it is set for the negative zero too. -/
def isNegative (x : Binary64) : Bool := decide (Nat.pow 2 63 ≤ x.bits.toNat)

/-- The magnitude of the infinities. Finite numbers lie below it, NaNs above. -/
def infiniteMagnitude : Nat := 2047 * Nat.pow 2 52

/-- The datum with the given sign and magnitude. -/
def ofMagnitude (negative : Bool) (magnitude : Nat) : Binary64 :=
  ⟨UInt64.ofNat ((if negative then Nat.pow 2 63 else 0) + magnitude)⟩

/-- Not a number: the magnitude is beyond infinity. -/
def isNaN (x : Binary64) : Bool := decide (infiniteMagnitude < x.magnitude)

/-- One of the two infinities. -/
def isInfinite (x : Binary64) : Bool := x.magnitude == infiniteMagnitude

/-- Neither an infinity nor a NaN. -/
def isFinite (x : Binary64) : Bool := decide (x.magnitude < infiniteMagnitude)

/-- One of the two zeros. -/
def isZero (x : Binary64) : Bool := x.magnitude == 0

/-- The quiet NaN that operations answer. -/
def nan : Binary64 := ⟨0x7ff8000000000000⟩

/-- The infinity of the given sign. -/
def infinity (negative : Bool) : Binary64 := ofMagnitude negative infiniteMagnitude

/-- The positive zero. -/
def zero : Binary64 := ⟨0⟩

/-! ## Quanta -/

/-- The value 1 in quanta. -/
def one : Nat := Nat.pow 2 1074

/-- The power of two by which a finite number's significand is multiplied
to count its quanta. Subnormal numbers share the least one. -/
def scale (x : Binary64) : Nat := x.magnitude / Nat.pow 2 52 - 1

/-- The integral significand of a finite number, below `2^53`: the fraction
field, with the leading bit that a normal number leaves out. -/
def significand (x : Binary64) : Nat :=
  if x.magnitude < Nat.pow 2 52 then x.magnitude else Nat.pow 2 52 + x.magnitude % Nat.pow 2 52

/-- The absolute value of a finite number, in units of `2^-1074`. -/
def quanta (x : Binary64) : Nat := x.significand * Nat.pow 2 x.scale

/-- The absolute value of a finite number with its fraction dropped. -/
def wholePart (x : Binary64) : Nat := x.quanta / one

/-! ## Sign and order -/

/-- The number with its sign turned; NaN answers NaN. -/
def negate (x : Binary64) : Binary64 :=
  if x.isNaN then nan else ofMagnitude (!x.isNegative) x.magnitude

/-- The number without its sign. -/
def absolute (x : Binary64) : Binary64 := ofMagnitude false x.magnitude

/-- The place of a number on the line, the zeros sharing place 0. Places are
ordered as the values are; NaNs have places beyond the infinities, which no
comparison looks at. -/
def position (x : Binary64) : Int :=
  if x.isNegative then -(x.magnitude : Int) else x.magnitude

/-- Numeric equality: NaN equals nothing, the two zeros are equal. -/
def equal (x y : Binary64) : Bool :=
  !x.isNaN && !y.isNaN && x.position == y.position

/-- Numeric order: NaN is below nothing and nothing is below it. -/
def atMost (x y : Binary64) : Bool :=
  !x.isNaN && !y.isNaN && decide (x.position ≤ y.position)

/-- Strict numeric order. -/
def below (x y : Binary64) : Bool :=
  !x.isNaN && !y.isNaN && decide (x.position < y.position)

/-- Sameness that tells the two zeros apart and identifies all NaNs. -/
def sameValue (x y : Binary64) : Bool :=
  if x.isNaN && y.isNaN then true
  else if x.isZero && y.isZero then x.isNegative == y.isNegative
  else x.equal y

/-- Sameness that identifies the two zeros and identifies all NaNs. -/
def sameValueZero (x y : Binary64) : Bool :=
  (x.isNaN && y.isNaN) || x.equal y

end Binary64

end ScriptRealm
