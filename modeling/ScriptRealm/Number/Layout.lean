import ScriptRealm.Number.Literal

/-!
# Layout — how digits become text

The four decimal renderings of a number: the default text, a fixed count of
places, an exponential form, and a fixed count of significant digits. With a
count the digits are those of the exact value (`Decimal`); nothing here rounds.

The default text of a finite number above zero comes from outside: a `Printer`
gives it, and what the renderings do with it is all that is said here. The
exponential rendering without a count of digits reads its digits off that text
(`Scientific.ofText`).
-/

namespace ScriptRealm

namespace Scientific

/-- The exponent mark with an explicit sign. -/
def exponentMark (exponent : Int) : List Char :=
  'e' :: (if exponent < 0 then '-' else '+') :: Decimal.digits exponent.natAbs

/-- The leading digit, then a point before the others if there are any. -/
def pointAfterFirst : List Char → List Char
  | first :: second :: rest => first :: '.' :: second :: rest
  | short => short

/-- The exponential form. -/
def exponential (s : Scientific) : List Char :=
  pointAfterFirst s.digits ++ exponentMark s.exponent

/-- The positional form, filled with zeros up to the units place. -/
def positional (s : Scientific) : List Char :=
  if s.exponent < 0 then
    '0' :: '.' :: (List.replicate (-s.exponent - 1).toNat '0' ++ s.digits)
  else
    let whole := s.exponent.toNat + 1
    if s.digits.length ≤ whole then
      s.digits ++ List.replicate (whole - s.digits.length) '0'
    else s.digits.take whole ++ '.' :: s.digits.drop whole

/-- The layout of the default text: positional while the leading digit counts a power of
ten from `10^-6` up to `10^20`, and exponential outside that range. -/
def layout (s : Scientific) : List Char :=
  if -7 < s.exponent ∧ s.exponent < 21 then s.positional else s.exponential

/-- The exponent at the end of a text. One that is missing, that is no number or that
32 bits do not hold counts as zero. -/
def trailingExponent (text : List Char) : Int :=
  ((Decimal.parseExponent? text).filter fun e =>
    -(Nat.pow 2 31 : Int) ≤ e ∧ e < (Nat.pow 2 31 : Int)).getD 0

/-- The form of a positive decimal, read off its text. The digits on the two sides of
the point lose the zeros at their ends, and the exponent is the power of ten that the
first of those left counts. -/
def ofText (text : List Char) : Scientific :=
  let mantissa := text.takeWhile (· != 'e')
  let whole := mantissa.takeWhile (· != '.')
  let all := whole ++ (mantissa.dropWhile (· != '.')).tail
  let significant := all.dropWhile (· == '0')
  let leadingZeros := all.length - significant.length
  ⟨(significant.reverse.dropWhile (· == '0')).reverse,
    (whole.length : Int) - leadingZeros - 1 + trailingExponent (text.dropWhile (· != 'e'))⟩

end Scientific

/-- The renderings that take a count of digits. -/
inductive DigitMethod where
  | toFixed
  | toExponential
  | toPrecision
deriving DecidableEq

namespace DigitMethod

/-- The name scripts call the rendering by. -/
def name : DigitMethod → String
  | toFixed => "toFixed"
  | toExponential => "toExponential"
  | toPrecision => "toPrecision"

/-- The least count the rendering accepts. -/
def least : DigitMethod → Nat
  | toFixed | toExponential => 0
  | toPrecision => 1

/-- The greatest count the rendering accepts. -/
def greatest : DigitMethod → Nat
  | toFixed | toExponential => 20
  | toPrecision => 21

/-- The count an argument stands for, when it lies in the accepted range. The
range is checked on the argument as given, and its fraction dropped after. -/
def count? (m : DigitMethod) (argument : Binary64) : Option Nat :=
  if (Binary64.ofNat m.least).atMost argument && argument.atMost (Binary64.ofNat m.greatest) then
    some argument.wholePart
  else none

end DigitMethod

/-- A count of digits outside the range that a rendering accepts. -/
structure DigitsOutOfRange where
  method : DigitMethod
deriving DecidableEq

/-- The text of the error. -/
def DigitsOutOfRange.message (e : DigitsOutOfRange) : String :=
  s!"{e.method.name}() argument must be between {e.method.least} and {e.method.greatest}"

/-- The printer of numbers that a realm is given. -/
class Printer where
  /-- The text of a finite number above zero; no other number is printed. -/
  print : Binary64 → List Char

namespace Binary64

/-- The minus sign that a number below zero is written with. The negative
zero is not below zero. -/
def signMark (x : Binary64) : List Char :=
  if x.below zero then ['-'] else []

variable [Printer]

/-- The default text of a number. -/
def toText (x : Binary64) : String :=
  if x.isNaN then "NaN"
  else if x.isZero then "0"
  else if x.isInfinite then String.ofList (x.signMark ++ "Infinity".toList)
  else String.ofList (x.signMark ++ Printer.print x.absolute)

/-- A natural number with a point before its last `places` digits. -/
def withPlaces (n places : Nat) : List Char :=
  let digits := Decimal.digits n
  let filled := List.replicate (places + 1 - digits.length) '0' ++ digits
  if places = 0 then digits
  else filled.take (filled.length - places) ++ '.' :: filled.drop (filled.length - places)

/-- A fixed count of places. The count is checked before the number is looked
at, and numbers from `10^21` on have their default text. -/
def toFixed (x argument : Binary64) : Except DigitsOutOfRange String :=
  match DigitMethod.toFixed.count? argument with
  | none => .error ⟨.toFixed⟩
  | some places =>
    if x.isNaN then .ok "NaN"
    else if (ofNat (Nat.pow 10 21)).atMost x.absolute then .ok x.toText
    else .ok (String.ofList (x.signMark ++ withPlaces (x.toDecimal.roundScaled places) places))

/-- The digits of `x` at `count` significant ones; zero has only zeros. -/
def significantForm (x : Binary64) (count : Nat) : Scientific :=
  if x.isZero then ⟨List.replicate count '0', 0⟩ else x.toDecimal.roundSignificant count

/-- The text of the numbers that no count of digits applies to: NaN and the
infinities. -/
def nonFiniteText (x : Binary64) : String :=
  if x.isNaN then "NaN" else String.ofList (x.signMark ++ "Infinity".toList)

/-- The exponential form with a count of digits after the point, or with the
digits read off the default text when none is given. A number that is not finite
is written before the count is looked at. -/
def toExponential (x : Binary64) (argument : Option Binary64) : Except DigitsOutOfRange String :=
  if !x.isFinite then .ok x.nonFiniteText
  else match argument with
    | none =>
      let s := if x.isZero then x.significantForm 1 else .ofText (Printer.print x.absolute)
      .ok (String.ofList (x.signMark ++ s.exponential))
    | some argument =>
      match DigitMethod.toExponential.count? argument with
      | none => .error ⟨.toExponential⟩
      | some places =>
        .ok (String.ofList (x.signMark ++ (x.significantForm (places + 1)).exponential))

/-- A count of significant digits, positional while the count reaches the
units place and the number is not below `10^-6`; the default text when no
count is given. -/
def toPrecision (x : Binary64) (argument : Option Binary64) : Except DigitsOutOfRange String :=
  match argument with
  | none => .ok x.toText
  | some argument =>
    if !x.isFinite then .ok x.nonFiniteText
    else match DigitMethod.toPrecision.count? argument with
      | none => .error ⟨.toPrecision⟩
      | some count =>
        let s := x.significantForm count
        let text :=
          if s.exponent < -6 ∨ (count : Int) ≤ s.exponent then s.exponential else s.positional
        .ok (String.ofList (x.signMark ++ text))

end Binary64

end ScriptRealm
