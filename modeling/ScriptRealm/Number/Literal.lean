import ScriptRealm.Number.Decimal
import ScriptRealm.Text.Blank

/-!
# Literal — text read as a number

Two readers share the grammar of decimals (`Decimal.parse?`): digits with an
optional point and an optional exponent, at least one digit in all.

- `Binary64.ofScriptText` is the conversion that scripts use. Blanks at the
  ends are dropped, nothing left is zero, `0x`, `0o` and `0b` start an unsigned
  literal in that radix, and everything else that is no decimal and no
  `Infinity` is NaN.
- `Binary64.parse?` is the reading of the command line's own arguments. It
  knows no radix and no blanks, but takes the names of infinity and of NaN in
  any letter case.
-/

namespace ScriptRealm

namespace Decimal

/-- The value of a digit character in base ten. -/
def digitValue (c : Char) : Nat := c.toNat - '0'.toNat

/-- The number that a run of digits denotes. -/
def ofDigits (digits : List Char) : Nat :=
  digits.foldl (fun n c => 10 * n + digitValue c) 0

/-- The exponent part, which may be missing: a letter, an optional sign and
one or more digits, up to the end of the text. -/
def parseExponent? : List Char → Option Int
  | [] => some 0
  | mark :: rest =>
    if mark = 'e' ∨ mark = 'E' then
      let (negative, digits) := match rest with
        | '-' :: digits => (true, digits)
        | '+' :: digits => (false, digits)
        | digits => (false, digits)
      if digits.isEmpty || !digits.all Char.isDigit then none
      else some (if negative then -(ofDigits digits : Int) else ofDigits digits)
    else none

/-- Reads an unsigned decimal: digits, an optional point with optional digits,
at least one digit among them, and an optional exponent. -/
def parse? (text : List Char) : Option Decimal :=
  let whole := text.takeWhile Char.isDigit
  let afterWhole := text.dropWhile Char.isDigit
  let (fraction, afterFraction) := match afterWhole with
    | '.' :: rest => (rest.takeWhile Char.isDigit, rest.dropWhile Char.isDigit)
    | rest => ([], rest)
  if whole.isEmpty && fraction.isEmpty then none
  else (parseExponent? afterFraction).map fun exponent =>
    ⟨ofDigits (whole ++ fraction), exponent - (fraction.length : Int)⟩

end Decimal

/-- The value of a digit character in a radix up to 16. -/
def radixDigit? (radix : Nat) (c : Char) : Option Nat :=
  let value? :=
    if c.isDigit then some (c.toNat - '0'.toNat)
    else if 'a' ≤ c ∧ c ≤ 'f' then some (c.toNat - 'a'.toNat + 10)
    else if 'A' ≤ c ∧ c ≤ 'F' then some (c.toNat - 'A'.toNat + 10)
    else none
  value?.filter (· < radix)

namespace Binary64

/-- The least count of quanta beyond every finite number. -/
def overflowQuanta : Nat := Nat.pow 2 1024 * one

/-- One digit more: the value so far times the radix, rounded, plus the
digit, rounded. A value that has overflowed stays so. -/
def appendDigit (radix value digit : Nat) : Nat :=
  min overflowQuanta (roundQuanta (roundQuanta (value * radix) 1 + digit * one) 1)

/-- The value of digits in a radix, read from the left with a rounding at
every step; NaN for no digits and for a foreign character. -/
def ofRadixDigits (radix : Nat) (text : List Char) : Binary64 :=
  if text.isEmpty then nan
  else match text.mapM (radixDigit? radix) with
    | none => nan
    | some digits => ofQuanta false (digits.foldl (appendDigit radix) 0) 1

/-- Splits off one sign; the flag says whether it was a minus. -/
def splitSign : List Char → Bool × List Char
  | '-' :: rest => (true, rest)
  | '+' :: rest => (false, rest)
  | rest => (false, rest)

/-- The conversion of a text without blanks at its ends. -/
def ofTrimmedText : List Char → Binary64
  | [] => zero
  | '0' :: 'x' :: digits | '0' :: 'X' :: digits => ofRadixDigits 16 digits
  | '0' :: 'o' :: digits | '0' :: 'O' :: digits => ofRadixDigits 8 digits
  | '0' :: 'b' :: digits | '0' :: 'B' :: digits => ofRadixDigits 2 digits
  | text =>
    let (negative, unsigned) := splitSign text
    if unsigned = "Infinity".toList then infinity negative
    else match Decimal.parse? unsigned with
      | some d => ofDecimal negative d
      | none => nan

/-- A script's conversion of text to a number. -/
def ofScriptText (text : String) : Binary64 :=
  ofTrimmedText (Blank.trim Blank.script text.toList)

/-- The number an argument of the command line spells, if it spells one. -/
def parse? (text : String) : Option Binary64 :=
  let (negative, unsigned) := splitSign text.toList
  let lower := unsigned.map Char.toLower
  if lower = "inf".toList ∨ lower = "infinity".toList then some (infinity negative)
  else if lower = "nan".toList then some nan
  else (Decimal.parse? unsigned).map (ofDecimal negative)

end Binary64

end ScriptRealm
