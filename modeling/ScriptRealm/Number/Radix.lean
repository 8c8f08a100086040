import ScriptRealm.Number.Layout

/-!
# Radix — numbers written in bases other than ten

A number is split into its whole part and its fraction, and the digits of
each are taken off by arithmetic that rounds to 53 significant bits after
every step. Fraction digits stop as soon as what is left is under half the
distance to the next number; the last digit is rounded up when that brings
the text nearer, and the carry may run into the whole part.

All quantities are counts of quanta. `steps` bounds every loop here: the
error bound grows by the radix at each fraction digit and the whole part
shrinks by it at each whole digit, so no loop takes that many steps.
-/

namespace ScriptRealm

/-- The character of a digit; a digit that the radix does not have is
written as zero. -/
def digitChar (radix digit : Nat) : Char :=
  if radix ≤ digit then '0'
  else if digit < 10 then Char.ofNat ('0'.toNat + digit)
  else Char.ofNat ('a'.toNat + (digit - 10))

namespace RadixExpansion

open Binary64

/-- A bound on the digits of a number in any radix, on either side of the
point. -/
def steps : Nat := 1100

/-- The distance from a finite number to the next one up, halved, and at
least one quantum. What is smaller does not tell numbers apart. -/
def tolerance (x : Binary64) : Nat := max (Nat.pow 2 x.scale / 2) 1

/-- Adds one to the last of the given digits, the last coming first. Digits
that overflow are dropped; `none` when all of them do. -/
def carry (radix : Nat) : List Nat → Option (List Nat)
  | [] => none
  | digit :: earlier =>
    if digit + 1 < radix then some ((digit + 1) :: earlier) else carry radix earlier

/-- Fraction digits, the last coming first, and whether the whole part gains
one. `left` is what remains of the fraction, `bound` the tolerance at the
present digit. -/
def fractionDigits (radix : Nat) : Nat → Nat → Nat → List Nat → List Nat × Bool
  | 0, _, _, digits => (digits, false)
  | fuel + 1, left, bound, digits =>
    let scaled := roundQuanta (left * radix) 1
    let bound := roundQuanta (bound * radix) 1
    let digit := scaled / one
    let left := scaled - digit * one
    let digits := digit :: digits
    let roundsUp := decide (one < 2 * left) || (2 * left == one && digit % 2 == 1)
    if roundsUp && decide (one < roundQuanta (left + bound) 1) then
      match carry radix digits with
      | some digits => (digits, false)
      | none => ([], true)
    else if left < bound then (digits, false)
    else fractionDigits radix fuel left bound digits

/-- Divides the whole part by the radix while a quotient of `2^53` or more
remains, counting the divisions. The digits so taken off lie below the
precision of the number. -/
def stripImprecise (radix : Nat) : Nat → Nat → Nat × Nat
  | 0, whole => (whole, 0)
  | fuel + 1, whole =>
    let quotient := roundQuanta whole radix
    if Nat.pow 2 53 * one ≤ quotient then
      let (rest, count) := stripImprecise radix fuel quotient
      (rest, count + 1)
    else (whole, 0)

/-- Takes digits off the whole part until nothing is left; the leading digit
comes first. -/
def wholeDigits (radix : Nat) : Nat → Nat → List Nat → List Nat
  | 0, _, digits => digits
  | fuel + 1, whole, digits =>
    let remainder := whole % (radix * one)
    let digits := remainder / one :: digits
    let rest := roundQuanta (roundQuanta (whole - remainder) 1) radix
    if rest = 0 then digits else wholeDigits radix fuel rest digits

/-- The digits of a finite positive number in the given radix. -/
def text (radix : Nat) (x : Binary64) : List Char :=
  let whole := x.wholePart * one
  let fraction := x.quanta - whole
  let (reversed, gains) :=
    if tolerance x ≤ fraction then fractionDigits radix steps fraction (tolerance x) []
    else ([], false)
  let whole := if gains then roundQuanta (whole + one) 1 else whole
  let (precise, zeros) := stripImprecise radix steps whole
  let integer := wholeDigits radix steps precise (List.replicate zeros 0)
  let fractionText := reversed.reverse.map (digitChar radix)
  integer.map (digitChar radix) ++ (if fractionText.isEmpty then [] else '.' :: fractionText)

end RadixExpansion

/-- The text of a number in a radix from 2 to 36. Radix ten, the zeros and
what is not finite have the default text. -/
def Binary64.toRadix [Printer] (x : Binary64) (radix : Nat) : String :=
  if radix = 10 ∨ x.isFinite = false ∨ x.isZero then x.toText
  else String.ofList (x.signMark ++ RadixExpansion.text radix x.absolute)

end ScriptRealm
