import ScriptRealm.Number.Layout

/-!
# Shortest — the fewest digits that identify a number

A decimal identifies a number when it lies so near that reading gives the
number back. Around a number of `q` quanta that is the interval from
halfway to the number below to halfway to the number above, with the ends
when the significand is even; below a power of two the lower gap is half as
wide.

`Binary64.shortest` looks at decimals of 1, 2, 3, … digits. For each count
only the two neighbours of the number on that decimal grid can be nearest,
so only they are tried. Of two that fit the nearer wins, and a tie goes to
the even digit. The exact expansion always fits, so its length bounds the
search.

A realm takes any `Printer`. The one made of this search is what the program
runs with.
-/

namespace ScriptRealm

/-- The interval of values that read back as one number, its ends counted
in quarters of a quantum. -/
structure ReadingInterval where
  low : Nat
  high : Nat
  closed : Bool

namespace ReadingInterval

/-- The interval around a finite positive number. -/
def around (x : Binary64) : ReadingInterval :=
  let gap := Nat.pow 2 x.scale
  let narrow := x.significand == Nat.pow 2 52 && decide (0 < x.scale)
  { low := 4 * x.quanta - (if narrow then gap else 2 * gap)
    high := 4 * x.quanta + 2 * gap
    closed := x.significand % 2 == 0 }

/-- The ratio `num / den`, counted in quanta, lies in the interval. -/
def holds (i : ReadingInterval) (num den : Nat) : Bool :=
  let value := 4 * num
  if i.closed then decide (i.low * den ≤ value ∧ value ≤ i.high * den)
  else decide (i.low * den < value ∧ value < i.high * den)

end ReadingInterval

namespace Decimal

/-- The digits of a coefficient without its trailing zeros. -/
def significantDigits (n : Nat) : List Char :=
  ((digits n).reverse.dropWhile (· == '0')).reverse

/-- A positive decimal in scientific form without trailing zeros. -/
def toScientific (d : Decimal) : Scientific :=
  ⟨significantDigits d.coefficient, d.leadingExponent⟩

end Decimal

namespace Binary64

/-- The best decimal of the grid `10 ^ step` that identifies `x`, if one of
the two neighbours of `x` on that grid does. -/
def identifiedOnGrid (x : Binary64) (step : Int) : Option Decimal :=
  let up := Nat.pow 10 (-step).toNat
  let den := one * Nat.pow 10 step.toNat
  let num := x.quanta * up
  let low := num / den
  let fits (n : Nat) := (ReadingInterval.around x).holds (n * den) up
  let nearer := roundHalfEven num den
  let other := if nearer = low then low + 1 else low
  if fits nearer then some ⟨nearer, step⟩
  else if fits other then some ⟨other, step⟩
  else none

/-- The first identifying decimal among those of `count`, `count + 1`, …
digits, trying at most `tries` counts. -/
def identifiedFrom (x : Binary64) (leading : Int) : Nat → Nat → Option Decimal
  | 0, _ => none
  | tries + 1, count =>
    (x.identifiedOnGrid (leading - count + 1)).orElse fun _ =>
      identifiedFrom x leading tries (count + 1)

/-- The shortest scientific form that identifies a finite positive number;
among forms of that length the nearest. -/
def shortest (x : Binary64) : Scientific :=
  let exact := x.toDecimal
  let length := (Decimal.digits exact.coefficient).length
  ((x.identifiedFrom exact.leadingExponent length 1).getD exact).toScientific

end Binary64

/-- The printer that searches for the shortest form. -/
instance Printer.shortest : Printer where
  print x := x.shortest.layout

end ScriptRealm
