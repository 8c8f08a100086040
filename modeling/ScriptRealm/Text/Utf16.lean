/-!
# Utf16 — the strings of a script

A script's string is a sequence of 16-bit code units. Any sequence is a
string, also one in which half of a surrogate pair stands alone, so a script
string holds more than Unicode text does.

`ofString` writes text as code units and `toText` reads them back, putting
U+FFFD in the place of every unit that is half a pair without its other half.
-/

namespace ScriptRealm

/-- A sequence of 16-bit code units. -/
structure Utf16 where
  units : List UInt16
deriving DecidableEq

namespace Utf16

/-- The empty string. -/
def empty : Utf16 := ⟨[]⟩

/-- The first half of a surrogate pair. -/
def isLeading (unit : UInt16) : Bool := 0xD800 ≤ unit.toNat && unit.toNat < 0xDC00

/-- The second half of a surrogate pair. -/
def isTrailing (unit : UInt16) : Bool := 0xDC00 ≤ unit.toNat && unit.toNat < 0xE000

/-- Half of a surrogate pair. -/
def isSurrogate (unit : UInt16) : Bool := isLeading unit || isTrailing unit

/-- The character that stands in for half a pair. -/
def replacement : Char := Char.ofNat 0xFFFD

/-- The code units of a character: one, or a surrogate pair. -/
def encodeChar (c : Char) : List UInt16 :=
  if c.toNat < 0x10000 then [UInt16.ofNat c.toNat]
  else
    let rest := c.toNat - 0x10000
    [UInt16.ofNat (0xD800 + rest / 0x400), UInt16.ofNat (0xDC00 + rest % 0x400)]

/-- The character that a surrogate pair encodes. -/
def decodePair (leading trailing : UInt16) : Char :=
  Char.ofNat (0x10000 + (leading.toNat - 0xD800) * 0x400 + (trailing.toNat - 0xDC00))

/-- The character of a unit that is not followed by its other half. -/
def decodeSingle (unit : UInt16) : Char :=
  if isSurrogate unit then replacement else Char.ofNat unit.toNat

/-- The characters of a unit sequence. -/
def decode : List UInt16 → List Char
  | [] => []
  | [unit] => [decodeSingle unit]
  | unit :: next :: rest =>
    if isLeading unit && isTrailing next then decodePair unit next :: decode rest
    else decodeSingle unit :: decode (next :: rest)

/-- Text as code units. -/
def ofString (text : String) : Utf16 := ⟨text.toList.flatMap encodeChar⟩

/-- The text of the string, half pairs replaced. -/
def toText (s : Utf16) : String := String.ofList (decode s.units)

/-- The count of code units. -/
def length (s : Utf16) : Nat := s.units.length

/-- The string has no code units. -/
def isEmpty (s : Utf16) : Bool := s.units.isEmpty

/-- The units from offset `start` up to offset `stop`. Offsets past the end
are the end; a stop at or before the start leaves nothing. -/
def slice (s : Utf16) (start stop : Nat) : Utf16 :=
  let first := min start s.length
  let last := min stop s.length
  if last ≤ first then empty else ⟨(s.units.take last).drop first⟩

end Utf16

end ScriptRealm
