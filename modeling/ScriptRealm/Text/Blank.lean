/-!
# Blank — the two sets of white space

`Blank.script` is what a script's conversion to a number trims: its white
space and line terminators. `Blank.unicode` is the White_Space property,
which splits the lines of the console. They differ in two characters: the
byte order mark is blank for scripts alone, the next-line control for the
console alone.
-/

namespace ScriptRealm.Blank

/-- The blanks that both sets hold. -/
def shared (c : Char) : Bool :=
  let n := c.toNat
  (0x9 ≤ n && n ≤ 0xD) || n == 0x20 || n == 0xA0 || n == 0x1680
    || (0x2000 ≤ n && n ≤ 0x200A) || n == 0x2028 || n == 0x2029
    || n == 0x202F || n == 0x205F || n == 0x3000

/-- White space or a line terminator of the script language. -/
def script (c : Char) : Bool := shared c || c.toNat == 0xFEFF

/-- The White_Space property of Unicode. -/
def unicode (c : Char) : Bool := shared c || c.toNat == 0x85

/-- The text without the blanks at its two ends. -/
def trim (blank : Char → Bool) (text : List Char) : List Char :=
  ((text.dropWhile blank).reverse.dropWhile blank).reverse

/-- The maximal runs of characters that are not blank, in order. -/
def words (blank : Char → Bool) : List Char → List (List Char)
  | [] => []
  | c :: rest =>
    if blank c then words blank rest
    else if (rest.head?.map blank).getD true then [c] :: words blank rest
    else match words blank rest with
      | word :: others => (c :: word) :: others
      | [] => [[c]]

end ScriptRealm.Blank
