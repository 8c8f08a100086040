import ScriptRealm.Number.Literal
import ScriptRealm.Number.Layout
import ScriptRealm.Text.Utf16

/-!
# Value — what a script computes with

A value is one of five kinds of primitive or the handle of an object. What a
handle stands for is known to the arena alone (`Arena`), so everything in
this module treats all objects alike.

Conversions of primitives need no realm and are total. The comparisons of
values differ on numbers only: strict equality follows the numeric one,
`sameValue` tells the zeros apart and identifies NaNs, `sameValueZero`
identifies both. `identical` is the comparison of stored values, kind by kind.
-/

namespace ScriptRealm

/-- The handle of an object: the number of its slot in the arena. -/
structure Handle where
  id : Nat
deriving DecidableEq

/-- A value of the script language. -/
inductive Value where
  | undefined
  | null
  | boolean (b : Bool)
  | number (x : Binary64)
  | string (s : Utf16)
  | object (h : Handle)
deriving DecidableEq

namespace Value

instance : Inhabited Value := ⟨undefined⟩

/-- A string value given as text. -/
def ofText (text : String) : Value := string (Utf16.ofString text)

/-- `undefined`. -/
def isUndefined : Value → Bool
  | undefined => true
  | _ => false

/-- `undefined` or `null`. -/
def isNullish : Value → Bool
  | undefined | null => true
  | _ => false

/-- The number NaN, whatever its bits. -/
def isNaN : Value → Bool
  | number x => x.isNaN
  | _ => false

/-- The handle, when the value is an object. -/
def handle? : Value → Option Handle
  | object h => some h
  | _ => none

/-- The value is an object. -/
def isObject (v : Value) : Bool := v.handle?.isSome

/-- The condition a value counts as. -/
def toBoolean : Value → Bool
  | undefined | null => false
  | boolean b => b
  | number x => !x.isZero && !x.isNaN
  | string s => !s.isEmpty
  | object _ => true

/-- The number a primitive converts to; an object gives NaN. -/
def toNumber : Value → Binary64
  | undefined => Binary64.nan
  | null => Binary64.zero
  | boolean b => Binary64.ofNat b.toNat
  | number x => x
  | string s => Binary64.ofScriptText s.toText
  | object _ => Binary64.nan

/-- The text a primitive converts to; all objects have the same. -/
def toText [Printer] : Value → String
  | undefined => "undefined"
  | null => "null"
  | boolean b => if b then "true" else "false"
  | number x => x.toText
  | string s => s.toText
  | object _ => "[object Object]"

/-- Equality without conversion: NaN is not equal to itself, the zeros are
equal, and objects are equal when they are the same. -/
def strictEquals : Value → Value → Bool
  | undefined, undefined => true
  | null, null => true
  | boolean a, boolean b => a == b
  | number x, number y => x.equal y
  | string s, string t => s == t
  | object g, object h => g == h
  | _, _ => false

/-- The two values are of one kind, and of that kind they are the same; a number is
the same as the numbers that `Binary64.sameValue` says. -/
def identical : Value → Value → Bool
  | undefined, undefined => true
  | null, null => true
  | boolean a, boolean b => a == b
  | number x, number y => x.sameValue y
  | string s, string t => s == t
  | object g, object h => g == h
  | _, _ => false

/-- Sameness that tells the zeros apart and identifies NaNs. -/
def sameValue : Value → Value → Bool
  | number x, number y => x.sameValue y
  | a, b => strictEquals a b

/-- Sameness that identifies the zeros and identifies NaNs. -/
def sameValueZero : Value → Value → Bool
  | number x, number y => x.sameValueZero y
  | a, b => strictEquals a b

end Value

end ScriptRealm
