import ScriptRealm.Builtin.General
import ScriptRealm.Number.Radix

/-!
# Wrappers — the built-in functions of numbers, booleans and strings

The three constructors convert when called and box when constructing; the
conversion comes first, so that code it runs does not disturb which of the
two it is. The methods take a primitive or a wrapper of their own kind and
refuse every other receiver before they look at an argument.
-/

namespace ScriptRealm.Builtin

variable {σ : Type} [Printer]

/-- Answers a primitive when called, a wrapper around it when constructing. -/
def boxIfConstructing (p : Boxed) : ScriptM σ Value := do
  if (← ScriptM.realm).newTarget.isSome then Value.object <$> ScriptM.lift (RealmM.newWrapper p)
  else pure p.toValue

/-! ## Number -/

/-- `Number`: zero without an argument. -/
def makeNumber (args : List Value) : ScriptM σ Value := do
  let x ← match args.head? with
    | none => pure Binary64.zero
    | some v => ScriptM.toNumber v
  boxIfConstructing (.number x)

/-- The greatest integer up to which all integers are numbers. -/
def greatestSafe : Binary64 := Binary64.ofNat (Nat.pow 2 53 - 1)

/-- A test of the first argument that no conversion precedes: what is no number
fails it. -/
def numberTest (test : Binary64 → Bool) (args : List Value) : ScriptM σ Value :=
  match argument args 0 with
  | .number x => pure (.boolean (test x))
  | _ => pure (.boolean false)

/-- The receiver of a number method. -/
def numberReceiver (this : Value) (method : String) : ScriptM σ Binary64 := do
  match (← ScriptM.realm).boxed? this with
  | some (.number x) => pure x
  | _ => ScriptM.raise (.wrongReceiver s!"Number.prototype.{method}" "a Number")

/-- A count argument that may be left out. -/
def optionalInteger (v : Value) : ScriptM σ (Option Binary64) :=
  if v.isUndefined then pure none else some <$> ScriptM.toInteger v

/-- A rendering, or the error for a count out of range. -/
def rendered (r : Except DigitsOutOfRange String) : ScriptM σ Value :=
  match r with
  | .ok text => pure (.ofText text)
  | .error e => ScriptM.raise (.digits e)

/-- The radix that an argument stands for: an integer from 2 to 36. -/
def radixCount? (x : Binary64) : Option Nat :=
  if (Binary64.ofNat 2).atMost x && x.atMost (Binary64.ofNat 36) then some x.wholePart else none

/-- `Number.prototype.toString`, in radix ten when none is given. -/
def numberInRadix (this : Value) (args : List Value) : ScriptM σ Value := do
  let x ← numberReceiver this "toString"
  let radix ← optionalInteger (argument args 0)
  match radixCount? (radix.getD (Binary64.ofNat 10)) with
  | some radix => pure (.ofText (x.toRadix radix))
  | none => ScriptM.raise .radix

/-- `Number.prototype.toLocaleString`: the default text. -/
def numberText (this : Value) : ScriptM σ Value := do
  pure (.ofText (← numberReceiver this "toLocaleString").toText)

/-- `Number.prototype.valueOf`. -/
def numberValue (this : Value) : ScriptM σ Value := do
  pure (.number (← numberReceiver this "valueOf"))

/-- `Number.prototype.toFixed`; a missing count is zero. -/
def numberFixed (this : Value) (args : List Value) : ScriptM σ Value := do
  let x ← numberReceiver this "toFixed"
  rendered (x.toFixed (← ScriptM.toInteger (argument args 0)))

/-- `Number.prototype.toExponential`. -/
def numberExponential (this : Value) (args : List Value) :
    ScriptM σ Value := do
  let x ← numberReceiver this "toExponential"
  rendered (x.toExponential (← optionalInteger (argument args 0)))

/-- `Number.prototype.toPrecision`. -/
def numberPrecision (this : Value) (args : List Value) :
    ScriptM σ Value := do
  let x ← numberReceiver this "toPrecision"
  rendered (x.toPrecision (← optionalInteger (argument args 0)))

/-! ## Boolean -/

/-- `Boolean`. -/
def makeBoolean (args : List Value) : ScriptM σ Value :=
  boxIfConstructing (.boolean (argument args 0).toBoolean)

/-- The receiver of a boolean method. -/
def booleanReceiver (this : Value) (method : String) : ScriptM σ Bool := do
  match (← ScriptM.realm).boxed? this with
  | some (.boolean b) => pure b
  | _ => ScriptM.raise (.wrongReceiver s!"Boolean.prototype.{method}" "a Boolean")

/-- `Boolean.prototype.toString`. -/
def booleanText (this : Value) : ScriptM σ Value := do
  pure (.ofText (Value.boolean (← booleanReceiver this "toString")).toText)

/-- `Boolean.prototype.valueOf`. -/
def booleanValue (this : Value) : ScriptM σ Value := do
  pure (.boolean (← booleanReceiver this "valueOf"))

/-! ## String -/

/-- `String`: empty without an argument. Every other argument goes through text,
so a lone surrogate in it becomes the replacement character. -/
def makeString (args : List Value) : ScriptM σ Value := do
  let s ← match args.head? with
    | none => pure Utf16.empty
    | some v => Utf16.ofString <$> ScriptM.toText v
  boxIfConstructing (.string s)

/-- The receiver of a string method. -/
def stringReceiver (this : Value) (method : String) : ScriptM σ Value := do
  match (← ScriptM.realm).boxed? this with
  | some (.string s) => pure (.string s)
  | _ => ScriptM.raise (.wrongReceiver s!"String.prototype.{method}" "a String")

end ScriptRealm.Builtin
