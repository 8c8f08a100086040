import ScriptRealm.Realm.Basic

/-!
# Fresh — the realm before any script has run

The objects of `Intrinsic.all` in their slots, and a global frame that
declares the constructors and the three read-only names. Nothing is computed
in steps: each object is written down as it is.
-/

namespace ScriptRealm

variable {σ : Type}

namespace Builtin

/-- The function object's record of a built-in function. -/
def callable (f : Builtin) : Callable (Behavior σ) :=
  ⟨f.name, f.arity, .builtin f, f.isConstructor⟩

end Builtin

namespace Intrinsic

/-- The value of an intrinsic object. -/
def toValue (i : Intrinsic) : Value := .object i.handle

/-- The constants of `Number`. -/
def numberConstants : List (String × Binary64) :=
  [("NaN", Binary64.nan),
    ("POSITIVE_INFINITY", Binary64.infinity false),
    ("NEGATIVE_INFINITY", Binary64.infinity true),
    ("MAX_VALUE", ⟨0x7fefffffffffffff⟩),
    ("MIN_VALUE", ⟨1⟩),
    ("EPSILON", ⟨0x3cb0000000000000⟩),
    ("MAX_SAFE_INTEGER", Binary64.ofNat (Nat.pow 2 53 - 1)),
    ("MIN_SAFE_INTEGER", (Binary64.ofNat (Nat.pow 2 53 - 1)).negate)]

/-- The methods that the object owns, as properties. -/
def methodProperties (i : Intrinsic) : List (String × Descriptor) :=
  i.ownMethods.map fun f => (f.name, .hidden (function f).toValue)

/-- The link from a prototype to its constructor. -/
def constructorProperty (family : Family) : String × Descriptor :=
  ("constructor", .hidden (function (.constructor family)).toValue)

/-- The properties of a prototype object, in order. -/
def prototypeProperties (family : Family) : List (String × Descriptor) :=
  let methods := methodProperties (prototype family)
  match family with
  | .object => methods ++ [constructorProperty family]
  | .error kind =>
    [("name", .hidden (.ofText kind.name)), ("message", .hidden (.ofText "")),
      constructorProperty family] ++ methods
  | .number | .boolean | .string => constructorProperty family :: methods

/-- The properties that a constructor has besides its length and name. -/
def constructorProperties (family : Family) : List (String × Descriptor) :=
  let constants := match family with
    | .number => numberConstants.map fun c => (c.1, Descriptor.frozen (.number c.2))
    | _ => []
  ("prototype", .frozen (prototype family).toValue) :: constants
    ++ methodProperties (function (.constructor family))

/-- The primitive that a prototype object boxes. -/
def prototypePrimitive : Family → Option Boxed
  | .number => some (.number Binary64.zero)
  | .boolean => some (.boolean false)
  | .string => some (.string Utf16.empty)
  | .object | .error _ => none

/-- The prototype of a prototype object. -/
def prototypeLink : Family → Option Intrinsic
  | .object => none
  | .error .error => some (prototype .object)
  | .error _ => some (prototype (.error .error))
  | .number | .boolean | .string => some (prototype .object)

/-- The prototype of a constructor: the special errors extend the general one. -/
def constructorLink : Family → Intrinsic
  | .error .error => functionPrototype
  | .error _ => function (.constructor (.error .error))
  | _ => functionPrototype

/-- A function object with more properties than its length and name. -/
def functionObject (up : Intrinsic) (f : Builtin) (extra : List (String × Descriptor)) :
    Object (Behavior σ) :=
  let o := Object.function up.handle f.callable
  { o with properties := ⟨o.properties.entries ++ extra⟩ }

/-- The object of an intrinsic, as yet without its slot number. -/
def object (i : Intrinsic) : Object (Behavior σ) :=
  match i with
  | prototype family =>
    { properties := ⟨prototypeProperties family⟩
      prototype := (prototypeLink family).map handle
      tag := ((prototypePrimitive family).map Boxed.wrapperClass).getD .object
      primitive := prototypePrimitive family }
  | functionPrototype =>
    { properties := ⟨methodProperties functionPrototype⟩
      prototype := some (prototype .object).handle
      callable := some Builtin.emptyFunction.callable
      tag := .function }
  | function (.constructor family) =>
    functionObject (constructorLink family) (.constructor family) (constructorProperties family)
  | function f => functionObject functionPrototype f []

end Intrinsic

/-- The arena of the intrinsic objects. -/
def Arena.fresh : Arena (Behavior σ) :=
  ⟨(Intrinsic.all.map fun i => some { i.object with id := i.handle.id }).toArray, []⟩

/-- The bindings of the global frame. -/
def Frame.globalBindings : List (String × Binding) :=
  Family.all.map (fun family =>
      (family.name,
        ⟨(Intrinsic.function (.constructor family)).toValue, .variable, true, false⟩))
    ++ [("undefined", ⟨.undefined, .readOnly, true, false⟩),
      ("NaN", ⟨.number Binary64.nan, .readOnly, true, false⟩),
      ("Infinity", ⟨.number (Binary64.infinity false), .readOnly, true, false⟩)]

/-- A realm in which nothing has happened yet. -/
def Realm.fresh (strict : Bool) (host : σ) : Realm σ :=
  { arena := Arena.fresh
    scopes := ⟨#[⟨⟨Frame.globalBindings⟩, none, strict⟩]⟩
    newTarget := none
    host := host }

end ScriptRealm
