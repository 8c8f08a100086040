import ScriptRealm.Object.Basic

/-!
# Builtin — the objects a realm begins with

The built-in functions and the objects that own them, by name. An intrinsic
object's slot is its place in `Intrinsic.all`, so the handle of every
intrinsic is known without a realm.
-/

namespace ScriptRealm

/-- A constructor together with its prototype object. -/
inductive Family where
  | object
  | error (kind : ErrorKind)
  | number
  | boolean
  | string
deriving DecidableEq

namespace Family

/-- Every family. -/
def all : List Family :=
  object :: ErrorKind.all.map error ++ [number, boolean, string]

/-- The name of the constructor. -/
def name : Family → String
  | object => "Object"
  | error kind => kind.name
  | number => "Number"
  | boolean => "Boolean"
  | string => "String"

end Family

/-- A built-in function. -/
inductive Builtin where
  | constructor (family : Family)
  /-- What `Function.prototype` itself does: nothing. -/
  | emptyFunction
  | objectToString
  | objectValueOf
  | hasOwnProperty
  | isPrototypeOf
  | propertyIsEnumerable
  | getPrototypeOf
  | setPrototypeOf
  | preventExtensions
  | isExtensible
  | functionCall
  | functionToString
  | errorToString
  | numberIsNaN
  | numberIsFinite
  | numberIsInteger
  | numberIsSafeInteger
  | numberToString
  | numberToLocaleString
  | numberValueOf
  | numberToFixed
  | numberToExponential
  | numberToPrecision
  | booleanToString
  | booleanValueOf
  | stringToString
  | stringValueOf
deriving DecidableEq

/-- An object that a realm begins with. -/
inductive Intrinsic where
  | prototype (family : Family)
  | functionPrototype
  | function (f : Builtin)
deriving DecidableEq

namespace Builtin

/-- The methods, in the order in which their owners list them. -/
def methods : List Builtin :=
  [objectToString, objectValueOf, hasOwnProperty, isPrototypeOf, propertyIsEnumerable,
    getPrototypeOf, setPrototypeOf, preventExtensions, isExtensible,
    functionCall, functionToString, errorToString,
    numberIsNaN, numberIsFinite, numberIsInteger, numberIsSafeInteger,
    numberToString, numberToLocaleString, numberValueOf,
    numberToFixed, numberToExponential, numberToPrecision,
    booleanToString, booleanValueOf, stringToString, stringValueOf]

/-- The name by which scripts call the function. -/
def name : Builtin → String
  | constructor family => family.name
  | emptyFunction => ""
  | objectToString | functionToString | errorToString
  | numberToString | booleanToString | stringToString => "toString"
  | objectValueOf | numberValueOf | booleanValueOf | stringValueOf => "valueOf"
  | hasOwnProperty => "hasOwnProperty"
  | isPrototypeOf => "isPrototypeOf"
  | propertyIsEnumerable => "propertyIsEnumerable"
  | getPrototypeOf => "getPrototypeOf"
  | setPrototypeOf => "setPrototypeOf"
  | preventExtensions => "preventExtensions"
  | isExtensible => "isExtensible"
  | functionCall => "call"
  | numberIsNaN => "isNaN"
  | numberIsFinite => "isFinite"
  | numberIsInteger => "isInteger"
  | numberIsSafeInteger => "isSafeInteger"
  | numberToLocaleString => "toLocaleString"
  | numberToFixed => DigitMethod.toFixed.name
  | numberToExponential => DigitMethod.toExponential.name
  | numberToPrecision => DigitMethod.toPrecision.name

/-- The count of arguments the function says it expects. -/
def arity : Builtin → Nat
  | constructor _ => 1
  | hasOwnProperty | isPrototypeOf | propertyIsEnumerable => 1
  | getPrototypeOf | preventExtensions | isExtensible | functionCall => 1
  | setPrototypeOf => 2
  | numberIsNaN | numberIsFinite | numberIsInteger | numberIsSafeInteger => 1
  | numberToString | numberToFixed | numberToExponential | numberToPrecision => 1
  | _ => 0

/-- The function can construct. -/
def isConstructor : Builtin → Bool
  | constructor _ => true
  | _ => false

/-- The object of which the function is a method. -/
def owner : Builtin → Intrinsic
  | constructor family => .prototype family
  | objectToString | objectValueOf | hasOwnProperty | isPrototypeOf
  | propertyIsEnumerable => .prototype .object
  | getPrototypeOf | setPrototypeOf | preventExtensions | isExtensible =>
    .function (constructor .object)
  | emptyFunction | functionCall | functionToString => .functionPrototype
  | errorToString => .prototype (.error .error)
  | numberIsNaN | numberIsFinite | numberIsInteger | numberIsSafeInteger =>
    .function (constructor .number)
  | numberToString | numberToLocaleString | numberValueOf
  | numberToFixed | numberToExponential | numberToPrecision => .prototype .number
  | booleanToString | booleanValueOf => .prototype .boolean
  | stringToString | stringValueOf => .prototype .string

end Builtin

namespace Intrinsic

/-- Every intrinsic object, in the order of their slots. -/
def all : List Intrinsic :=
  functionPrototype :: Family.all.map prototype
    ++ Family.all.map (fun family => function (.constructor family))
    ++ Builtin.methods.map function

/-- The handle of an intrinsic object. -/
def handle (i : Intrinsic) : Handle := ⟨all.idxOf i⟩

/-- The methods that the object owns, in order. -/
def ownMethods (i : Intrinsic) : List Builtin := Builtin.methods.filter (·.owner == i)

end Intrinsic

end ScriptRealm
