import ScriptRealm.ErrorKind
import ScriptRealm.Number.Layout
import ScriptRealm.Object.Basic

/-!
# Fault — why the realm throws

Every error that the realm itself throws has one of these causes. The kind
and the wording of each are given here and nowhere else.
-/

namespace ScriptRealm

/-- What `typeof` answers. -/
inductive TypeTag where
  | undefined
  | object
  | boolean
  | number
  | string
  | function
deriving DecidableEq

/-- The tag as text. -/
def TypeTag.name : TypeTag → String
  | undefined => "undefined"
  | object => "object"
  | boolean => "boolean"
  | number => "number"
  | string => "string"
  | function => "function"

/-- How a receiver is called in the text of a refused write. -/
def Value.describe [Printer] (v : Value) : String :=
  match v with
  | .string s => s!"string '{s.toText}'"
  | .object _ => "object"
  | .undefined | .null => v.toText
  | .boolean _ => s!"boolean '{v.toText}'"
  | .number _ => s!"number '{v.toText}'"

/-- A cause for the realm to throw. -/
inductive Fault where
  /-- No frame declares the name. -/
  | notDefined (name : String)
  /-- The name is declared and not yet initialized. -/
  | uninitialized (name : String)
  /-- A constant was assigned to. -/
  | constantAssigned (name : String)
  /-- Strict code assigned to a read-only name. -/
  | readOnlyName (name : String)
  /-- Strict code deleted a name. -/
  | nameDeleted
  /-- A property of `undefined` or `null` was read. -/
  | nullishRead (base : Value) (name : String)
  /-- A property of `undefined` or `null` was written. -/
  | nullishWrite (base : Value) (name : String)
  /-- `undefined` or `null` was used as an object. -/
  | nullishObject
  /-- Strict code wrote an accessor that has no setter. -/
  | getterOnly (key : String) (receiver : Value)
  /-- Strict code wrote a property that cannot be written. -/
  | readOnlyProperty (key : String) (receiver : Value)
  /-- Strict code wrote a property of a primitive. -/
  | primitiveReceiver (key : String) (receiver : Value)
  /-- Strict code wrote a property that the receiver does not take. -/
  | notExtensible (key : String)
  /-- Strict code deleted a property that is not configurable. -/
  | undeletable (key : String) (tag : ObjectClass)
  /-- No conversion method of an object gave a primitive. -/
  | noPrimitive
  /-- A value that is not callable was called. -/
  | notFunction (tag : TypeTag)
  /-- A value that is no constructor was used to construct. -/
  | notConstructor (tag : TypeTag)
  /-- A method was called that is not callable. -/
  | notMethod (base : TypeTag) (name : String)
  /-- A method was called on a receiver of the wrong kind. -/
  | wrongReceiver (method expected : String)
  /-- `Function.prototype.call` was called on a value that is not callable. -/
  | callOfNonFunction
  /-- The prototype of `undefined` or `null` was set. -/
  | prototypeOfNullish
  /-- A prototype was given that is neither an object nor `null`. -/
  | prototypeNotObject
  /-- The new prototype would make a cycle. -/
  | cyclicPrototype
  /-- The prototype of an object that is not extensible was changed. -/
  | prototypeFixed
  /-- A count of digits is out of its range. -/
  | digits (e : DigitsOutOfRange)
  /-- A radix is out of its range. -/
  | radix

namespace Fault

/-- The kind of error thrown. -/
def kind : Fault → ErrorKind
  | notDefined _ | uninitialized _ | constantAssigned _ => .referenceError
  | nameDeleted => .syntaxError
  | digits _ | radix => .rangeError
  | _ => .typeError

/-- The message of the error thrown. -/
def message [Printer] : Fault → String
  | notDefined name => s!"{name} is not defined"
  | uninitialized name => s!"Cannot access '{name}' before initialization"
  | constantAssigned name => s!"Assignment to constant variable '{name}'"
  | readOnlyName name => s!"Cannot assign to read only variable '{name}'"
  | nameDeleted => "Delete of an unqualified identifier in strict mode."
  | nullishRead base name => s!"Cannot read properties of {base.toText} (reading '{name}')"
  | nullishWrite base name => s!"Cannot set properties of {base.toText} (setting '{name}')"
  | nullishObject => "Cannot convert undefined or null to object"
  | getterOnly key receiver =>
    s!"Cannot set property {key} of {receiver.describe} which has only a getter"
  | readOnlyProperty key receiver =>
    s!"Cannot assign to read only property '{key}' of {receiver.describe}"
  | primitiveReceiver key receiver => s!"Cannot create property '{key}' on {receiver.describe}"
  | notExtensible key => s!"Cannot add property {key}, object is not extensible"
  | undeletable key tag => s!"Cannot delete property '{key}' of [object {tag.name}]"
  | noPrimitive => "Cannot convert object to primitive value"
  | notFunction tag => s!"{tag.name} is not a function"
  | notConstructor tag => s!"{tag.name} is not a constructor"
  | notMethod base name => s!"{base.name}.{name} is not a function"
  | wrongReceiver method expected => s!"{method} requires that 'this' be {expected}"
  | callOfNonFunction => "Function.prototype.call called on a non-function"
  | prototypeOfNullish => "Object.setPrototypeOf called on null or undefined"
  | prototypeNotObject => "Object prototype may only be an Object or null"
  | cyclicPrototype => "Cyclic __proto__ value"
  | prototypeFixed => "Object is not extensible"
  | digits e => e.message
  | radix => "toString() radix must be between 2 and 36"

end Fault

/-- What the host is told when a thrown value leaves a script. -/
inductive Uncaught where
  | error (kind : ErrorKind) (message : String)
  | value (text : String)
deriving DecidableEq

namespace Uncaught

/-- The line a console shows. -/
def report : Uncaught → String
  | error kind message => s!"Uncaught {kind.name}: {message}"
  | value text => s!"Uncaught {text}"

end Uncaught

end ScriptRealm
