import ScriptRealm.ErrorKind
import ScriptRealm.Property.Descriptor
import ScriptRealm.Table

/-!
# Object — what an arena slot holds

An object has stored properties, a link to its prototype, and internal slots
that script cannot reach: its class tag, the primitive that a wrapper boxes,
the kind and message of an error, and the function that a callable runs.

A wrapper of a string has more own properties than it stores: its `length`
and one property for every code unit. They are made up on the spot by
`getOwn`; a stored property of the same key comes first.

The type of a function's behaviour is a parameter, so that objects need not
know what running one means.
-/

namespace ScriptRealm

/-- The class tag that built-in methods check. -/
inductive ObjectClass where
  | object
  | function
  | error
  | number
  | boolean
  | string
deriving DecidableEq

/-- The tag as text. -/
def ObjectClass.name : ObjectClass → String
  | object => "Object"
  | function => "Function"
  | error => "Error"
  | number => "Number"
  | boolean => "Boolean"
  | string => "String"

/-- A primitive that a wrapper object can box. -/
inductive Boxed where
  | boolean (b : Bool)
  | number (x : Binary64)
  | string (s : Utf16)
deriving DecidableEq

namespace Boxed

/-- The boxed value. -/
def toValue : Boxed → Value
  | boolean b => .boolean b
  | number x => .number x
  | string s => .string s

/-- The class of the wrapper. -/
def wrapperClass : Boxed → ObjectClass
  | boolean _ => .boolean
  | number _ => .number
  | string _ => .string

end Boxed

/-- The kind and message that an error was created with. -/
structure ErrorRecord where
  kind : ErrorKind
  message : String
deriving DecidableEq

/-- A function: what it is called, how many arguments it expects, what it
does, and whether it can construct. -/
structure Callable (β : Type) where
  name : String
  arity : Nat
  behavior : β
  isConstructor : Bool

/-- An object. Its `id` is the number of the slot that holds it. -/
structure Object (β : Type) where
  id : Nat := 0
  properties : Table Descriptor := Table.empty
  prototype : Option Handle := none
  callable : Option (Callable β) := none
  tag : ObjectClass := .object
  extensible : Bool := true
  primitive : Option Boxed := none
  error : Option ErrorRecord := none

namespace Object

variable {β : Type}

/-- The handle of the object. -/
def handle (o : Object β) : Handle := ⟨o.id⟩

/-! ## Own properties -/

/-- The string whose code units are own properties. -/
def stringData? (o : Object β) : Option Utf16 :=
  match o.tag, o.primitive with
  | .string, some (.string s) => some s
  | _, _ => none

/-- The text of an index as a property key. -/
def indexKey (n : Nat) : String := String.ofList (Decimal.digits n)

/-- The index that a key writes without leading zeros or sign. -/
def keyIndex? (key : String) : Option Nat :=
  let n := Decimal.ofDigits key.toList
  if indexKey n = key then some n else none

/-- The property that a string has without storing it. -/
def unitProperty? (s : Utf16) (key : String) : Option Descriptor :=
  if key = "length" then some (.frozen (.number (Binary64.ofNat s.length)))
  else match keyIndex? key with
    | none => none
    | some n =>
      if n < s.length then some (.data (.string (s.slice n (n + 1))) false true false) else none

/-- The own property under a key. -/
def getOwn (o : Object β) (key : String) : Option Descriptor :=
  (o.properties.find? key).orElse fun _ => o.stringData?.bind (unitProperty? · key)

/-- The keys that a string has without storing them. -/
def unitKeys (s : Utf16) : List String :=
  (List.range s.length).map indexKey ++ ["length"]

/-- The own keys: those of the code units, then the stored ones in order. -/
def ownKeys (o : Object β) : List String :=
  (o.stringData?.map unitKeys).getD [] ++ o.properties.names

/-! ## Changes -/

/-- Stores a property as it is. -/
def store (o : Object β) (key : String) (d : Descriptor) : Object β :=
  { o with properties := o.properties.insert key d }

/-- Removes a stored property. -/
def discard (o : Object β) (key : String) : Object β :=
  { o with properties := o.properties.erase key }

/-- The object after a requested change to one property, or `none` when the
change is refused. A new key needs an extensible object; a present one needs
the leave of its present descriptor. -/
def define? (o : Object β) (key : String) (d : Descriptor) : Option (Object β) :=
  match o.getOwn key with
  | none => if o.extensible then some (o.store key d.complete) else none
  | some current => if current.allows d then some (o.store key (current.merge d)) else none

/-! ## Making objects -/

/-- A wrapper around a primitive. -/
def wrapper (prototype : Handle) (p : Boxed) : Object β :=
  { prototype := some prototype, tag := p.wrapperClass, primitive := some p }

/-- A function object: its `length` and `name` tell the expected arguments and
the name, and cannot be written. -/
def function (prototype : Handle) (f : Callable β) : Object β :=
  { prototype := some prototype
    tag := .function
    callable := some f
    properties :=
      ⟨[("length", .data (.number (Binary64.ofNat f.arity)) false false true),
        ("name", .data (.ofText f.name) false false true)]⟩ }

/-- An error object with its message and the name of its kind as properties. -/
def ofError (prototype : Handle) (kind : ErrorKind) (message : String) : Object β :=
  { prototype := some prototype
    tag := .error
    error := some ⟨kind, message⟩
    properties :=
      ⟨[("message", .hidden (.ofText message)), ("name", .hidden (.ofText kind.name))]⟩ }

end Object

end ScriptRealm
