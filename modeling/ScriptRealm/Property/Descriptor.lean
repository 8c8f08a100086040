import ScriptRealm.Value

/-!
# Descriptor — what is said of a property

A descriptor names any part of a property's six attributes. A data
descriptor says something of the value or of writability, an accessor
descriptor of the getter or the setter; a generic one says neither. Stored
properties carry complete descriptors of one kind; a request to change a
property may carry less.

`allows` is the rule for changing a property that is not configurable, and
`merge` is the change itself.
-/

namespace ScriptRealm

/-- The attributes of a property, each present or not. -/
structure Descriptor where
  value : Option Value := none
  writable : Option Bool := none
  get : Option Value := none
  set : Option Value := none
  enumerable : Option Bool := none
  configurable : Option Bool := none
deriving DecidableEq

namespace Descriptor

/-- The descriptor that says nothing. -/
def empty : Descriptor := {}

/-- A complete data descriptor. -/
def data (value : Value) (writable enumerable configurable : Bool) : Descriptor :=
  { value := some value
    writable := some writable
    enumerable := some enumerable
    configurable := some configurable }

/-- A property made by assignment: everything is permitted. -/
def plain (value : Value) : Descriptor := data value true true true

/-- A property that can neither be written, listed nor changed. -/
def frozen (value : Value) : Descriptor := data value false false false

/-- A property of the built-in library: everything but listing is permitted. -/
def hidden (value : Value) : Descriptor := data value true false true

/-- A complete accessor descriptor; a missing function is `undefined`. -/
def accessor (get set : Option Value) (enumerable configurable : Bool) : Descriptor :=
  { get := some (get.getD .undefined)
    set := some (set.getD .undefined)
    enumerable := some enumerable
    configurable := some configurable }

/-- Says something of the value or of writability. -/
def isData (d : Descriptor) : Bool := d.value.isSome || d.writable.isSome

/-- Says something of the getter or the setter. -/
def isAccessor (d : Descriptor) : Bool := d.get.isSome || d.set.isSome

/-- Says nothing of either kind. -/
def isGeneric (d : Descriptor) : Bool := !d.isData && !d.isAccessor

/-- Fills in the default of every attribute that the descriptor's kind has and
that it leaves out. A generic descriptor becomes a data descriptor. -/
def complete (d : Descriptor) : Descriptor :=
  let filled :=
    if d.isGeneric || d.isData then
      { d with value := some (d.value.getD .undefined), writable := some (d.writable.getD false) }
    else
      { d with get := some (d.get.getD .undefined), set := some (d.set.getD .undefined) }
  { filled with
    enumerable := some (d.enumerable.getD false)
    configurable := some (d.configurable.getD false) }

/-- The descriptor turned to the kind of `update`, the attributes of its new
kind at their defaults. A descriptor already of that kind stays. -/
def turned (current update : Descriptor) : Descriptor :=
  if current.isData && update.isAccessor then
    { current with value := none, writable := none,
                   get := some .undefined, set := some .undefined }
  else if current.isAccessor && update.isData then
    { current with value := some .undefined, writable := some false, get := none, set := none }
  else current

/-- The property after a change: attributes that `update` leaves out keep
their value, except that a change of kind resets those of the old kind. -/
def merge (current update : Descriptor) : Descriptor :=
  let base := current.turned update
  { value := update.value <|> base.value
    writable := update.writable <|> base.writable
    get := update.get <|> base.get
    set := update.set <|> base.set
    enumerable := update.enumerable <|> base.enumerable
    configurable := update.configurable <|> base.configurable }

/-- A requested value is absent, or the same as the present one. -/
def keeps (requested present : Option Value) : Bool :=
  match requested, present with
  | none, _ => true
  | some v, some w => v.identical w
  | some _, none => false

/-- The change is permitted. All changes to a configurable property are; one
that is not configurable stays so, keeps its listing and its kind, an
accessor keeps its functions, and a value that cannot be written keeps both
the value and that. -/
def allows (current update : Descriptor) : Bool :=
  current.configurable != some false
    || (update.configurable != some true
      && (update.enumerable.isNone || update.enumerable == current.enumerable)
      && (update.isGeneric || update.isAccessor == current.isAccessor)
      && (if current.isAccessor then
            keeps update.get current.get && keeps update.set current.set
          else current.writable != some false
            || (update.writable != some true && keeps update.value current.value)))

end Descriptor

end ScriptRealm
