import ScriptRealm.Realm.Call

/-!
# Access — reading, writing and deleting properties

A property is looked for along the prototype chain, but written on the
receiver. The receiver need not be the object where the search starts: it is
the value that getters and setters see as `this`, and a primitive receiver
refuses new properties.

A refusal is `false` in sloppy code and a thrown error in strict code.
-/

namespace ScriptRealm

variable {σ : Type} [Printer]

namespace RealmM

/-- Applies a requested change to a property; tells whether it was accepted. -/
def define (o : Handle) (key : String) (d : Descriptor) : RealmM σ Bool :=
  modifyGet fun r =>
    match r.arena.define? o key d with
    | none => (false, r)
    | some arena => (true, { r with arena := arena })

/-- Makes an object take no new properties; tells whether there is one. -/
def preventExtensions (o : Handle) : RealmM σ Bool :=
  modifyGet fun r =>
    ((r.arena.get? o).isSome,
      r.withArena (·.modify o fun object => { object with extensible := false }))

/-- Changes the prototype of an object; tells whether that was accepted. -/
def setPrototype (o : Handle) (prototype : Option Handle) : RealmM σ Bool :=
  modifyGet fun r =>
    match r.arena.setPrototype? o prototype with
    | none => (false, r)
    | some arena => (true, { r with arena := arena })

end RealmM

namespace ScriptM

/-- The value of a property found along the chain of `o`; an accessor is asked
with the receiver, and a missing property is `undefined`. -/
def getProperty (o : Handle) (key : String) (receiver : Value) :
    ScriptM σ Value := do
  match (← realm).arena.find? o key with
  | none => pure .undefined
  | some d =>
    if d.isAccessor then
      let getter := d.get.getD .undefined
      if getter.isUndefined then pure .undefined
      else callForValue getter receiver []
    else pure (d.value.getD .undefined)

/-- Writes a data property of the receiver itself: a new one, or the value of
one that can be written. -/
def writeOwn (receiver : Handle) (key : String) (v : Value) : ScriptM σ Bool := do
  match (← realm).arena.getOwn receiver key with
  | none => lift (RealmM.define receiver key (.plain v))
  | some own =>
    if own.isAccessor || own.writable == some false then pure false
    else lift (RealmM.define receiver key { value := some v })

/-- Writes to the receiver after the search has found nothing in the way. -/
def writeReceiver (key : String) (v receiver : Value) (strict : Bool) : ScriptM σ Bool := do
  match receiver.handle? with
  | none => refuse strict (.primitiveReceiver key receiver)
  | some target =>
    if ((← realm).arena.get? target).isNone then pure false
    else if ← writeOwn target key v then pure true
    else refuse strict (.notExtensible key)

/-- Writes a property: through the setter of an accessor found along the chain
of `o`, and on the receiver otherwise. -/
def setProperty (o : Handle) (key : String) (v receiver : Value)
    (strict : Bool) : ScriptM σ Bool := do
  match (← realm).arena.find? o key with
  | none => writeReceiver key v receiver strict
  | some d =>
    if d.isAccessor then
      let setter := d.set.getD .undefined
      if setter.isUndefined then refuse strict (.getterOnly key receiver)
      else
        let _ ← callForValue setter receiver [v]
        pure true
    else if d.writable == some false then refuse strict (.readOnlyProperty key receiver)
    else writeReceiver key v receiver strict

/-- Deletes an own property. A property that is not there counts as deleted, one
that is not configurable stays. -/
def deleteProperty (o : Handle) (key : String) (strict : Bool) : ScriptM σ Bool := do
  let r ← realm
  match r.arena.get? o with
  | none => pure true
  | some object =>
    match object.getOwn key with
    | none => pure true
    | some d =>
      if d.configurable == some true then
        change (·.withArena (·.modify o (·.discard key)))
        pure true
      else refuse strict (.undeletable key object.tag)

end ScriptM

end ScriptRealm
