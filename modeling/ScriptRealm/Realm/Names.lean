import ScriptRealm.Realm.Conversion

/-!
# Names — using references

Reading, writing and deleting through a reference. A reference may be used
long after it was made: a binding that has gone meanwhile reads as undefined
in name, and a write to it goes where a write to an undeclared name goes.

A reference with a primitive base boxes the base for the length of the
access; accessors still see the primitive itself.
-/

namespace ScriptRealm

namespace ScriptM

variable {σ : Type} [Printer]

/-- Changes a frame. -/
def modifyFrame (f : FrameId) (edit : Frame → Frame) : ScriptM σ Unit :=
  change (·.withFrame f edit)

/-- The value that a reference names. -/
def getValue : Reference → ScriptM σ Value
  | .unresolved name _ _ => raise (.notDefined name)
  | .resolved (.frame f) name _ => do
    match (← realm).scopes.binding? f name with
    | none => raise (.notDefined name)
    | some b => if b.initialized then pure b.value else raise (.uninitialized name)
  | .resolved (.value base) name _ =>
    if base.isNullish then raise (.nullishRead base name)
    else autoboxed base fun o => getProperty o name base

/-- Writes to a name that nothing declares: sloppy code makes a binding in the
outermost frame. -/
def putUndeclared (name : String) (strict : Bool) (outermost : FrameId) (v : Value) :
    ScriptM σ Unit :=
  if strict then raise (.notDefined name)
  else modifyFrame outermost (·.defineImplicit name v)

/-- Writes the value that a reference names. -/
def putValue (v : Value) : Reference → ScriptM σ Unit
  | .unresolved name strict outermost => putUndeclared name strict outermost v
  | .resolved (.frame f) name strict => do
    let scopes := (← realm).scopes
    match scopes.binding? f name with
    | none => putUndeclared name strict (scopes.outermost f) v
    | some b =>
      if !b.initialized then raise (.uninitialized name)
      else match b.kind with
        | .constant => raise (.constantAssigned name)
        | .readOnly => if strict then raise (.readOnlyName name) else pure ()
        | .variable | .letVariable => modifyFrame f (·.bind name { b with value := v })
  | .resolved (.value base) name strict =>
    if base.isNullish then raise (.nullishWrite base name)
    else do
      let _ ← autoboxed base fun o => setProperty o name v base strict

/-- Deletes what a reference names; tells whether it is gone. -/
def deleteReference : Reference → ScriptM σ Bool
  | .unresolved _ strict _ => if strict then raise .nameDeleted else pure true
  | .resolved (.frame f) name strict =>
    if strict then raise .nameDeleted
    else do
      match (← realm).scopes.binding? f name with
      | none => pure true
      | some b =>
        if b.deletable then
          modifyFrame f (·.unbind name)
          pure true
        else pure false
  | .resolved (.value base) name strict =>
    if base.isNullish then raise .nullishObject
    else autoboxed base fun o => deleteProperty o name strict

end ScriptM

namespace Realm

variable {σ : Type}

/-- Looks a name up from the global frame, with that frame's strictness. -/
def resolveGlobal (r : Realm σ) (name : String) : Reference :=
  r.scopes.resolve Scopes.globalFrame name (r.scopes.isStrict Scopes.globalFrame)

/-- The reference `base.name` with the strictness of the global frame. -/
def propertyReference (r : Realm σ) (base : Value) (name : String) : Reference :=
  .property base name (r.scopes.isStrict Scopes.globalFrame)

end Realm

namespace RealmM

variable {σ : Type} [Printer]

/-- Calls a method of a value. The method sees the value itself, boxed only
while the method is looked up. -/
def callMethod (base : Value) (name : String) (args : List Value) :
    RealmM σ Completion := do
  let reference := (← get).propertyReference base name
  match ← (ScriptM.getValue reference).attempt with
  | .error thrown => pure (.thrown thrown)
  | .ok method =>
    let r ← get
    if r.isCallable method then call method base args
    else throwing (.notMethod (r.typeOf base) name)

/-- What the host is told of a thrown value: an error's own kind and message,
whatever has become of its properties, and the text of all else. -/
def uncaught (v : Value) : RealmM σ Uncaught := do
  match (v.handle?.bind (← get).arena.get?).bind (·.error) with
  | some e => pure (.error e.kind e.message)
  | none =>
    match ← (ScriptM.toText v).attempt with
    | .ok text => pure (.value text)
    | .error _ => pure (.value ((← get).format v))

/-- What the host is told of how its outermost script ended. -/
def outermost (ended : Completion) : RealmM σ (Except Uncaught Value) :=
  match ended with
  | .thrown v => .error <$> uncaught v
  | ended => pure (.ok (ended.result.toOption.getD .undefined))

end RealmM

end ScriptRealm
