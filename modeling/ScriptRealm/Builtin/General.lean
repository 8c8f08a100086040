import ScriptRealm.Realm.Names

/-!
# General — the built-in functions of objects, functions and errors

Each function here is what calling it does, with the receiver and the
arguments as given. `argument` reads a missing argument as `undefined`.
-/

namespace ScriptRealm

/-- The argument at a place; a missing one is `undefined`. -/
def argument (args : List Value) (place : Nat) : Value := args[place]?.getD .undefined

namespace Builtin

variable {σ : Type} [Printer]

/-! ## Object -/

/-- `Object.prototype.toString`: the class of the receiver in brackets. -/
def tagText (this : Value) : ScriptM σ Value := do
  let tag ← match this with
    | .undefined => pure "Undefined"
    | .null => pure "Null"
    | _ => do
      let o ← ScriptM.toObject this
      let tag := (← ScriptM.realm).arena.tag? o
      pure ((tag.map (·.name)).getD ObjectClass.object.name)
  pure (.ofText s!"[object {tag}]")

/-- The receiver or argument as an object. -/
def asObject (v : Value) : ScriptM σ Value := Value.object <$> ScriptM.toObject v

/-- A question about the receiver's own property under the key that the first
argument names. -/
def ownPropertyTest (this : Value) (args : List Value)
    (test : Option Descriptor → Bool) : ScriptM σ Value := do
  let key ← ScriptM.toText (argument args 0)
  let found ← ScriptM.autoboxed this fun o => do
    pure ((← ScriptM.realm).arena.getOwn o key)
  pure (.boolean (test found))

/-- `Object.prototype.isPrototypeOf`: the receiver lies on the chain of the
argument. -/
def isPrototypeTest (this : Value) (args : List Value) : ScriptM σ Value :=
  match argument args 0 with
  | .object v => do
    let o ← ScriptM.toObject this
    pure (.boolean ((← ScriptM.realm).arena.isAncestor o v))
  | _ => pure (.boolean false)

/-- `Object`: the argument as an object, a new object for a nullish one. -/
def makeObject (args : List Value) : ScriptM σ Value :=
  let v := argument args 0
  if v.isNullish then Value.object <$> ScriptM.lift RealmM.newObject else asObject v

/-- `Object.getPrototypeOf`. -/
def prototypeOf (args : List Value) : ScriptM σ Value := do
  let o ← ScriptM.toObject (argument args 0)
  pure (((← ScriptM.realm).arena.prototype? o).elim .null .object)

/-- The prototype that an argument names: an object, or `null` for none. -/
def prototypeArgument (v : Value) : ScriptM σ (Option Handle) :=
  match v with
  | .object p => pure (some p)
  | .null => pure none
  | _ => ScriptM.raise .prototypeNotObject

/-- `Object.setPrototypeOf`: answers the first argument. A primitive has no
prototype to set. -/
def changePrototype (args : List Value) : ScriptM σ Value := do
  let target := argument args 0
  if target.isNullish then ScriptM.raise .prototypeOfNullish
  else
    let prototype ← prototypeArgument (argument args 1)
    match target with
    | .object o =>
      if ← ScriptM.lift (RealmM.setPrototype o prototype) then pure target
      else if (← ScriptM.realm).arena.isExtensible o then ScriptM.raise .cyclicPrototype
      else ScriptM.raise .prototypeFixed
    | _ => pure target

/-- `Object.preventExtensions`: answers the argument. -/
def fixProperties (args : List Value) : ScriptM σ Value := do
  let target := argument args 0
  match target with
  | .object o =>
    let _ ← ScriptM.lift (RealmM.preventExtensions o)
    pure target
  | _ => pure target

/-- `Object.isExtensible`: a primitive is not. -/
def extensibleTest (args : List Value) : ScriptM σ Value := do
  match argument args 0 with
  | .object o => pure (.boolean ((← ScriptM.realm).arena.isExtensible o))
  | _ => pure (.boolean false)

/-! ## Function -/

/-- `Function.prototype.call`: the first argument is the receiver, the others
are the arguments. -/
def callReceiver (this : Value) (args : List Value) :
    RealmM σ Completion := do
  if (← get).isCallable this then RealmM.call this (argument args 0) (args.drop 1)
  else RealmM.throwing .callOfNonFunction

/-- `Function.prototype.toString`. -/
def functionText (this : Value) : ScriptM σ Value := do
  match (← ScriptM.realm).callable? this with
  | some f => pure (.ofText s!"function {f.name}() \x7b [native code] \x7d")
  | none => ScriptM.raise (.wrongReceiver "Function.prototype.toString" "a Function")

/-! ## Error -/

/-- An error constructor, called or constructing. Without a message the error
has no own `message`, so that of its prototype is seen. -/
def makeError (kind : ErrorKind) (args : List Value) : ScriptM σ Value := do
  let message := argument args 0
  if message.isUndefined then
    let e ← ScriptM.lift (RealmM.newError kind "")
    match e.handle? with
    | some h => ScriptM.change (·.withArena (·.modify h (·.discard "message")))
    | none => pure ()
    pure e
  else ScriptM.lift (RealmM.newError kind (← ScriptM.toText message))

/-- A property of the receiver as text, with a default for `undefined`. -/
def textProperty (o : Handle) (key whenUndefined : String) :
    ScriptM σ String := do
  let v ← ScriptM.getProperty o key (.object o)
  if v.isUndefined then pure whenUndefined else ScriptM.toText v

/-- `Error.prototype.toString`: name and message, with a colon between when
neither is empty. -/
def errorText (this : Value) : ScriptM σ Value := do
  match this.handle? with
  | none => ScriptM.raise (.wrongReceiver "Error.prototype.toString" "an Object")
  | some o =>
    let name ← textProperty o "name" ErrorKind.error.name
    let message ← textProperty o "message" ""
    pure (.ofText
      (if message.isEmpty then name
        else if name.isEmpty then message
        else s!"{name}: {message}"))

end Builtin

end ScriptRealm
