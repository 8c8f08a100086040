import ScriptRealm.Realm.Basic

/-!
# Call — calling and constructing

Calling a function sets `new.target` for the run of its behaviour and puts
the former value back afterwards, whichever way the behaviour ends.
-/

namespace ScriptRealm

variable {σ : Type} [Printer]

namespace RealmM

/-- Runs a function with the given `new.target`, which is put back after. -/
def underTarget (target : Option Value) (m : RealmM σ Completion) : RealmM σ Completion := do
  let saved := (← get).newTarget
  modify ({ · with newTarget := target })
  let c ← m
  modify ({ · with newTarget := saved })
  pure c

/-- Ends by throwing a new error for a cause. -/
def throwing (f : Fault) : RealmM σ Completion :=
  Completion.thrown <$> newError f.kind f.message

/-- Calls a function. -/
def call (f this : Value) (args : List Value) : RealmM σ Completion := do
  let r ← get
  match r.callable? f with
  | none => throwing (.notFunction (r.typeOf f))
  | some c => underTarget none (runBehavior .called c.behavior this args)

/-- Constructs with a function. -/
def construct (f : Value) (args : List Value) : RealmM σ Completion := do
  let r ← get
  match (r.callable? f).filter (·.isConstructor) with
  | none => throwing (.notConstructor (r.typeOf f))
  | some c => underTarget (some f) (runBehavior (.constructing f) c.behavior .undefined args)

end RealmM

/-- Calls a function for its value. -/
def ScriptM.callForValue (f this : Value) (args : List Value) :
    ScriptM σ Value :=
  ExceptT.mk (Completion.result <$> RealmM.call f this args)

end ScriptRealm
