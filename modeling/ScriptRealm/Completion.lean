import ScriptRealm.Value

/-!
# Completion — how a piece of code ends

Code ends normally or in one of four abrupt ways. Seen from outside a call
only two ends remain, a value or a thrown value: loop control never leaves a
function body, so it reads as `undefined`.
-/

namespace ScriptRealm

/-- The end of a piece of code. -/
inductive Completion where
  | normal (v : Value)
  | returned (v : Value)
  | thrown (v : Value)
  | broke (label : Option String)
  | continued (label : Option String)
deriving DecidableEq

namespace Completion

instance : Inhabited Completion := ⟨normal .undefined⟩

/-- Every end but the normal one. -/
def isAbrupt : Completion → Bool
  | normal _ => false
  | _ => true

/-- The value or the thrown value. -/
def result : Completion → Except Value Value
  | normal v | returned v => .ok v
  | thrown v => .error v
  | broke _ | continued _ => .ok .undefined

/-- A value ends normally, a thrown value throws. -/
def ofResult : Except Value Value → Completion
  | .ok v => normal v
  | .error v => thrown v

/-- What becomes a completion is read back as it was. -/
theorem result_ofResult (r : Except Value Value) : (ofResult r).result = r := by
  cases r <;> rfl

end Completion

end ScriptRealm
