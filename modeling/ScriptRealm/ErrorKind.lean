/-!
# ErrorKind — the native errors

The seven kinds of error that the realm itself makes, each with its own
constructor and prototype.
-/

namespace ScriptRealm

/-- A kind of native error. -/
inductive ErrorKind where
  | error
  | typeError
  | rangeError
  | referenceError
  | syntaxError
  | evalError
  | uriError
deriving DecidableEq

namespace ErrorKind

/-- Every kind, the general one first. -/
def all : List ErrorKind :=
  [error, typeError, rangeError, referenceError, syntaxError, evalError, uriError]

/-- The name of the kind's constructor. -/
def name : ErrorKind → String
  | error => "Error"
  | typeError => "TypeError"
  | rangeError => "RangeError"
  | referenceError => "ReferenceError"
  | syntaxError => "SyntaxError"
  | evalError => "EvalError"
  | uriError => "URIError"

end ErrorKind

end ScriptRealm
