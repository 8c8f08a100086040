import ScriptRealm.Builtin
import ScriptRealm.Completion
import ScriptRealm.Fault
import ScriptRealm.Scope

/-!
# Program — what a host may do with a realm

A host's code is data: a tree whose nodes are requests to the realm and whose
branches are the possible answers. The requests are the whole public
interface, so a statement about all programs is a statement about all uses of
a realm.

A host also keeps a state of its own, of any type `σ`, which its programs may
look at and replace. A function object made by a host holds a program for
every receiver and argument list; running it may make requests again, to any
depth. Built-in functions are named instead (`Builtin`).
-/

namespace ScriptRealm

/-- Which kind of primitive a conversion prefers. -/
inductive Hint where
  | number
  | string
  | unspecified
deriving DecidableEq

/-- What a host may see of an object. -/
structure Inspection where
  tag : ObjectClass
  extensible : Bool
  prototype : Option Handle
  ownKeys : List String
  stored : List (String × Descriptor)
  primitive : Option Value
  error : Option ErrorRecord
  /-- The name, the arity, and whether the function can construct. -/
  callable : Option (String × Nat × Bool)

/-- A change to an object that no rule restrains. -/
inductive RawEdit where
  | store (key : String) (d : Descriptor)
  | discard (key : String)
  | retag (tag : ObjectClass)

/-- A request to the realm. -/
inductive Request where
  | typeOf (v : Value)
  | isCallable (v : Value)
  | isConstructor (v : Value)
  | format (v : Value)
  | toObject (v : Value)
  | toPrimitive (v : Value) (hint : Hint)
  | toNumber (v : Value)
  | toText (v : Value)
  | negate (v : Value)
  | looselyEquals (a b : Value)
  | newObject
  | call (f this : Value) (args : List Value)
  | construct (f : Value) (args : List Value)
  | callMethod (base : Value) (name : String) (args : List Value)
  | newTarget
  | getOwn (o : Handle) (key : String)
  | getProperty (o : Handle) (key : String) (receiver : Value)
  | setProperty (o : Handle) (key : String) (v receiver : Value) (strict : Bool)
  | define (o : Handle) (key : String) (d : Descriptor)
  | delete (o : Handle) (key : String) (strict : Bool)
  | has (o : Handle) (key : String)
  | ownKeys (o : Handle)
  | preventExtensions (o : Handle)
  | isExtensible (o : Handle)
  | prototypeOf (o : Handle)
  | setPrototype (o : Handle) (prototype : Option Handle)
  | inspect (o : Handle)
  | liveObjects
  | edit (o : Handle) (e : RawEdit)
  | storedValue (o : Handle) (key : String)
  | newFrame (parent : Option FrameId) (strict : Bool)
  | isStrict (f : FrameId)
  | setStrict (f : FrameId) (strict : Bool)
  | declareName (f : FrameId) (name : String) (kind : BindingKind)
  | defineName (f : FrameId) (name : String) (kind : BindingKind) (v : Value)
  | initializeName (f : FrameId) (name : String) (v : Value)
  | binding (f : FrameId) (name : String)
  | frameOf (f : FrameId) (name : String)
  | outermost (f : FrameId)
  | resolve (f : FrameId) (name : String) (strict : Bool)
  | resolveGlobal (name : String)
  | propertyReference (base : Value) (name : String)
  | getValue (r : Reference)
  | putValue (r : Reference) (v : Value)
  | deleteReference (r : Reference)
  | createError (kind : ErrorKind) (message : String)
  | uncaught (v : Value)

namespace Request

/-- The type of the answer. A request that may throw answers with the value
or with what was thrown; a call answers with how the function ended. -/
@[reducible]
def Answer : Request → Type
  | typeOf _ => TypeTag
  | isCallable _ | isConstructor _ => Bool
  | format _ => String
  | toObject _ => Except Value Handle
  | toPrimitive .. | negate _ => Except Value Value
  | toNumber _ => Except Value Binary64
  | toText _ => Except Value String
  | looselyEquals .. => Except Value Bool
  | newObject => Handle
  | call .. | construct .. | callMethod .. => Completion
  | newTarget => Option Value
  | getOwn .. => Option Descriptor
  | getProperty .. => Except Value Value
  | setProperty .. | delete .. => Except Value Bool
  | define .. | has .. | preventExtensions _ | isExtensible _ | setPrototype .. => Bool
  | ownKeys _ => List String
  | prototypeOf _ => Option Handle
  | inspect _ => Option Inspection
  | liveObjects => Nat
  | edit .. => Bool
  | storedValue .. => Option Value
  | newFrame .. => FrameId
  | isStrict _ => Bool
  | setStrict .. | declareName .. | defineName .. => Unit
  | initializeName .. => Bool
  | binding .. => Option Binding
  | frameOf .. => Option FrameId
  | outermost _ => FrameId
  | resolve .. | resolveGlobal _ | propertyReference .. => Reference
  | getValue _ => Except Value Value
  | putValue .. => Except Value Unit
  | deleteReference _ => Except Value Bool
  | createError .. => Value
  | uncaught _ => Uncaught

end Request

/-- A host's code over its own state `σ`. -/
inductive Program (σ : Type) where
  /-- Ends. -/
  | finish (c : Completion)
  /-- Looks at the host's state. -/
  | observe (next : σ → Program σ)
  /-- Replaces the host's state. -/
  | update (state : σ) (next : Program σ)
  /-- Asks the realm. -/
  | ask (r : Request) (next : r.Answer → Program σ)
  /-- Makes a function object that runs host code. -/
  | newFunction (name : String) (arity : Nat) (isConstructor : Bool)
      (body : Value → List Value → Program σ) (next : Value → Program σ)

namespace Program

variable {σ : Type}

instance : Inhabited (Program σ) := ⟨finish default⟩

/-- Runs a program and goes on with how it ended. -/
def andThen : Program σ → (Completion → Program σ) → Program σ
  | finish c, next => next c
  | observe k, next => observe fun s => (k s).andThen next
  | update s k, next => update s (k.andThen next)
  | ask r k, next => ask r fun a => (k a).andThen next
  | newFunction name arity isConstructor body k, next =>
    newFunction name arity isConstructor body fun v => (k v).andThen next

/-- Runs the body; a thrown value is handed to the handler, and every other
end is the end of the whole. -/
def tryCatch (body : Program σ) (handler : Value → Program σ) : Program σ :=
  body.andThen fun
    | .thrown v => handler v
    | c => finish c

/-- Runs the finalizer after a piece of code has ended. An abrupt end of the
finalizer replaces that end, a normal one leaves it. -/
def tryFinally (ended : Completion) (finalizer : Program σ) : Program σ :=
  finalizer.andThen fun c => finish (if c.isAbrupt then c else ended)

/-- Runs the body as the outermost script: a thrown value becomes a report to
the host. -/
def outermost (body : Program σ) (next : Except Uncaught Value → Program σ) : Program σ :=
  body.andThen fun
    | .thrown v => ask (.uncaught v) fun u => next (.error u)
    | c => next (.ok (c.result.toOption.getD .undefined))

end Program

/-- What calling a function object does. -/
inductive Behavior (σ : Type) where
  | builtin (f : Builtin)
  | host (body : Value → List Value → Program σ)

end ScriptRealm
