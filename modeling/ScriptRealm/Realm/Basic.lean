import ScriptRealm.Object.Arena
import ScriptRealm.Program

/-!
# Realm — the state that scripts run in

A realm holds the arena of objects, the frames of names, the `new.target` of
the function being run, and the host's own state.

A computation in a realm is a tree (`RealmM`): its nodes read the realm,
replace it, or run the behaviour of a function, and its leaves are results.
What running a behaviour means is not said here, so the tree shows every
place where code of the host may take over; `Realm.Run` gives the trees their
meaning. `ScriptM` may throw as well, and what it changed before throwing
stays changed.
-/

namespace ScriptRealm

/-- The state that scripts run in. -/
structure Realm (σ : Type) where
  arena : Arena (Behavior σ)
  scopes : Scopes
  newTarget : Option Value
  host : σ

/-- Why a function runs. Nothing that runs depends on it. -/
inductive Entry where
  /-- It has been called. -/
  | called
  /-- It has been used to construct. -/
  | constructing (f : Value)

/-- A computation in a realm. -/
inductive RealmM (σ α : Type) where
  /-- Has its result. -/
  | done (a : α)
  /-- Goes on with the realm as it is. -/
  | read (next : Realm σ → RealmM σ α)
  /-- Replaces the realm. -/
  | write (r : Realm σ) (next : RealmM σ α)
  /-- Runs the behaviour of a function and goes on with how it ended. -/
  | enter (why : Entry) (b : Behavior σ) (this : Value) (args : List Value)
      (next : Completion → RealmM σ α)

/-- A computation in a realm that may throw a value. -/
abbrev ScriptM (σ : Type) := ExceptT Value (RealmM σ)

variable {σ : Type}

namespace RealmM

/-- Goes on with a result. -/
def bind : RealmM σ α → (α → RealmM σ β) → RealmM σ β
  | done a, k => k a
  | read next, k => read fun r => (next r).bind k
  | write r next, k => write r (next.bind k)
  | enter why b this args next, k => enter why b this args fun c => (next c).bind k

instance : Monad (RealmM σ) where
  pure := done
  bind := bind

instance : MonadStateOf (Realm σ) (RealmM σ) where
  get := read done
  set r := write r (done ⟨⟩)
  modifyGet f := read fun r => write (f r).2 (done (f r).1)

/-- Runs the behaviour of a function. -/
def runBehavior (why : Entry) (b : Behavior σ) (this : Value) (args : List Value) :
    RealmM σ Completion :=
  enter why b this args done

end RealmM

namespace ScriptM

/-- A computation that does not throw. -/
def lift (m : RealmM σ α) : ScriptM σ α := ExceptT.lift m

/-- A result that is already known. -/
def ofExcept (r : Except Value α) : ScriptM σ α := ExceptT.mk (pure r)

/-- The outcome of a computation, a thrown value included. -/
def attempt (m : ScriptM σ α) : RealmM σ (Except Value α) := ExceptT.run m

/-- Lets a computation that may throw end as a completion. -/
def complete (m : ScriptM σ Value) : RealmM σ Completion := Completion.ofResult <$> attempt m

/-- The realm as it is. -/
def realm : ScriptM σ (Realm σ) := lift get

/-- Changes the realm. -/
def change (f : Realm σ → Realm σ) : ScriptM σ Unit := lift (modify f)

end ScriptM

namespace Realm

/-! ## Questions that change nothing -/

/-- The function of a value that can be called. -/
def callable? (r : Realm σ) (v : Value) : Option (Callable (Behavior σ)) :=
  v.handle?.bind r.arena.callable?

/-- The value can be called. -/
def isCallable (r : Realm σ) (v : Value) : Bool := (r.callable? v).isSome

/-- The value can construct. -/
def isConstructor (r : Realm σ) (v : Value) : Bool :=
  ((r.callable? v).map (·.isConstructor)).getD false

/-- What `typeof` answers for the value. -/
def typeOf (r : Realm σ) (v : Value) : TypeTag :=
  match v with
  | .undefined => .undefined
  | .null => .object
  | .boolean _ => .boolean
  | .number _ => .number
  | .string _ => .string
  | .object _ => if r.isCallable v then .function else .object

/-- The primitive in a wrapper of the given class, or the value itself when it
is a primitive. -/
def boxed? (r : Realm σ) (v : Value) : Option Boxed :=
  match v with
  | .boolean b => some (.boolean b)
  | .number x => some (.number x)
  | .string s => some (.string s)
  | .object h =>
    (r.arena.get? h).bind fun o => o.primitive.filter fun p => p.wrapperClass == o.tag
  | _ => none

/-- What a host may see of an object. -/
def inspect (r : Realm σ) (h : Handle) : Option Inspection :=
  (r.arena.get? h).map fun o =>
    { tag := o.tag
      extensible := o.extensible
      prototype := o.prototype
      ownKeys := o.ownKeys
      stored := o.properties.entries
      primitive := o.primitive.map Boxed.toValue
      error := o.error
      callable := o.callable.map fun f => (f.name, f.arity, f.isConstructor) }

/-- The line a console shows for a value. -/
def format [Printer] (r : Realm σ) (v : Value) : String :=
  match v.handle?.bind r.arena.get? with
  | none => v.toText
  | some o =>
    match o.error, o.primitive with
    | some e, _ => if e.message.isEmpty then e.kind.name else s!"{e.kind.name}: {e.message}"
    | none, some p => s!"[{o.tag.name} {p.toValue.toText}]"
    | none, none => if o.callable.isSome then "[Function]" else v.toText

/-- The realm with its arena changed. -/
def withArena (r : Realm σ) (change : Arena (Behavior σ) → Arena (Behavior σ)) : Realm σ :=
  { r with arena := change r.arena }

/-- The realm with a frame changed. -/
def withFrame (r : Realm σ) (f : FrameId) (change : Frame → Frame) : Realm σ :=
  { r with scopes := r.scopes.modify f change }

end Realm

namespace RealmM

/-- An answer read off the realm. -/
def look (f : Realm σ → α) : RealmM σ α := f <$> get

/-! ## Making objects -/

/-- Puts an object into the arena. -/
def allocate (o : Object (Behavior σ)) : RealmM σ Handle :=
  modifyGet fun r =>
    let (h, arena) := r.arena.allocate o
    (h, { r with arena := arena })

/-- Gives a slot back. -/
def release (h : Handle) : RealmM σ Unit :=
  modify (·.withArena (·.release h))

/-- A plain object. -/
def newObject : RealmM σ Handle :=
  allocate { prototype := some (Intrinsic.prototype .object).handle }

/-- A function object. -/
def newFunction (f : Callable (Behavior σ)) : RealmM σ Value :=
  Value.object <$> allocate (.function Intrinsic.functionPrototype.handle f)

/-- The prototype that wrappers of a primitive have. -/
def wrapperPrototype : Boxed → Intrinsic
  | .boolean _ => .prototype .boolean
  | .number _ => .prototype .number
  | .string _ => .prototype .string

/-- A wrapper around a primitive. -/
def newWrapper (p : Boxed) : RealmM σ Handle :=
  allocate (.wrapper (wrapperPrototype p).handle p)

/-- An error object. -/
def newError (kind : ErrorKind) (message : String) : RealmM σ Value :=
  Value.object <$> allocate (.ofError (Intrinsic.prototype (.error kind)).handle kind message)

end RealmM

namespace ScriptM

/-- Throws a new error for a cause. -/
def raise [Printer] (f : Fault) : ScriptM σ α := do
  throw (← lift (RealmM.newError f.kind f.message))

/-- Throws for a cause in strict code; sloppy code is told that nothing was
done. -/
def refuse [Printer] (strict : Bool) (f : Fault) : ScriptM σ Bool :=
  if strict then raise f else pure false

end ScriptM

end ScriptRealm
