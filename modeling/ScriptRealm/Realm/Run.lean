import ScriptRealm.Builtin.Wrappers

/-!
# Run — running functions, requests and programs

What a built-in function and what a request does is a computation
(`Builtin.perform`, `Request.perform`). Running a computation or a program
only needs the behaviour of functions to be run, and `Behavior.run` provides
that: it counts down an allowance of nested calls. A run that needs more than
the allowance has no answer.
-/

namespace ScriptRealm

variable {σ : Type} [Printer]

namespace Builtin

/-- What a built-in function answers. `Function.prototype.call` is not among
them, since it ends as the function ends that it calls. -/
def value (f : Builtin) (this : Value) (args : List Value) : ScriptM σ Value :=
  match f with
  | constructor .object => makeObject args
  | constructor (.error kind) => makeError kind args
  | constructor .number => makeNumber args
  | constructor .boolean => makeBoolean args
  | constructor .string => makeString args
  | emptyFunction | functionCall => pure .undefined
  | objectToString => tagText this
  | objectValueOf => asObject this
  | hasOwnProperty => ownPropertyTest this args (·.isSome)
  | isPrototypeOf => isPrototypeTest this args
  | propertyIsEnumerable =>
    ownPropertyTest this args fun d => (d.bind (·.enumerable)) == some true
  | getPrototypeOf => prototypeOf args
  | setPrototypeOf => changePrototype args
  | preventExtensions => fixProperties args
  | isExtensible => extensibleTest args
  | functionToString => functionText this
  | errorToString => errorText this
  | numberIsNaN => numberTest Binary64.isNaN args
  | numberIsFinite => numberTest Binary64.isFinite args
  | numberIsInteger => numberTest Binary64.isIntegral args
  | numberIsSafeInteger =>
    numberTest (fun x => x.isIntegral && x.absolute.atMost greatestSafe) args
  | numberToString => numberInRadix this args
  | numberToLocaleString => numberText this
  | numberValueOf => numberValue this
  | numberToFixed => numberFixed this args
  | numberToExponential => numberExponential this args
  | numberToPrecision => numberPrecision this args
  | booleanToString => booleanText this
  | booleanValueOf => booleanValue this
  | stringToString => stringReceiver this "toString"
  | stringValueOf => stringReceiver this "valueOf"

/-- How a built-in function ends. -/
def perform (f : Builtin) (this : Value) (args : List Value) :
    RealmM σ Completion :=
  match f with
  | functionCall => callReceiver this args
  | f => (f.value this args).complete

end Builtin

namespace RawEdit

/-- The object after an edit. -/
def apply (e : RawEdit) (o : Object (Behavior σ)) : Object (Behavior σ) :=
  match e with
  | store key d => o.store key d
  | discard key => o.discard key
  | retag tag => { o with tag := tag }

/-- The edit finds something to do in the object. -/
def applies (e : RawEdit) (o : Object (Behavior σ)) : Bool :=
  match e with
  | discard key => o.properties.contains key
  | _ => true

end RawEdit

/-- The answer of the realm to a request. -/
def Request.perform (r : Request) : RealmM σ r.Answer :=
  match r with
  | typeOf v => RealmM.look (·.typeOf v)
  | isCallable v => RealmM.look (·.isCallable v)
  | isConstructor v => RealmM.look (·.isConstructor v)
  | format v => RealmM.look (·.format v)
  | toObject v => (ScriptM.toObject v).attempt
  | toPrimitive v hint => (ScriptM.toPrimitive v hint).attempt
  | toNumber v => (ScriptM.toNumber v).attempt
  | toText v => (ScriptM.toText v).attempt
  | negate v => (ScriptM.negate v).attempt
  | looselyEquals a b => (ScriptM.looselyEquals a b).attempt
  | newObject => RealmM.newObject
  | call f this args => RealmM.call f this args
  | construct f args => RealmM.construct f args
  | callMethod base name args => RealmM.callMethod base name args
  | newTarget => RealmM.look (·.newTarget)
  | getOwn o key => RealmM.look (·.arena.getOwn o key)
  | getProperty o key receiver => (ScriptM.getProperty o key receiver).attempt
  | setProperty o key v receiver strict => (ScriptM.setProperty o key v receiver strict).attempt
  | define o key d => RealmM.define o key d
  | delete o key strict => (ScriptM.deleteProperty o key strict).attempt
  | has o key => RealmM.look fun realm => (realm.arena.find? o key).isSome
  | ownKeys o => RealmM.look (·.arena.ownKeys o)
  | preventExtensions o => RealmM.preventExtensions o
  | isExtensible o => RealmM.look (·.arena.isExtensible o)
  | prototypeOf o => RealmM.look (·.arena.prototype? o)
  | setPrototype o prototype => RealmM.setPrototype o prototype
  | inspect o => RealmM.look (·.inspect o)
  | liveObjects => RealmM.look (·.arena.live)
  | edit o e => modifyGet fun realm =>
    (((realm.arena.get? o).map (RawEdit.applies e)).getD false, realm.withArena (·.modify o e.apply))
  | storedValue o key => RealmM.look fun realm =>
    (realm.arena.get? o).bind fun object => (object.properties.find? key).bind (·.value)
  | newFrame parent strict => modifyGet fun realm =>
    let (f, scopes) := realm.scopes.add parent strict
    (f, { realm with scopes := scopes })
  | isStrict f => RealmM.look (·.scopes.isStrict f)
  | setStrict f strict => modify (·.withFrame f fun frame => { frame with strict := strict })
  | declareName f name kind => modify (·.withFrame f (·.declare name kind))
  | defineName f name kind v => modify (·.withFrame f (·.define name kind v))
  | initializeName f name v => modifyGet fun realm =>
    match (realm.scopes.get? f).bind (·.initialize? name v) with
    | none => (false, realm)
    | some frame => (true, realm.withFrame f fun _ => frame)
  | binding f name => RealmM.look (·.scopes.binding? f name)
  | frameOf f name => RealmM.look (·.scopes.frameOf? f name)
  | outermost f => RealmM.look (·.scopes.outermost f)
  | resolve f name strict => RealmM.look (·.scopes.resolve f name strict)
  | resolveGlobal name => RealmM.look (·.resolveGlobal name)
  | propertyReference base name => RealmM.look (·.propertyReference base name)
  | getValue reference => (ScriptM.getValue reference).attempt
  | putValue reference v => (ScriptM.putValue v reference).attempt
  | deleteReference reference => (ScriptM.deleteReference reference).attempt
  | createError kind message => RealmM.newError kind message
  | uncaught v => RealmM.uncaught v

/-- A run from a realm: an answer and the realm it leaves, or neither. -/
abbrev Execution (σ : Type) := StateT (Realm σ) Option

/-- What running the behaviour of a function does. -/
abbrev Runner (σ : Type) := Behavior σ → Value → List Value → Execution σ Completion

/-- Runs a computation. -/
def RealmM.run (runner : Runner σ) : RealmM σ α → Execution σ α
  | done a => pure a
  | read next => do (next (← get)).run runner
  | write r next => do
    set r
    next.run runner
  | enter _ b this args next => do (next (← runner b this args)).run runner

/-- Runs a program. -/
def Program.run (runner : Runner σ) : Program σ → Execution σ Completion
  | finish c => pure c
  | observe next => do (next (← get).host).run runner
  | update state next => do
    modify ({ · with host := state })
    next.run runner
  | ask r next => do (next (← r.perform.run runner)).run runner
  | newFunction name arity isConstructor body next => do
    let f := RealmM.newFunction ⟨name, arity, .host body, isConstructor⟩
    (next (← f.run runner)).run runner

/-- Runs the behaviour of a function, with an allowance of nested calls. -/
def Behavior.run : Nat → Runner σ
  | 0, _, _, _ => failure
  | allowance + 1, .builtin f, this, args => (f.perform this args).run (Behavior.run allowance)
  | allowance + 1, .host body, this, args => (body this args).run (Behavior.run allowance)

end ScriptRealm
