import ScriptRealm.Realm.Access

/-!
# Conversion — values as objects, primitives, numbers and text

A primitive becomes an object by boxing. Boxing for the length of one access
(`autoboxed`) gives the slot back whether the access throws or not, and
nothing that runs meanwhile is handed the wrapper.

An object becomes a primitive by its own methods `valueOf` and `toString`, in
the order that the wanted kind asks for; the first that gives a primitive
decides. All other conversions of objects go through that one.
-/

namespace ScriptRealm

/-- The primitive that a value boxes into a wrapper of. -/
def Value.boxable? : Value → Option Boxed
  | .boolean b => some (.boolean b)
  | .number x => some (.number x)
  | .string s => some (.string s)
  | _ => none

/-- The conversion methods, in the order they are tried. -/
def Hint.methods : Hint → List String
  | .string => ["toString", "valueOf"]
  | .number | .unspecified => ["valueOf", "toString"]

namespace ScriptM

variable {σ : Type} [Printer]

/-- The value as an object: itself, or a new wrapper around a primitive. -/
def toObject (v : Value) : ScriptM σ Handle :=
  match v.handle?, v.boxable? with
  | some h, _ => pure h
  | none, some p => lift (RealmM.newWrapper p)
  | none, none => raise .nullishObject

/-- Uses a value as an object. A primitive is boxed for the length of the use
only. -/
def autoboxed (base : Value) (use : Handle → ScriptM σ α) : ScriptM σ α :=
  match base.handle? with
  | some h => use h
  | none => do
    let wrapper ← toObject base
    let outcome ← lift (use wrapper).attempt
    lift (RealmM.release wrapper)
    ofExcept outcome

/-- Tries conversion methods of an object until one gives a primitive. -/
def convertBy (o : Handle) : List String → ScriptM σ Value
  | [] => raise .noPrimitive
  | name :: others => do
    let method ← getProperty o name (.object o)
    if (← realm).isCallable method then
      let v ← callForValue method (.object o) []
      if v.isObject then convertBy o others else pure v
    else convertBy o others

/-- The value as a primitive. -/
def toPrimitive (v : Value) (hint : Hint) : ScriptM σ Value :=
  match v.handle? with
  | none => pure v
  | some o => convertBy o hint.methods

/-- The value as a number. -/
def toNumber (v : Value) : ScriptM σ Binary64 :=
  Value.toNumber <$> toPrimitive v .number

/-- The value as text. -/
def toText (v : Value) : ScriptM σ String :=
  Value.toText <$> toPrimitive v .string

/-- The value as an integer or an infinity. -/
def toInteger (v : Value) : ScriptM σ Binary64 :=
  Binary64.toIntegerOrInfinity <$> toNumber v

/-- The value as a number with its sign turned. -/
def negate (v : Value) : ScriptM σ Value :=
  (fun x => .number x.negate) <$> toNumber v

/-! ## Loose equality -/

/-- Loose equality of two primitives: within one type it is strict equality,
the nullish values equal each other and nothing else, and all other pairs are
compared as numbers. -/
def loosePrimitives (a b : Value) : Bool :=
  match a, b with
  | .undefined, .undefined | .undefined, .null | .null, .undefined | .null, .null => true
  | .undefined, _ | .null, _ | _, .undefined | _, .null => false
  | .string s, .string t => s == t
  | a, b => a.toNumber.equal b.toNumber

/-- Loose equality. An object is converted, once, to be compared with a
primitive that is not nullish; two objects are equal when they are the same. -/
def looselyEquals (a b : Value) : ScriptM σ Bool :=
  match a.handle?, b.handle? with
  | some g, some h => pure (g == h)
  | none, none => pure (loosePrimitives a b)
  | some _, none =>
    if b.isNullish then pure false
    else do pure (loosePrimitives (← toPrimitive a .unspecified) b)
  | none, some _ =>
    if a.isNullish then pure false
    else do pure (loosePrimitives a (← toPrimitive b .unspecified))

end ScriptM

end ScriptRealm
