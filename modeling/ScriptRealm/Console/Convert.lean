import ScriptRealm.Realm.Fresh
import ScriptRealm.Realm.Run

/-!
# Convert — one conversion of a text

A conversion reads a text with the global `Number` and calls a method of the
number that results. It is a script like any other: it looks names up,
throws, and its uncaught errors are reported.
-/

namespace ScriptRealm.Console

/-- The realm of the console, whose host keeps no state. -/
abbrev ConsoleRealm := Realm Unit

/-- The nested calls that a conversion is allowed. It makes none inside another. -/
def allowance : Nat := 16

/-- Running functions with that allowance. -/
def runner [Printer] : Runner Unit := Behavior.run allowance

/-- What a run is asked to do. -/
structure Options where
  value : Option String := none
  eval : Option String := none
  fixed : Option Binary64 := none
  exponential : Option Binary64 := none
  precision : Option Binary64 := none
  radix : Option Binary64 := none
  locale : Bool := false
  strict : Bool := false
deriving DecidableEq

/-- A method to call and its arguments. -/
structure MethodCall where
  method : String
  arguments : List Value

namespace MethodCall

/-- The default text. -/
def plain : MethodCall := ⟨"toString", []⟩

/-- The conversion that the options select; of several the first in the order
fixed, exponential, precision, radix, locale. -/
def ofOptions (o : Options) : MethodCall :=
  match o.fixed, o.exponential, o.precision, o.radix with
  | some d, _, _, _ => ⟨"toFixed", [.number d]⟩
  | none, some d, _, _ => ⟨"toExponential", [.number d]⟩
  | none, none, some d, _ => ⟨"toPrecision", [.number d]⟩
  | none, none, none, some r => ⟨"toString", [.number r]⟩
  | none, none, none, none => if o.locale then ⟨"toLocaleString", []⟩ else plain

end MethodCall

/-- The program that converts: `Number(text).method(arguments)`. -/
def conversion (text : String) (c : MethodCall) : Program Unit :=
  .ask (.resolveGlobal "Number") fun reference =>
  .ask (.getValue reference) fun
    | .error thrown => .finish (.thrown thrown)
    | .ok constructor =>
      .ask (.call constructor .undefined [.ofText text]) fun ended =>
        match ended.result with
        | .error thrown => .finish (.thrown thrown)
        | .ok number => .ask (.callMethod number c.method c.arguments) .finish

/-- Runs a conversion as the outermost script and renders its value. -/
def convert [Printer] (text : String) (c : MethodCall) :
    Execution Unit (Except Uncaught String) := do
  match ← (RealmM.outermost (← (conversion text c).run runner)).run runner with
  | .error u => pure (.error u)
  | .ok v => pure (.ok ((← get).format v))

/-- The outcome of a conversion and the realm it leaves. A conversion stays
within the allowance, so there always is one; the other case reports so. -/
def convertIn [Printer] (realm : ConsoleRealm) (text : String) (c : MethodCall) :
    Except Uncaught String × ConsoleRealm :=
  ((convert text c).run realm).getD (.error (.value "too many nested calls"), realm)

/-- What a program run leaves behind. -/
structure Outcome where
  code : Nat
  out : String
  err : String
deriving DecidableEq

/-- A converted text goes to the output, a report to the error output. -/
def Outcome.ofConversion : Except Uncaught String → Outcome
  | .ok text => ⟨0, text ++ "\n", ""⟩
  | .error u => ⟨1, "", u.report ++ "\n"⟩

end ScriptRealm.Console
