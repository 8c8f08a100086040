import ScriptRealm.Console.CommandLine
import ScriptRealm.Number.Shortest
import ScriptRealm.Proofs.NumberMembers
import ScriptRealm.Proofs.Utf16

/-!
# Conversion — the console prints what the number engine answers

A conversion looks `Number` up, calls it on a text, calls a method of the
number by name and reports what is thrown at the end. From a pristine realm each
of these steps settles, and so does the whole (`convertIn_eq`): in what the
method settles in when it is called on the number that the text reads as.

`run_prints_rendering` says so of a run of the program that is given a text. What it prints is
the text that the number engine renders (`Options.rendering`), or the report of
a `RangeError`.
-/

namespace ScriptRealm

open Execution (Ends)

/-! ## What the host is told -/

/-- What the host is told of a script that ended in the given way. -/
def toldOf [Printer] : Except Fault Value → Except Uncaught Value
  | .ok v => .ok v
  | .error f => .error (.error f.kind f.message)

theorem RealmM.outermost_ends [Printer] {σ : Type} {runner : Runner σ} {r : Realm σ}
    {c : Completion} {e : Except Fault Value} (hshows : r.Shows c.result e) :
    Ends ((outermost c).run runner) (fun told r' => r' = r ∧ told = toldOf e) r := by
  cases c with
  | thrown v =>
    cases e with
    | ok => exact hshows.elim
    | error f =>
      obtain ⟨h, o, rfl, hget, herror⟩ := hshows
      have hrecord : r.error? h = some ⟨f.kind, f.message⟩ := by
        rw [Realm.error?, hget]
        exact herror
      exact ends_map ⟨_, r, run_uncaught hrecord, rfl, rfl⟩
  | normal v | returned v | broke label | continued label =>
    cases e with
    | ok => exact .pure ⟨rfl, congrArg Except.ok hshows⟩
    | error f => exact hshows.elim

/-- A request of a program comes first. -/
theorem Program.ends_ask [Printer] {σ : Type} {runner : Runner σ} {q : Request}
    {next : q.Answer → Program σ} {post : Completion → Realm σ → Prop} {r : Realm σ}
    (h : Ends (q.perform.run runner) (fun a r' => Ends ((next a).run runner) post r') r) :
    Ends ((ask q next).run runner) post r :=
  .bind h

namespace Console

/-! ## Conversions -/

/-- The global `Number` is what it was at first. -/
theorem getNumber_settles [Printer] (strict : Bool) :
    (ScriptM.getValue (.resolved (.frame Scopes.globalFrame) "Number" strict) :
      ScriptM Unit Value).Settles runner
      (.ok (Intrinsic.function (.constructor .number)).toValue) := by
  refine ScriptM.settles_realm fun r hr => ?_
  rw [hr.binding?]
  exact ScriptM.settles_pure _

/-- `Number` reads a text. -/
theorem callNumber_settles [Printer] (text : String) :
    (RealmM.call (Intrinsic.function (.constructor .number)).toValue .undefined [.ofText text] :
      RealmM Unit Completion).Settles runner (.ok (.number (Binary64.ofScriptText text))) := by
  have htext : ∀ v ∈ [Value.ofText text], v.handle? = none := by
    intro v hv
    cases List.mem_singleton.mp hv
    rfl
  have hread : (Value.ofText text).toNumber = Binary64.ofScriptText text := by
    rw [Value.ofText, Value.toNumber, Utf16.toText_ofString]
  have hmake : ((Builtin.constructor .number).value .undefined [.ofText text] :
      ScriptM Unit Value).Settles (Behavior.run 15)
      (.ok (.number ([Value.ofText text].head?.elim Binary64.zero Value.toNumber))) :=
    Builtin.makeNumber_settles htext
  rw [List.head?_cons, Option.elim_some, hread] at hmake
  exact RealmM.call_settles (Intrinsic.constructor_mem .number)
    (Builtin.perform_settles (by decide) hmake)

section Conversions

variable {text : String} {c : MethodCall} {e : Except Fault Value}

/-- From every pristine realm a conversion ends as the method call in it does. -/
theorem conversion_ends [Printer]
    (hmethod : (RealmM.callMethod (.number (Binary64.ofScriptText text)) c.method c.arguments :
      RealmM Unit Completion).Settles runner e) {r : ConsoleRealm} (hr : r.Pristine) :
    Ends ((conversion text c).run runner) (fun c r' => r'.Pristine ∧ r'.Shows c.result e) r := by
  obtain ⟨strict, hresolve⟩ := hr.resolveGlobal
    (show (Table.find? ⟨Frame.globalBindings⟩ "Number").isSome = true from rfl)
  refine Program.ends_ask ⟨_, r, congrArg (fun a => some (a, r)) hresolve, ?_⟩
  refine Program.ends_ask ((getNumber_settles strict r hr).mono ?_)
  rintro (thrown | constructor) r₁ ⟨hr₁, hshows⟩
  · exact hshows.elim
  cases hshows
  refine Program.ends_ask ((callNumber_settles text r₁ hr₁).mono ?_)
  rintro ended r₂ ⟨hr₂, hshows⟩
  cases hended : ended.result with
  | error thrown =>
    rw [hended] at hshows
    exact hshows.elim
  | ok number =>
    rw [hended] at hshows
    cases hshows
    exact Program.ends_ask ((hmethod r₂ hr₂).mono fun _ _ h => .pure h)

/-- A primitive is shown as its text, whatever the realm holds. -/
theorem format_of_primitive [Printer] (r : ConsoleRealm) {v : Value} (hv : v.handle? = none) :
    r.format v = v.toText := by
  unfold Realm.format
  rw [hv]
  rfl

/-- A conversion gives the text or the report that its method call settles in,
and leaves a pristine realm. -/
theorem convertIn_eq [Printer] (he : PrimitiveOutcome e)
    (hmethod : (RealmM.callMethod (.number (Binary64.ofScriptText text)) c.method c.arguments :
      RealmM Unit Completion).Settles runner e) {r : ConsoleRealm} (hr : r.Pristine) :
    ∃ r', convertIn r text c = ((toldOf e).map Value.toText, r') ∧ r'.Pristine := by
  have hconvert : Ends (convert text c)
      (fun answer r' => answer = (toldOf e).map Value.toText ∧ r'.Pristine) r := by
    refine .bind ((conversion_ends hmethod hr).mono ?_)
    rintro ended r₁ ⟨hr₁, hshows⟩
    refine .bind ((RealmM.outermost_ends hshows).mono ?_)
    rintro told r₂ ⟨rfl, rfl⟩
    cases e with
    | error f => exact .pure ⟨rfl, hr₁⟩
    | ok v => exact ⟨_, r₂, rfl, congrArg Except.ok (format_of_primitive r₂ (he v rfl)), hr₁⟩
  obtain ⟨answer, r', hrun, rfl, hr'⟩ := hconvert
  exact ⟨r', by rw [convertIn, StateT.run, hrun]; rfl, hr'⟩

end Conversions

/-! ## Runs that are given a text -/

/-- What the number engine makes of a number under the options: the first of
them that is given, in the order fixed, exponential, precision, radix, decides. -/
def Options.rendering [Printer] (o : Options) (x : Binary64) : Except Fault String :=
  match o.fixed, o.exponential, o.precision, o.radix with
  | some d, _, _, _ => (x.toFixed d.toIntegerOrInfinity).mapError .digits
  | none, some d, _, _ => (x.toExponential (some d.toIntegerOrInfinity)).mapError .digits
  | none, none, some p, _ => (x.toPrecision (some p.toIntegerOrInfinity)).mapError .digits
  | none, none, none, some r => Builtin.radixText x r.toIntegerOrInfinity
  | none, none, none, none => .ok x.toText

/-- The engine refuses counts that are out of range, and nothing else. -/
theorem Options.kind_of_rendering [Printer] {o : Options} {x : Binary64} {f : Fault}
    (hf : o.rendering x = .error f) : f.kind = .rangeError := by
  have hdigits : ∀ {text : Except DigitsOutOfRange String},
      text.mapError Fault.digits = .error f → f.kind = .rangeError := by
    rintro (e | text) h <;> cases h
    rfl
  unfold rendering at hf
  split at hf
  · exact hdigits hf
  · exact hdigits hf
  · exact hdigits hf
  · unfold Builtin.radixText at hf
    split at hf
    · cases hf
    · cases hf
      rfl
  · cases hf

/-- Radix ten has the default text. -/
theorem radixText_ten [Printer] (x : Binary64) :
    Builtin.radixText x (Binary64.ofNat 10) = .ok x.toText := by
  have hrange : ((Binary64.ofNat 2).atMost (Binary64.ofNat 10)
      && (Binary64.ofNat 10).atMost (Binary64.ofNat 36)) = true := by decide +kernel
  have hten : (Binary64.ofNat 10).wholePart = 10 := by decide +kernel
  rw [Builtin.radixText, if_pos hrange, hten, Binary64.toRadix, if_pos (.inl rfl)]

/-- What the names of the five conversions lead to from a number. -/
theorem numberMember_conversions :
    numberMember "toFixed" = (Intrinsic.function .numberToFixed).toValue ∧
    numberMember "toExponential" = (Intrinsic.function .numberToExponential).toValue ∧
    numberMember "toPrecision" = (Intrinsic.function .numberToPrecision).toValue ∧
    numberMember "toString" = (Intrinsic.function .numberToString).toValue ∧
    numberMember "toLocaleString" = (Intrinsic.function .numberToLocaleString).toValue := by
  decide +kernel

/-- The method that the options select renders the number as the engine does. -/
theorem callMethod_settles_rendering [Printer] (o : Options) (x : Binary64) :
    (RealmM.callMethod (.number x) (MethodCall.ofOptions o).method
      (MethodCall.ofOptions o).arguments : RealmM Unit Completion).Settles runner
      ((o.rendering x).map Value.ofText) := by
  obtain ⟨hfixed, hexponential, hprecision, hstring, hlocale⟩ := numberMember_conversions
  have hcount : ∀ d : Binary64, ∀ v ∈ [Value.number d], v.handle? = none := by
    intro d v hv
    cases List.mem_singleton.mp hv
    rfl
  obtain ⟨value, eval, fixed, exponential, precision, radix, locale, strict⟩ := o
  match fixed, exponential, precision, radix with
  | some d, _, _, _ =>
    exact RealmM.callMethod_settles_of_method (by decide) hfixed
      (Builtin.numberFixed_settles x (hcount d))
  | none, some d, _, _ =>
    exact RealmM.callMethod_settles_of_method (by decide) hexponential
      (Builtin.numberExponential_settles x (hcount d))
  | none, none, some p, _ =>
    exact RealmM.callMethod_settles_of_method (by decide) hprecision
      (Builtin.numberPrecision_settles x (hcount p))
  | none, none, none, some r =>
    exact RealmM.callMethod_settles_of_method (by decide) hstring
      (Builtin.numberInRadix_settles x (hcount r))
  | none, none, none, none =>
  cases locale with
  | true =>
    exact RealmM.callMethod_settles_of_method (by decide) hlocale (Builtin.numberText_settles x)
  | false =>
    have hplain : (Builtin.numberInRadix (.number x) [] : ScriptM Unit Value).Settles
        (Behavior.run 15) ((Builtin.radixText x (Binary64.ofNat 10)).map Value.ofText) :=
      Builtin.numberInRadix_settles x nofun
    rw [radixText_ten] at hplain
    exact RealmM.callMethod_settles_of_method (by decide) hstring hplain

/-- What is printed for a rendering: the text on the output, or on the error
output that it is out of range. -/
def Outcome.ofRendering [Printer] : Except Fault String → Outcome
  | .ok text => ⟨0, text ++ "\n", ""⟩
  | .error f => ⟨1, "", "Uncaught RangeError: " ++ f.message ++ "\n"⟩

theorem ofConversion_rendering [Printer] {o : Options} {x : Binary64} :
    Outcome.ofConversion ((toldOf ((o.rendering x).map Value.ofText)).map Value.toText)
      = .ofRendering (o.rendering x) := by
  cases h : o.rendering x with
  | ok text =>
    show Outcome.ofConversion (.ok (Utf16.ofString text).toText) = _
    rw [Utf16.toText_ofString]
    rfl
  | error f =>
    show Outcome.mk 1 "" ("Uncaught " ++ f.kind.name ++ ": " ++ f.message ++ "\n") = _
    rw [Options.kind_of_rendering h]
    rfl

theorem convertOnce_eq [Printer] (o : Options) (text : String) :
    convertOnce o text = .ofRendering (o.rendering (Binary64.ofScriptText text)) := by
  obtain ⟨_, hconvert, -⟩ := convertIn_eq (primitiveOutcome_ofText _)
    (callMethod_settles_rendering o (Binary64.ofScriptText text))
    (Realm.Pristine.fresh o.strict ())
  rw [convertOnce, hconvert, ofConversion_rendering]

section

variable {parse : List String → Invocation} {arguments : List String} {o : Options} {text : String}

theorem run_eq_convertOnce [Printer] (hparse : parse arguments = .run o)
    (htext : (o.eval <|> o.value) = some text) (input : ByteArray) :
    run parse arguments input = some (convertOnce o text) := by
  have htext : o.text? = some text := htext
  simp only [run, hparse, htext]

/-- A run that is given a text, by `-e` or else as VALUE, prints what the number
engine renders for the number that the text reads as, or that it throws a
`RangeError`. Neither strictness nor the input has a say in it. However the arguments
are parsed, only what they mean counts. -/
theorem run_prints_rendering [Printer] (hparse : parse arguments = .run o)
    (htext : (o.eval <|> o.value) = some text) (input : ByteArray) :
    run parse arguments input = some (.ofRendering (o.rendering (Binary64.ofScriptText text))) ∧
    ∀ arguments' strict, parse arguments' = .run { o with strict := strict } →
      ∀ input', run parse arguments' input' = run parse arguments input := by
  have hrun := run_eq_convertOnce hparse htext input
  rw [convertOnce_eq] at hrun
  refine ⟨hrun, fun arguments' strict hparse' input' => ?_⟩
  rw [hrun, run_eq_convertOnce hparse' htext input', convertOnce_eq]
  rfl

end

/-- A precision for a text that comes before the VALUE. -/
def precisely : List String := ["7", "--precision=3", "-e", "0x3039"]

/-- What they mean, in strict code or not. -/
def precise (strict : Bool) : Options where
  value := some "7"
  eval := some "0x3039"
  precision := some (Binary64.ofNat 3)
  strict := strict

theorem run_prints_rendering_precisely :
    Invocation.parse precisely = .run (precise false) ∧
    Invocation.parse ("--strict" :: precisely) = .run (precise true) ∧
    (∀ input, run Invocation.parse precisely input = some ⟨0, "1.23e+4\n", ""⟩) ∧
    ∀ input, run Invocation.parse ("--strict" :: precisely) input
      = run Invocation.parse precisely ByteArray.empty := by
  have hparse : Invocation.parse precisely = .run (precise false) := by decide +kernel
  have hstrict : Invocation.parse ("--strict" :: precisely) = .run (precise true) := by
    decide +kernel
  refine ⟨hparse, hstrict, fun input => ?_, fun input => ?_⟩
  · exact (run_prints_rendering hparse rfl input).1.trans (by decide +kernel)
  · exact (run_prints_rendering hparse rfl ByteArray.empty).2 _ true hstrict input

end Console

end ScriptRealm
