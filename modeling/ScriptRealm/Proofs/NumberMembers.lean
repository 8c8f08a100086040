import ScriptRealm.Proofs.Pristine

/-!
# NumberMembers — what a script reaches from a number by name

A primitive number has no properties of its own. What a name leads to is a
property of its two prototypes, and those are intrinsic: in a pristine realm
every name leads to one of ten built-in functions (`numberMethods`) or to
nothing. Called on the number with primitive arguments, each of the ten
settles in a primitive or in an error (`Builtin.value_settles`), so calling
any method of a number does (`RealmM.callMethod_settles`). Those that render the
number settle in what the rendering itself gives.

A name that both prototypes have leads to the method of numbers, so the three
functions of objects that would answer or box an object are out of reach.
-/

namespace ScriptRealm

open Execution (Ends)

variable {σ : Type} {runner : Runner σ}

/-! ## What the names lead to -/

/-- The properties that a number sees through its prototypes, the nearest first. -/
def numberProperties : List (String × Descriptor) :=
  Intrinsic.prototypeProperties .number ++ Intrinsic.prototypeProperties .object

/-- The functions that a name can lead to from a number. -/
def numberMethods : List Builtin :=
  [.constructor .number, .numberToString, .numberToLocaleString, .numberValueOf, .numberToFixed,
    .numberToExponential, .numberToPrecision, .hasOwnProperty, .isPrototypeOf,
    .propertyIsEnumerable]

theorem function_mem_of_mem_numberMethods {f : Builtin} (hf : f ∈ numberMethods) :
    .function f ∈ Intrinsic.all := by
  revert f
  decide +kernel

/-- Every name leads to one of the methods or to nothing. -/
theorem find?_numberProperties {key : String} {d : Descriptor}
    (hd : Table.find? ⟨numberProperties⟩ key = some d) :
    ∃ f ∈ numberMethods, d = .hidden (Intrinsic.function f).toValue := by
  have hall : ∀ e ∈ numberProperties, Table.find? ⟨numberProperties⟩ e.1 = some e.2 →
      ∃ f ∈ numberMethods, e.2 = .hidden (Intrinsic.function f).toValue := by
    decide +kernel
  exact hall (key, d) (Table.mem_entries_of_find? hd) hd

/-- The object that boxes a number for an access. -/
abbrev numberBox (x : Binary64) (h : Handle) : Object (Behavior σ) :=
  { Object.wrapper (Intrinsic.prototype .number).handle (.number x) with id := h.id }

namespace Realm.Pristine

variable {r : Realm σ} {x : Binary64} {h : Handle}

/-- From the box of a number the search passes the box and its two prototypes. -/
theorem chain_numberBox (hr : r.Pristine) (hbox : r.arena.get? h = some (numberBox x h)) :
    r.arena.chain h
      = [h, (Intrinsic.prototype .number).handle, (Intrinsic.prototype .object).handle] := by
  have hnumber := hr.intrinsics _ (Intrinsic.prototype_mem .number)
  have hobject := hr.intrinsics _ (Intrinsic.prototype_mem .object)
  exact (Arena.Ancestry.step hbox rfl (.step hnumber rfl (.root hobject rfl))).chain_eq

/-- The box of a number has no properties of its own. -/
theorem getOwn_numberBox (hbox : r.arena.get? h = some (numberBox x h)) (key : String) :
    r.arena.getOwn h key = none := by
  rw [Arena.getOwn, hbox]
  rfl

theorem getOwn_prototype (hr : r.Pristine) {family : Family}
    (hstring : family ≠ .string) (key : String) :
    r.arena.getOwn (Intrinsic.prototype family).handle key
      = Table.find? ⟨Intrinsic.prototypeProperties family⟩ key := by
  have hplain :
      (Intrinsic.placed (.prototype family) : Object (Behavior σ)).stringData? = none := by
    cases family <;> first | rfl | exact absurd rfl hstring
  rw [Arena.getOwn, hr.intrinsics _ (Intrinsic.prototype_mem family), Option.bind_some,
    Object.getOwn, hplain]
  exact Option.orElse_eq_or.trans Option.or_none

/-- What the search from the box of a number finds. -/
theorem find?_numberBox (hr : r.Pristine) (hbox : r.arena.get? h = some (numberBox x h))
    (key : String) : r.arena.find? h key = Table.find? ⟨numberProperties⟩ key := by
  have hnumber := hr.getOwn_prototype (show Family.number ≠ .string by decide) key
  have hobject := hr.getOwn_prototype (show Family.object ≠ .string by decide) key
  rw [Arena.find?, hr.chain_numberBox hbox]
  simp only [List.findSome?_cons, getOwn_numberBox hbox, hnumber, hobject, List.findSome?_nil]
  simp only [Table.find?, numberProperties, List.lookup_append]
  cases (Intrinsic.prototypeProperties .number).lookup key <;>
    cases (Intrinsic.prototypeProperties .object).lookup key <;> rfl

end Realm.Pristine

/-! ## Conversions of primitives -/

namespace ScriptM

variable {v : Value}

theorem toPrimitive_settles [Printer] (hv : v.handle? = none) (hint : Hint) :
    (toPrimitive v hint : ScriptM σ Value).Settles runner (.ok v) := by
  unfold toPrimitive
  rw [hv]
  exact settles_pure v

theorem toNumber_settles [Printer] (hv : v.handle? = none) :
    (toNumber v : ScriptM σ Binary64).Settles runner (.ok v.toNumber) :=
  (toPrimitive_settles hv .number).map

theorem toText_settles [Printer] (hv : v.handle? = none) :
    (toText v : ScriptM σ String).Settles runner (.ok v.toText) :=
  (toPrimitive_settles hv .string).map

theorem toInteger_settles [Printer] (hv : v.handle? = none) :
    (toInteger v : ScriptM σ Binary64).Settles runner (.ok v.toNumber.toIntegerOrInfinity) :=
  (toNumber_settles hv).map

end ScriptM

theorem handle?_argument {args : List Value} (hargs : ∀ v ∈ args, v.handle? = none)
    (place : Nat) : (argument args place).handle? = none := by
  unfold argument
  cases hv : args[place]? with
  | none => rfl
  | some v => exact hargs v (List.mem_of_getElem? hv)

/-! ## The ten functions -/

/-- The outcome is an error or a primitive. -/
def PrimitiveOutcome (e : Except Fault Value) : Prop := ∀ v, e = .ok v → v.handle? = none

theorem primitiveOutcome_ofText (text : Except Fault String) :
    PrimitiveOutcome (text.map Value.ofText) := by
  cases text with
  | error f => exact nofun
  | ok text =>
    rintro _ ⟨⟩
    rfl

/-- The computation settles in an error or a primitive. -/
def ScriptM.SettlesInPrimitive [Printer] (runner : Runner σ) (m : ScriptM σ Value) : Prop :=
  ∃ e, PrimitiveOutcome e ∧ m.Settles runner e

/-- The computation settles in an error or a primitive. -/
def RealmM.SettlesInPrimitive [Printer] (runner : Runner σ) (m : RealmM σ Completion) : Prop :=
  ∃ e, PrimitiveOutcome e ∧ m.Settles runner e

namespace ScriptM

theorem Settles.inPrimitive [Printer] {m : ScriptM σ Value} {v : Value}
    (hm : m.Settles runner (.ok v)) (hv : v.handle? = none) : m.SettlesInPrimitive runner := by
  refine ⟨.ok v, ?_, hm⟩
  rintro _ ⟨⟩
  exact hv

theorem Settles.textInPrimitive [Printer] {m : ScriptM σ Value} {text : Except Fault String}
    (hm : m.Settles runner (text.map Value.ofText)) : m.SettlesInPrimitive runner :=
  ⟨_, primitiveOutcome_ofText text, hm⟩

end ScriptM

namespace Builtin

open ScriptM (settles_pure)

variable {args : List Value}

theorem numberReceiver_settles [Printer] (x : Binary64) (method : String) :
    (numberReceiver (.number x) method : ScriptM σ Binary64).Settles runner (.ok x) :=
  ScriptM.settles_realm fun _ _ => settles_pure x

/-- The count that a primitive argument stands for, if it is given. -/
def count? (v : Value) : Option Binary64 :=
  if v.isUndefined then none else some v.toNumber.toIntegerOrInfinity

theorem optionalInteger_settles [Printer] {v : Value} (hv : v.handle? = none) :
    (optionalInteger v : ScriptM σ (Option Binary64)).Settles runner (.ok (count? v)) := by
  unfold optionalInteger count?
  split
  · exact settles_pure none
  · exact (ScriptM.toInteger_settles hv).map

theorem rendered_settles [Printer] (text : Except DigitsOutOfRange String) :
    (rendered text : ScriptM σ Value).Settles runner
      ((text.mapError Fault.digits).map Value.ofText) := by
  cases text with
  | ok text => exact settles_pure (Value.ofText text)
  | error e => exact ScriptM.raise_settles (.digits e)

/-- Called as a function, `Number` answers a primitive: no `new.target` is set. -/
theorem makeNumber_settles [Printer] (hargs : ∀ v ∈ args, v.handle? = none) :
    (makeNumber args : ScriptM σ Value).Settles runner
      (.ok (.number (args.head?.elim Binary64.zero Value.toNumber))) := by
  have hbox : ∀ x : Binary64,
      (boxIfConstructing (.number x) : ScriptM σ Value).Settles runner (.ok (.number x)) := by
    intro x
    refine ScriptM.settles_realm fun r hr => ?_
    rw [hr.newTarget]
    exact settles_pure _
  cases args with
  | nil => exact (settles_pure Binary64.zero).bind (hbox _)
  | cons v rest => exact (ScriptM.toNumber_settles (hargs v List.mem_cons_self)).bind (hbox _)

/-- A number has no properties of its own, whatever key is asked for. -/
theorem ownPropertyTest_settles [Printer] (x : Binary64) (hargs : ∀ v ∈ args, v.handle? = none)
    (test : Option Descriptor → Bool) :
    (ownPropertyTest (.number x) args test : ScriptM σ Value).Settles runner
      (.ok (.boolean (test none))) := by
  refine (ScriptM.toText_settles (handle?_argument hargs 0)).bind (.bind ?_ (settles_pure _))
  refine ScriptM.autoboxed_settles (.number x) fun r h hr hbox => ?_
  rw [← Realm.Pristine.getOwn_numberBox hbox]
  rfl

theorem isPrototypeTest_settles [Printer] (this : Value) (hargs : ∀ v ∈ args, v.handle? = none) :
    (isPrototypeTest this args : ScriptM σ Value).Settles runner (.ok (.boolean false)) := by
  have hv := handle?_argument hargs 0
  unfold isPrototypeTest
  split
  · rename_i h heq
    rw [heq] at hv
    cases hv
  · exact settles_pure _

/-- The text of a number in the radix that a count stands for, which has to be
from 2 to 36. -/
def radixText [Printer] (x count : Binary64) : Except Fault String :=
  if (Binary64.ofNat 2).atMost count && count.atMost (Binary64.ofNat 36) then
    .ok (x.toRadix count.wholePart)
  else .error .radix

theorem numberInRadix_settles [Printer] (x : Binary64) (hargs : ∀ v ∈ args, v.handle? = none) :
    (numberInRadix (.number x) args : ScriptM σ Value).Settles runner
      ((radixText x ((count? (argument args 0)).getD (Binary64.ofNat 10))).map Value.ofText) := by
  unfold numberInRadix
  -- Which radix is the default does not matter, and comparing must not compute it.
  generalize Binary64.ofNat 10 = ten
  refine (numberReceiver_settles x "toString").bind
    ((optionalInteger_settles (handle?_argument hargs 0)).bind ?_)
  generalize (count? (argument args 0)).getD ten = count
  unfold radixCount? radixText
  cases (Binary64.ofNat 2).atMost count && count.atMost (Binary64.ofNat 36) with
  | true => exact settles_pure (Value.ofText _)
  | false => exact ScriptM.raise_settles .radix

theorem numberText_settles [Printer] (x : Binary64) :
    (numberText (.number x) : ScriptM σ Value).Settles runner
      ((Except.ok x.toText : Except Fault String).map Value.ofText) :=
  (numberReceiver_settles x "toLocaleString").bind (settles_pure (Value.ofText x.toText))

theorem numberFixed_settles [Printer] (x : Binary64) (hargs : ∀ v ∈ args, v.handle? = none) :
    (numberFixed (.number x) args : ScriptM σ Value).Settles runner
      (((x.toFixed (argument args 0).toNumber.toIntegerOrInfinity).mapError Fault.digits).map
        Value.ofText) :=
  (numberReceiver_settles x "toFixed").bind
    ((ScriptM.toInteger_settles (handle?_argument hargs 0)).bind (rendered_settles _))

theorem numberExponential_settles [Printer] (x : Binary64) (hargs : ∀ v ∈ args, v.handle? = none) :
    (numberExponential (.number x) args : ScriptM σ Value).Settles runner
      (((x.toExponential (count? (argument args 0))).mapError Fault.digits).map Value.ofText) :=
  (numberReceiver_settles x "toExponential").bind
    ((optionalInteger_settles (handle?_argument hargs 0)).bind (rendered_settles _))

theorem numberPrecision_settles [Printer] (x : Binary64) (hargs : ∀ v ∈ args, v.handle? = none) :
    (numberPrecision (.number x) args : ScriptM σ Value).Settles runner
      (((x.toPrecision (count? (argument args 0))).mapError Fault.digits).map Value.ofText) :=
  (numberReceiver_settles x "toPrecision").bind
    ((optionalInteger_settles (handle?_argument hargs 0)).bind (rendered_settles _))

/-- Each of the ten, called on a number with primitive arguments. -/
theorem value_settles [Printer] {f : Builtin} (hf : f ∈ numberMethods) (x : Binary64)
    (hargs : ∀ v ∈ args, v.handle? = none) :
    (f.value (.number x) args : ScriptM σ Value).SettlesInPrimitive runner := by
  simp only [numberMethods, List.mem_cons, List.not_mem_nil, or_false] at hf
  rcases hf with rfl | rfl | rfl | rfl | rfl | rfl | rfl | rfl | rfl | rfl
  · exact (makeNumber_settles hargs).inPrimitive rfl
  · exact (numberInRadix_settles x hargs).textInPrimitive
  · exact (numberText_settles x).textInPrimitive
  · exact ((numberReceiver_settles x "valueOf").bind
      (settles_pure (Value.number x))).inPrimitive rfl
  · exact (numberFixed_settles x hargs).textInPrimitive
  · exact (numberExponential_settles x hargs).textInPrimitive
  · exact (numberPrecision_settles x hargs).textInPrimitive
  · exact (ownPropertyTest_settles x hargs _).inPrimitive rfl
  · exact (isPrototypeTest_settles _ hargs).inPrimitive rfl
  · exact (ownPropertyTest_settles x hargs _).inPrimitive rfl

/-- The methods of a number answer or throw; none is called again with other
arguments, as `Function.prototype.call` is. -/
theorem perform_settles [Printer] {f : Builtin} (hf : f ∈ numberMethods) {this : Value}
    {e : Except Fault Value} (hvalue : (f.value this args : ScriptM σ Value).Settles runner e) :
    (f.perform this args : RealmM σ Completion).Settles runner e := by
  have hperform : (f.perform this args : RealmM σ Completion) = (f.value this args).complete := by
    cases f with
    | functionCall => exact absurd hf (by decide)
    | _ => rfl
  exact hperform ▸ hvalue.complete

end Builtin

/-! ## Calling a method -/

/-- The value that a name leads to from a number. -/
def numberMember (name : String) : Value :=
  (Table.find? ⟨numberProperties⟩ name).elim .undefined (·.value.getD .undefined)

theorem numberMember_cases (name : String) :
    numberMember name = .undefined
      ∨ ∃ f ∈ numberMethods, numberMember name = (Intrinsic.function f).toValue := by
  unfold numberMember
  cases hd : Table.find? ⟨numberProperties⟩ name with
  | none => exact .inl rfl
  | some d =>
    obtain ⟨f, hf, rfl⟩ := find?_numberProperties hd
    exact .inr ⟨f, hf, rfl⟩

theorem ScriptM.getValue_settles [Printer] (x : Binary64) (name : String) (strict : Bool) :
    (getValue (.property (.number x) name strict) : ScriptM σ Value).Settles runner
      (.ok (numberMember name)) := by
  refine autoboxed_settles (.number x) fun r h hr hbox => ?_
  have hfind := hr.find?_numberBox hbox name
  rw [getProperty, run_realm_bind, hfind, numberMember]
  cases hd : Table.find? ⟨numberProperties⟩ name with
  | none => rfl
  | some d =>
    obtain ⟨f, -, rfl⟩ := find?_numberProperties hd
    rfl

namespace RealmM

/-- A method call settles as what is done with the value that the name leads to. -/
theorem callMethod_settles_of_member [Printer] {x : Binary64} {name : String} {args : List Value}
    {e : Except Fault Value} (hrest : ∀ r : Realm σ, r.Pristine →
      Ends ((if r.isCallable (numberMember name) then call (numberMember name) (.number x) args
        else throwing (.notMethod .number name) : RealmM σ Completion).run runner)
        (fun c r' => r'.Pristine ∧ r'.Shows c.result e) r) :
    (callMethod (.number x) name args : RealmM σ Completion).Settles runner e := by
  intro r hr
  refine ends_get (ends_bind ((ScriptM.getValue_settles x name _ r hr).mono ?_))
  rintro (thrown | method) r' ⟨hr', hshows⟩
  · exact hshows.elim
  · cases hshows
    exact ends_get (hrest r' hr')

/-- Calling one of the ten methods by its name settles as the method does. -/
theorem callMethod_settles_of_method [Printer] {allowance : Nat} {x : Binary64} {name : String}
    {args : List Value} {f : Builtin} (hf : f ∈ numberMethods)
    (hmember : numberMember name = (Intrinsic.function f).toValue) {e : Except Fault Value}
    (hvalue : (f.value (.number x) args : ScriptM σ Value).Settles (Behavior.run allowance) e) :
    (callMethod (.number x) name args : RealmM σ Completion).Settles
      (Behavior.run (allowance + 1)) e := by
  have hmem := function_mem_of_mem_numberMethods hf
  refine callMethod_settles_of_member fun r hr => ?_
  rw [hmember, Realm.isCallable, hr.callable? hmem]
  exact call_settles hmem (Builtin.perform_settles hf hvalue) r hr

/-- Calling any method of a number with primitive arguments settles in an error
or a primitive. -/
theorem callMethod_settles [Printer] (allowance : Nat) (x : Binary64) (name : String)
    {args : List Value} (hargs : ∀ v ∈ args, v.handle? = none) :
    (callMethod (.number x) name args : RealmM σ Completion).SettlesInPrimitive
      (Behavior.run (allowance + 1)) := by
  rcases numberMember_cases name with hmember | ⟨f, hf, hmember⟩
  · refine ⟨.error (.notMethod .number name), nofun, ?_⟩
    refine callMethod_settles_of_member fun r hr => ?_
    rw [hmember]
    exact throwing_settles _ r hr
  · obtain ⟨e, he, hvalue⟩ : (f.value (.number x) args : ScriptM σ Value).SettlesInPrimitive
        (Behavior.run allowance) := Builtin.value_settles hf x hargs
    exact ⟨e, he, callMethod_settles_of_method hf hmember hvalue⟩

end RealmM

end ScriptRealm
