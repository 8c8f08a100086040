import ScriptRealm.Proofs.Bookkeeping
import ScriptRealm.Proofs.InternalSlots
import ScriptRealm.Proofs.LooseEquality
import ScriptRealm.Proofs.Utf16

/-!
# Boxing — a wrapper converts as its primitive does

A conversion of an object goes by its methods, and those of a new wrapper are found on
the prototype of its kind. As long as that owns the methods that it began with
(`Realm.Installed`), the methods answer the primitive in the wrapper, or its text, and
change nothing (`Realm.Converting`). So a wrapper gives every conversion and loose
equality what the primitive gives (`Realm.Transparent`), though the way there is another.

`Program.boxing_transparent` says so at every moment of every program, whatever else
has been done to the realm.
-/

namespace ScriptRealm

variable {σ α : Type} {runner : Runner σ} {r : Realm σ}

/-! ## Methods that answer and change nothing -/

/-- A data property that is found is read. -/
theorem ScriptM.run_getProperty [Printer] {o : Handle} {key : String} {d : Descriptor} {v : Value}
    (hfind : r.arena.find? o key = some d) (hdata : d.isAccessor = false)
    (hvalue : d.value = some v) (receiver : Value) :
    (getProperty o key receiver).attempt.run runner r = some (.ok v, r) := by
  show (realm >>= _).attempt.run runner r = _
  rw [run_realm_bind]
  simp only [hfind, hdata, hvalue]
  rfl

/-- A function that answers a value and changes nothing is called for that value. -/
theorem ScriptM.run_callForValue [Printer] {f this v : Value} {args : List Value}
    {c : Callable (Behavior σ)} (hcallable : r.callable? f = some c)
    (hrun : runner c.behavior this args { r with newTarget := none }
      = some (.normal v, { r with newTarget := none })) :
    (callForValue f this args).attempt.run runner r = some (.ok v, r) := by
  show (Completion.result <$> RealmM.call f this args).run runner r = _
  rw [RealmM.run_map, RealmM.run_call hcallable, hrun]
  rfl

/-- The first conversion method decides when it answers a primitive. -/
theorem ScriptM.run_convertBy [Printer] {o : Handle} {name : String} {method v : Value}
    {c : Callable (Behavior σ)}
    (hmethod : (getProperty o name (.object o)).attempt.run runner r = some (.ok method, r))
    (hcallable : r.callable? method = some c)
    (hcall : (callForValue method (.object o) []).attempt.run runner r = some (.ok v, r))
    (hv : v.isObject = false) (others : List String) :
    (convertBy o (name :: others)).attempt.run runner r = some (.ok v, r) := by
  have hisCallable : r.isCallable method = true := Option.isSome_of_eq_some hcallable
  rw [convertBy, run_bind_of_ok hmethod, run_realm_bind, hisCallable, if_pos rfl,
    run_bind_of_ok hcall, hv]
  rfl

/-! ## The methods of wrappers -/

namespace Boxed

/-- The value that the built-in `toString` answers for a wrapper of the primitive. -/
def text [Printer] : Boxed → Value
  | string s => .string s
  | p => .ofText p.toValue.toText

/-- The built-in function that answers it. -/
def toStringOf : Boxed → Builtin
  | boolean _ => .booleanToString
  | number _ => .numberToString
  | string _ => .stringToString

@[simp] theorem isObject_toValue (p : Boxed) : p.toValue.isObject = false := by
  cases p <;> rfl

@[simp] theorem handle?_toValue (p : Boxed) : p.toValue.handle? = none := by
  cases p <;> rfl

theorem isObject_text [Printer] (p : Boxed) : p.text.isObject = false := by
  cases p <;> rfl

/-- It is the text of the primitive. -/
theorem toText_text [Printer] (p : Boxed) : p.text.toText = p.toValue.toText := by
  cases p with
  | string s => rfl
  | boolean b => exact Utf16.toText_ofString _
  | number x => exact Utf16.toText_ofString _

end Boxed

namespace Builtin

theorem radixCount?_ten : radixCount? (Binary64.ofNat 10) = some 10 := by
  decide +kernel

theorem run_toStringOf [Printer] {h : Handle} {p : Boxed} (hboxed : r.boxed? (.object h) = some p)
    (n : Nat) :
    Behavior.run (n + 1) (.builtin p.toStringOf) (.object h) [] r
      = some (.normal p.text, r) := by
  cases p with
  | boolean b =>
    have hreceiver : (booleanReceiver (.object h) "toString" : ScriptM σ Bool).attempt.run
        (Behavior.run n) r = some (.ok b, r) := by
      rw [booleanReceiver, ScriptM.run_realm_bind, hboxed]
      rfl
    exact ScriptM.run_complete_iff.mpr (ScriptM.run_bind_of_ok hreceiver _)
  | number x =>
    have hreceiver : (numberReceiver (.object h) "toString" : ScriptM σ Binary64).attempt.run
        (Behavior.run n) r = some (.ok x, r) := by
      rw [numberReceiver, ScriptM.run_realm_bind, hboxed]
      rfl
    have hradix : (optionalInteger (argument [] 0) : ScriptM σ (Option Binary64)).attempt.run
        (Behavior.run n) r = some (.ok none, r) := rfl
    refine ScriptM.run_complete_iff.mpr ((ScriptM.run_bind_of_ok hreceiver _).trans ?_)
    rw [ScriptM.run_bind_of_ok hradix, Option.getD_none, radixCount?_ten]
    have hten : x.toRadix 10 = x.toText := by rw [Binary64.toRadix, if_pos (.inl rfl)]
    show some (Except.ok (Value.ofText (x.toRadix 10)), r) = _
    rw [hten]
    rfl
  | string s =>
    have hreceiver : (stringReceiver (.object h) "toString" : ScriptM σ Value).attempt.run
        (Behavior.run n) r = some (.ok (.string s), r) := by
      rw [stringReceiver, ScriptM.run_realm_bind, hboxed]
      rfl
    exact ScriptM.run_complete_iff.mpr hreceiver

end Builtin

/-! ## New wrappers -/

/-- A primitive is boxed by a new wrapper. -/
theorem ScriptM.toObject_toValue [Printer] (p : Boxed) :
    (toObject p.toValue : ScriptM σ Handle) = lift (RealmM.newWrapper p) := by
  cases p <;> rfl

namespace Realm

/-- The realm with the primitive in a wrapper. -/
def withBox (r : Realm σ) (p : Boxed) : Realm σ :=
  { r with arena := (r.arena.allocate (.wrapper (RealmM.wrapperPrototype p).handle p)).2 }

theorem gains_withBox (wf : r.arena.WellFormed) (p : Boxed) :
    r.Gains (.wrapper (RealmM.wrapperPrototype p).handle p) r.arena.upcoming (r.withBox p) :=
  gains_allocate wf _

end Realm

theorem RealmM.run_newWrapper (p : Boxed) (r : Realm σ) :
    (newWrapper p).run runner r = some (r.arena.upcoming, r.withBox p) := by
  rw [← Arena.allocate_fst r.arena (.wrapper (wrapperPrototype p).handle p)]
  rfl

/-- Boxing needs no function to be run. -/
theorem ScriptM.run_toObject [Printer] (p : Boxed) :
    (toObject p.toValue).attempt.run runner r = some (.ok r.arena.upcoming, r.withBox p) := by
  rw [toObject_toValue, run_lift, RealmM.run_newWrapper]
  rfl

namespace Builtin

/-- Called, a constructor of wrappers answers the primitive. -/
theorem run_boxIfConstructing_none (hnone : r.newTarget = none) (p : Boxed) :
    (boxIfConstructing p).attempt.run runner r = some (.ok p.toValue, r) := by
  rw [boxIfConstructing, ScriptM.run_realm_bind, hnone]
  rfl

/-- Used to construct, it answers a wrapper. -/
theorem run_boxIfConstructing_some {f : Value} (hsome : r.newTarget = some f) (p : Boxed) :
    (boxIfConstructing p).attempt.run runner r
      = some (.ok (.object r.arena.upcoming), r.withBox p) := by
  rw [boxIfConstructing, ScriptM.run_realm_bind, hsome]
  show (Value.object <$> ScriptM.lift (RealmM.newWrapper p)).attempt.run runner r = _
  rw [ScriptM.run_map, ScriptM.run_lift, RealmM.run_newWrapper]
  rfl

end Builtin

/-! ## Where the methods are found -/

/-- What an object lacks is found on its prototype, if that has it. -/
theorem Arena.find?_of_prototype {β : Type} {a : Arena β} {h p : Handle} {o : Object β}
    {key : String} {d : Descriptor} (ho : a.get? h = some o) (hmissing : o.getOwn key = none)
    (hlink : o.prototype = some p) (hne : h ≠ p) (hown : a.getOwn p key = some d) :
    a.find? h key = some d := by
  obtain ⟨up, hup, -⟩ := Option.bind_eq_some_iff.mp hown
  -- the search is long enough to come to the prototype
  obtain ⟨n, hn⟩ : ∃ n, a.slots.size = n + 2 := by
    have hlt := lt_size_of_get? ho
    have hlt' := lt_size_of_get? hup
    have hids : h.id ≠ p.id := fun hid => hne (congrArg Handle.mk hid)
    exact ⟨a.slots.size - 2, by omega⟩
  rw [find?, chain, hn]
  simp only [chainUpTo, ho, hlink, hup, List.findSome?_cons, getOwn_of_get? ho, hmissing, hown]

/-- The property that the primitive makes up in a wrapper. -/
def Boxed.madeUp? (p : Boxed) (key : String) : Option Descriptor :=
  match p with
  | string s => Object.unitProperty? s key
  | boolean _ | number _ => none

/-- A new wrapper has no other properties. -/
theorem Object.getOwn_wrapper {β : Type} (up : Handle) (p : Boxed) (n : Nat) (key : String) :
    ({ wrapper up p with id := n } : Object β).getOwn key = p.madeUp? key := by
  cases p <;> rfl

/-- The methods by which the wrapper of a primitive converts. -/
def Boxed.conversions (p : Boxed) : List Builtin := [p.valueOf, p.toStringOf]

namespace Boxed

variable {p : Boxed} {f : Builtin}

theorem name_conversions (p : Boxed) :
    ∀ f ∈ p.conversions, f.name ≠ "length" ∧ Object.keyIndex? f.name = none := by
  cases p <;> simp only [conversions, Boxed.valueOf, toStringOf] <;> decide

theorem mem_methods_conversions (p : Boxed) : ∀ f ∈ p.conversions, f ∈ Builtin.methods := by
  cases p <;> simp only [conversions, Boxed.valueOf, toStringOf] <;> decide

/-- The prototype of wrappers begins with the methods. -/
theorem getOwn_placed_conversions (p : Boxed) : ∀ f ∈ p.conversions,
    ((RealmM.wrapperPrototype p).placed : Object (Behavior Unit)).getOwn f.name
      = some (.hidden (Intrinsic.function f).toValue) := by
  cases p <;> simp only [conversions, Boxed.valueOf, toStringOf, RealmM.wrapperPrototype] <;>
    decide +kernel

theorem madeUp?_conversions (hf : f ∈ p.conversions) : p.madeUp? f.name = none := by
  obtain ⟨hlength, hindex⟩ := p.name_conversions f hf
  cases p with
  | boolean | number => rfl
  | string s => simp [madeUp?, Object.unitProperty?, hlength, hindex]

theorem function_mem_conversions (hf : f ∈ p.conversions) : .function f ∈ Intrinsic.all := by
  apply Intrinsic.function_mem
  exact p.mem_methods_conversions f hf

end Boxed

namespace Realm

/-- The prototypes of wrappers own the conversion methods that they began with. -/
def Installed (r : Realm σ) : Prop :=
  ∀ (p : Boxed), ∀ f ∈ p.conversions, ∃ d,
    r.arena.getOwn (RealmM.wrapperPrototype p).handle f.name = some d
      ∧ d.isAccessor = false ∧ d.value = some (Intrinsic.function f).toValue

/-- The object wraps the primitive, and converts by the methods that a realm begins
with. -/
structure Converting (r : Realm σ) (w : Handle) (p : Boxed) : Prop where
  boxed : r.boxed? (.object w) = some p
  found : ∀ f ∈ p.conversions, ∃ d, r.arena.find? w f.name = some d ∧ d.isAccessor = false
    ∧ d.value = some (Intrinsic.function f).toValue
  callable : ∀ f ∈ p.conversions,
    r.callable? (Intrinsic.function f).toValue = some f.callable

variable {w : Handle} {p : Boxed} {r' : Realm σ}

/-- A function that was there can be called as before. -/
theorem Gains.callable? {o : Object (Behavior σ)} {h : Handle} (hgains : r.Gains o h r')
    {f : Value} {c : Callable (Behavior σ)} (hcallable : r.callable? f = some c) :
    r'.callable? f = some c := by
  obtain ⟨g, hg, hfunction⟩ := Option.bind_eq_some_iff.mp hcallable
  obtain ⟨o, ho, hfunction⟩ := Option.bind_eq_some_iff.mp hfunction
  rw [Realm.callable?, hg, Option.bind_some, Arena.callable?, hgains.kept ho, Option.bind_some,
    hfunction]

/-- A new wrapper does where the methods are in place. -/
theorem Gains.converting
    (hgains : r.Gains (.wrapper (RealmM.wrapperPrototype p).handle p) w r')
    (hinstalled : r.Installed)
    (hcallable : ∀ f ∈ p.conversions, r.callable? (Intrinsic.function f).toValue
      = some f.callable) : r'.Converting w p where
  boxed := by
    rw [boxed?, hgains.object]
    simp [Object.wrapper]
  found f hf := by
    obtain ⟨d, hown, hdata, hvalue⟩ := hinstalled p f hf
    obtain ⟨up, hup, hown⟩ := Option.bind_eq_some_iff.mp hown
    have hne := hgains.ne (Option.isSome_of_eq_some hup)
    refine ⟨d, ?_, hdata, hvalue⟩
    refine Arena.find?_of_prototype hgains.object ?_ rfl hne.symm ?_
    · rw [Object.getOwn_wrapper, Boxed.madeUp?_conversions hf]
    · rw [Arena.getOwn_of_get? (hgains.kept hup), hown]
  callable f hf := hgains.callable? (hcallable f hf)

namespace Converting

/-- A conversion method answers at once when it is the first. -/
theorem run_convertBy [Printer] (h : r.Converting w p) {f : Builtin} (hf : f ∈ p.conversions)
    {n : Nat} {v : Value} (hv : v.isObject = false)
    (hrun : ∀ r₁ : Realm σ, r₁.boxed? (.object w) = some p →
      Behavior.run (n + 1) (.builtin f) (.object w) [] r₁ = some (.normal v, r₁))
    (others : List String) :
    (ScriptM.convertBy w (f.name :: others)).attempt.run (Behavior.run (n + 1)) r
      = some (.ok v, r) := by
  obtain ⟨d, hfind, hdata, hvalue⟩ := h.found f hf
  exact ScriptM.run_convertBy (ScriptM.run_getProperty hfind hdata hvalue _) (h.callable f hf)
    (ScriptM.run_callForValue (h.callable f hf) (hrun _ h.boxed)) hv others

theorem run_toPrimitive [Printer] (h : r.Converting w p) {hint : Hint} (hhint : hint ≠ .string)
    (n : Nat) :
    (ScriptM.toPrimitive (.object w) hint).attempt.run (Behavior.run (n + 1)) r
      = some (.ok p.toValue, r) := by
  have hfirst := h.run_convertBy (f := p.valueOf) List.mem_cons_self p.isObject_toValue
    (fun _ hboxed => Builtin.run_valueOf hboxed [] n) ["toString"]
  have hname : p.valueOf.name = "valueOf" := by cases p <;> rfl
  rw [hname] at hfirst
  cases hint with
  | string => exact absurd rfl hhint
  | number | unspecified => exact hfirst

theorem run_toPrimitive_string [Printer] (h : r.Converting w p) (n : Nat) :
    (ScriptM.toPrimitive (.object w) .string).attempt.run (Behavior.run (n + 1)) r
      = some (.ok p.text, r) := by
  have hfirst := h.run_convertBy (f := p.toStringOf) (.tail _ (.head _)) p.isObject_text
    (fun _ hboxed => Builtin.run_toStringOf hboxed n) ["valueOf"]
  have hname : p.toStringOf.name = "toString" := by cases p <;> rfl
  rw [hname] at hfirst
  exact hfirst

end Converting

/-! ## Transparency -/

/-- With any allowance of nested calls that there is, the realm answers the request so
and is left as it was. -/
def Answers [Printer] (r : Realm σ) (q : Request) (a : q.Answer) : Prop :=
  ∀ n, q.perform.run (Behavior.run (n + 1)) r = some (a, r)

/-- A function that ends so whatever it is allowed, and changes nothing, is the answer to
its call. -/
theorem answers_call [Printer] {f this : Value} {args : List Value} {c : Callable (Behavior σ)}
    {ended : Completion} (hcallable : r.callable? f = some c)
    (hrun : ∀ n, Behavior.run (n + 1) c.behavior this args { r with newTarget := none }
      = some (ended, { r with newTarget := none })) : r.Answers (.call f this args) ended := by
  intro n
  exact (RealmM.run_call hcallable this args).trans (by rw [hrun n]; rfl)

/-- All conversions of the object, and loose equality, are answered as those of the
primitive. -/
structure Transparent [Printer] (r : Realm σ) (w : Handle) (p : Boxed) : Prop where
  toNumber : r.Answers (.toNumber (.object w)) (.ok p.toValue.toNumber)
  negate : ∃ a, r.Answers (.negate p.toValue) a ∧ r.Answers (.negate (.object w)) a
  toText : r.Answers (.toText (.object w)) (.ok p.toValue.toText)
  toPrimitive : ∀ hint, hint ≠ .string → r.Answers (.toPrimitive (.object w) hint) (.ok p.toValue)
  equalLeft : ∀ q, q.isObject = false → ∃ a, r.Answers (.looselyEquals p.toValue q) a
    ∧ r.Answers (.looselyEquals (.object w) q) a
  equalRight : ∀ q, q.isObject = false → ∃ a, r.Answers (.looselyEquals q p.toValue) a
    ∧ r.Answers (.looselyEquals q (.object w)) a
  toObject : r.Answers (.toObject (.object w)) (.ok w)

/-- A primitive is compared with a primitive at once. -/
theorem answers_loosePrimitives [Printer] {a b : Value} (ha : a.isObject = false)
    (hb : b.isObject = false) :
    r.Answers (.looselyEquals a b) (.ok (ScriptM.loosePrimitives a b)) := by
  intro n
  cases a with
  | object h => cases ha
  | undefined | null | boolean | number | string =>
    cases b with
    | object h => cases hb
    | undefined | null | boolean | number | string => rfl

/-- The sides of a comparison may be exchanged. -/
theorem Answers.looselyEquals_symm [Printer] {a b : Value} {answer : Except Value Bool}
    (h : r.Answers (.looselyEquals a b) answer) : r.Answers (.looselyEquals b a) answer := by
  intro n
  show (ScriptM.looselyEquals b a).attempt.run _ r = _
  rw [ScriptM.looselyEquals_comm]
  exact h n

namespace Converting

/-- A wrapper is compared with a primitive as its own primitive is. -/
theorem answers_looselyEquals [Printer] (h : r.Converting w p) {q : Value}
    (hq : q.isObject = false) :
    r.Answers (.looselyEquals (.object w) q) (.ok (ScriptM.loosePrimitives p.toValue q)) := by
  intro n
  have hconverted : (do pure (ScriptM.loosePrimitives
        (← ScriptM.toPrimitive (.object w) .unspecified) q) : ScriptM σ Bool).attempt.run
        (Behavior.run (n + 1)) r = some (.ok (ScriptM.loosePrimitives p.toValue q), r) := by
    rw [ScriptM.run_bind_of_ok (h.run_toPrimitive (by decide) n)]
    rfl
  cases q with
  | object g => cases hq
  | undefined | null => cases p <;> rfl
  | boolean | number | string => exact hconverted

theorem transparent [Printer] (h : r.Converting w p) : r.Transparent w p where
  toNumber n := by
    show (ScriptM.toNumber (.object w)).attempt.run _ r = _
    rw [ScriptM.toNumber, ScriptM.run_map, h.run_toPrimitive (by decide)]
    rfl
  negate := by
    refine ⟨.ok (.number p.toValue.toNumber.negate), fun n => ?_, fun n => ?_⟩
    · cases p <;> rfl
    · show (ScriptM.negate (.object w)).attempt.run _ r = _
      rw [ScriptM.negate, ScriptM.toNumber, ScriptM.run_map, ScriptM.run_map,
        h.run_toPrimitive (by decide)]
      rfl
  toText n := by
    show (ScriptM.toText (.object w)).attempt.run _ r = _
    rw [ScriptM.toText, ScriptM.run_map, h.run_toPrimitive_string, Option.map_some, Except.map,
      p.toText_text]
  toPrimitive _ hhint n := h.run_toPrimitive hhint n
  equalLeft _ hq := ⟨_, answers_loosePrimitives p.isObject_toValue hq, h.answers_looselyEquals hq⟩
  equalRight _ hq :=
    ⟨_, (answers_loosePrimitives p.isObject_toValue hq).looselyEquals_symm,
      (h.answers_looselyEquals hq).looselyEquals_symm⟩
  toObject _ := rfl

end Converting

end Realm

/-! ## In every run -/

/-- The built-in conversion methods can be called at every moment of every program. -/
theorem Program.history_conversion [Printer] {strict : Bool} {host : σ} {p : Program σ}
    {allowance : Nat} {b : Boxed} {f : Builtin} (hf : f ∈ b.conversions) {m : Moment σ}
    (hm : m ∈ p.history allowance (Realm.fresh strict host)) :
    m.realm.callable? (Intrinsic.function f).toValue = some f.callable :=
  Program.history_callable (Boxed.function_mem_conversions hf) (by cases f <;> rfl) hm

/-- At any moment of a program at which the prototypes of wrappers own the conversion
methods that they began with, a new wrapper of a primitive is that and nothing else,
and every conversion and loose equality are answered for it as for the primitive,
without a change to the realm. -/
theorem Program.boxing_transparent [Printer] {strict : Bool} {host : σ} {p : Program σ}
    {allowance : Nat} {m : Moment σ} (hm : m ∈ p.history allowance (Realm.fresh strict host))
    (hinstalled : m.realm.Installed) (b : Boxed) :
    ∃ w r, (∀ runner, (ScriptM.toObject b.toValue).attempt.run runner m.realm
        = some (.ok w, r))
      ∧ m.realm.Gains (.wrapper (RealmM.wrapperPrototype b).handle b) w r
      ∧ r.Transparent w b := by
  obtain ⟨world, hworld, hrealm⟩ :=
    Program.history_sound (p.obeys_free Handle.Intrinsic) (fun _ hh => hh.elim) hm
  have wf : m.realm.arena.WellFormed := hrealm ▸ hworld.arena
  have hgains := Realm.gains_withBox wf b
  refine ⟨_, _, fun runner => ScriptM.run_toObject b, hgains, ?_⟩
  exact (hgains.converting hinstalled fun f hf => Program.history_conversion hf hm).transparent

/-- In a fresh realm the methods are in place. -/
theorem Realm.installed_fresh (strict : Bool) (host : Unit) :
    (Realm.fresh strict host).Installed := by
  intro p f hf
  refine ⟨.hidden (Intrinsic.function f).toValue, ?_, rfl, rfl⟩
  have hobject : (Realm.fresh strict host).arena.get? (RealmM.wrapperPrototype p).handle
      = some (RealmM.wrapperPrototype p).placed :=
    Arena.get?_fresh_handle (RealmM.wrapperPrototype_mem p)
  rw [Arena.getOwn_of_get? hobject, p.getOwn_placed_conversions f hf]

/-- NaN is boxed in a fresh realm, and its wrapper converts as it does. -/
theorem Program.boxing_transparent_nan :
    (Realm.fresh false ()).Installed
      ∧ ∃ w r, (Realm.fresh false ()).Gains
          (.wrapper (Intrinsic.prototype .number).handle (.number Binary64.nan)) w r
        ∧ r.Transparent w (.number Binary64.nan) := by
  have hinstalled := Realm.installed_fresh false ()
  obtain ⟨w, r, -, hgains, htransparent⟩ := Program.boxing_transparent
    ((Program.finish (.normal .undefined)).begun_mem_history 0 _) hinstalled (.number Binary64.nan)
  exact ⟨hinstalled, w, r, hgains, htransparent⟩

end ScriptRealm
