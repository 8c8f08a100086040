import ScriptRealm.Proofs.NumberMembers
import ScriptRealm.Proofs.PrimitiveAccess

/-!
# Residue — what a call of a built-in function leaves behind

A built-in function that is called with primitives may box them on its way to an
answer. When the answer is a primitive no box can be meant to stay, and none does, save
one: `Object.prototype.toString` boxes its receiver to read the class of the box, and
does not give the slot back.

`ScriptM.Silent` says of a computation that it changes nothing unless it throws, which
most built-in functions do not with primitives; the others answer an object
(`ScriptM.Tidy`) or give the box back. `Program.residue_of_call` puts these together for
every moment of every program.
-/

namespace ScriptRealm

open Execution (Ends)

variable {σ α β : Type} {runner : Runner σ} {r r' : Realm σ} {this v : Value} {args : List Value}

/-! ## Computations that change nothing -/

namespace ScriptM

/-- The computation ends, and unless it throws it has changed nothing. -/
def Silent (runner : Runner σ) (r : Realm σ) (m : ScriptM σ α) : Prop :=
  Ends (m.attempt.run runner) (fun result r' => ∀ a, result = .ok a → r' = r) r

/-- The computation ends, and with a primitive for its result it has changed nothing but
the order of slots. -/
def Tidy (runner : Runner σ) (r : Realm σ) (m : ScriptM σ Value) : Prop :=
  Ends (m.attempt.run runner)
    (fun result r' => ∀ v, result = .ok v → v.handle? = none → r.Same r') r

namespace Silent

variable {m : ScriptM σ α}

theorem of_run {a : α} (hrun : m.attempt.run runner r = some (.ok a, r)) : Silent runner r m :=
  ⟨_, _, hrun, fun _ _ => rfl⟩

theorem pure (a : α) : Silent runner r (Pure.pure a : ScriptM σ α) := of_run rfl

theorem raise [Printer] (why : Fault) : Silent runner r (raise why : ScriptM σ α) :=
  ⟨_, _, run_raise why r, nofun⟩

theorem bind {k : α → ScriptM σ β} (hm : Silent runner r m) (hk : ∀ a, Silent runner r (k a)) :
    Silent runner r (m >>= k) := by
  refine RealmM.ends_bind (hm.mono ?_)
  rintro (e | a) r' hsame
  · exact .pure nofun
  · rw [hsame a rfl]
    exact hk a

/-- The realm is read first. -/
theorem realm {k : Realm σ → ScriptM σ α} (hk : Silent runner r (k r)) :
    Silent runner r (realm >>= k) :=
  hk

theorem map (f : α → β) (hm : Silent runner r m) : Silent runner r (f <$> m) :=
  hm.bind fun a => .pure (f a)

/-- Its result is used in a computation that leaves things tidy. -/
theorem bind_tidy {k : α → ScriptM σ Value} (hm : Silent runner r m)
    (hk : ∀ a, (k a).Tidy runner r) : (m >>= k).Tidy runner r := by
  refine RealmM.ends_bind (hm.mono ?_)
  rintro (e | a) r' hsame
  · exact .pure nofun
  · rw [hsame a rfl]
    exact hk a

theorem tidy {m : ScriptM σ Value} (hm : Silent runner r m) : m.Tidy runner r := by
  refine hm.mono fun result r' hsame v hresult _ => ?_
  rw [hsame v hresult]
  exact .refl r

/-- A primitive is converted at once. -/
theorem toPrimitive [Printer] (hv : v.handle? = none) (hint : Hint) :
    Silent runner r (toPrimitive v hint) := by
  unfold ScriptM.toPrimitive
  rw [hv]
  exact pure v

theorem toNumber [Printer] (hv : v.handle? = none) : Silent runner r (toNumber v) :=
  (toPrimitive hv .number).map _

theorem toInteger [Printer] (hv : v.handle? = none) : Silent runner r (toInteger v) :=
  (toNumber hv).map _

theorem toText [Printer] (hv : v.handle? = none) : Silent runner r (toText v) :=
  (toPrimitive hv .string).map _

end Silent

/-- What a computation leaves, it leaves when it ends as a completion. -/
theorem Tidy.complete {m : ScriptM σ Value} (hm : m.Tidy runner r) :
    Ends (m.complete.run runner)
      (fun c r' => ∀ v, c.result = .ok v → v.handle? = none → r.Same r') r := by
  refine RealmM.ends_map (hm.mono fun result r' hsame v hresult => ?_)
  rw [Completion.result_ofResult] at hresult
  exact hsame v hresult

/-- A computation whose result is an object. -/
theorem tidy_object {m : ScriptM σ Handle} (hm : Ends (m.attempt.run runner) (fun _ _ => True) r) :
    (Value.object <$> m).Tidy runner r := by
  refine RealmM.ends_bind (hm.mono ?_)
  rintro (e | h) r' -
  · exact .pure nofun
  · refine .pure ?_
    rintro _ ⟨⟩ hno
    cases hno

end ScriptM

/-! ## Built-in functions and primitives -/

namespace Builtin

open ScriptM (Silent Tidy)

theorem numberReceiver_silent [Printer] (this : Value) (method : String) :
    Silent runner r (numberReceiver this method) := by
  refine .realm ?_
  split
  · exact .pure _
  · exact .raise _

theorem booleanReceiver_silent [Printer] (this : Value) (method : String) :
    Silent runner r (booleanReceiver this method) := by
  refine .realm ?_
  split
  · exact .pure _
  · exact .raise _

theorem stringReceiver_silent [Printer] (this : Value) (method : String) :
    Silent runner r (stringReceiver this method) := by
  refine .realm ?_
  split
  · exact .pure _
  · exact .raise _

theorem optionalInteger_silent [Printer] (hv : v.handle? = none) :
    Silent runner r (optionalInteger v) := by
  unfold optionalInteger
  split
  · exact .pure none
  · exact (Silent.toInteger hv).map some

theorem rendered_silent [Printer] (text : Except DigitsOutOfRange String) :
    Silent runner r (rendered text) := by
  cases text with
  | ok text => exact .pure _
  | error e => exact .raise _

theorem numberInRadix_silent [Printer] (this : Value) (hargs : ∀ v ∈ args, v.handle? = none) :
    Silent runner r (numberInRadix this args) := by
  refine (numberReceiver_silent this _).bind fun x =>
    (optionalInteger_silent (handle?_argument hargs 0)).bind fun radix => ?_
  split
  · exact .pure _
  · exact .raise _

theorem numberTest_silent (test : Binary64 → Bool) (args : List Value) :
    Silent runner r (numberTest test args) := by
  unfold numberTest
  split <;> exact .pure _

theorem functionText_silent [Printer] (this : Value) : Silent runner r (functionText this) := by
  refine .realm ?_
  split
  · exact .pure _
  · exact .raise _

theorem errorText_silent [Printer] (hthis : this.handle? = none) :
    Silent runner r (errorText this) := by
  unfold errorText
  rw [hthis]
  exact .raise _

theorem isPrototypeTest_silent [Printer] (this : Value) (hargs : ∀ v ∈ args, v.handle? = none) :
    Silent runner r (isPrototypeTest this args) := by
  have hv := handle?_argument hargs 0
  unfold isPrototypeTest
  split
  · rename_i heq
    rw [heq] at hv
    cases hv
  · exact .pure _

theorem changePrototype_silent [Printer] (hargs : ∀ v ∈ args, v.handle? = none) :
    Silent runner r (changePrototype args) := by
  have hv := handle?_argument hargs 0
  unfold changePrototype
  dsimp only
  split
  · exact .raise _
  · refine Silent.bind ?_ fun prototype => ?_
    · unfold prototypeArgument
      split <;> first | exact .pure _ | exact .raise _
    · split
      · rename_i heq
        rw [heq] at hv
        cases hv
      · exact .pure _

theorem fixProperties_silent (hargs : ∀ v ∈ args, v.handle? = none) :
    Silent runner r (fixProperties args) := by
  have hv := handle?_argument hargs 0
  unfold fixProperties
  dsimp only
  split
  · rename_i heq
    rw [heq] at hv
    cases hv
  · exact .pure _

theorem extensibleTest_silent (hargs : ∀ v ∈ args, v.handle? = none) :
    Silent runner r (extensibleTest args) := by
  have hv := handle?_argument hargs 0
  unfold extensibleTest
  split
  · rename_i heq
    rw [heq] at hv
    cases hv
  · exact .pure _

/-! ### Constructors -/

theorem boxIfConstructing_silent (hnone : r.newTarget = none) (p : Boxed) :
    Silent runner r (boxIfConstructing p) :=
  .of_run (run_boxIfConstructing_none hnone p)

theorem makeNumber_silent [Printer] (hnone : r.newTarget = none)
    (hargs : ∀ v ∈ args, v.handle? = none) :
    Silent runner r (makeNumber args) := by
  have hbox (x) : Silent runner r _ := boxIfConstructing_silent hnone (.number x)
  cases args with
  | nil => exact (Silent.pure _).bind hbox
  | cons v others => exact (Silent.toNumber (hargs v List.mem_cons_self)).bind hbox

theorem makeString_silent [Printer] (hnone : r.newTarget = none)
    (hargs : ∀ v ∈ args, v.handle? = none) :
    Silent runner r (makeString args) := by
  have hbox (s) : Silent runner r _ := boxIfConstructing_silent hnone (.string s)
  cases args with
  | nil => exact (Silent.pure _).bind hbox
  | cons v others => exact ((Silent.toText (hargs v List.mem_cons_self)).map _).bind hbox

/-- Boxing ends, with an object or an error. -/
theorem toObject_ends [Printer] (v : Value) :
    Ends ((ScriptM.toObject v).attempt.run runner) (fun _ _ => True) r := by
  cases v <;> exact ⟨_, _, rfl, trivial⟩

theorem asObject_tidy [Printer] (v : Value) : Tidy runner r (asObject v) :=
  ScriptM.tidy_object (toObject_ends v)

theorem makeObject_tidy [Printer] (args : List Value) : Tidy runner r (makeObject args) := by
  unfold makeObject
  dsimp only
  split
  · exact ScriptM.tidy_object ⟨_, _, rfl, trivial⟩
  · exact asObject_tidy _

theorem makeError_tidy [Printer] (kind : ErrorKind) (hargs : ∀ v ∈ args, v.handle? = none) :
    Tidy runner r (makeError kind args) := by
  unfold makeError
  dsimp only
  split
  · refine ⟨_, _, rfl, ?_⟩
    rintro _ ⟨⟩ hno
    cases hno
  · refine (Silent.toText (handle?_argument hargs 0)).bind_tidy fun message => ⟨_, _, rfl, ?_⟩
    rintro _ ⟨⟩ hno
    cases hno

/-! ### Receivers and arguments that are boxed -/

/-- A question about a property of a primitive is answered by a box that is given back. -/
theorem autoboxedTest_tidy [Printer] (wf : r.arena.WellFormed) (p : Boxed) (key : String)
    (test : Option Descriptor → Bool) :
    Tidy runner r (do
      let found ← ScriptM.autoboxed p.toValue fun o => do
        pure ((← ScriptM.realm).arena.getOwn o key)
      pure (.boolean (test found))) := by
  have hgains := Realm.gains_withBox wf p
  have hlive := Option.isSome_of_eq_some hgains.object
  have hrun : (ScriptM.autoboxed p.toValue fun o => do
        pure ((← ScriptM.realm).arena.getOwn o key) : ScriptM σ _).attempt.run runner r
      = some (.ok ((r.withBox p).arena.getOwn r.arena.upcoming key),
        (r.withBox p).withArena (·.release r.arena.upcoming)) := by
    rw [ScriptM.run_autoboxed]
    rfl
  exact ⟨_, _, ScriptM.run_bind_of_ok hrun _, fun _ _ _ =>
    hgains.same (Realm.loses_release (wf.allocate _) hlive)⟩

theorem ownPropertyTest_tidy [Printer] (wf : r.arena.WellFormed) (hthis : this.handle? = none)
    (hargs : ∀ v ∈ args, v.handle? = none) (test : Option Descriptor → Bool) :
    Tidy runner r (ownPropertyTest this args test) := by
  refine (Silent.toText (handle?_argument hargs 0)).bind_tidy fun key => ?_
  cases this with
  | object h => cases hthis
  | undefined | null => exact ⟨_, _, rfl, nofun⟩
  | boolean b => exact autoboxedTest_tidy wf (.boolean b) key test
  | number x => exact autoboxedTest_tidy wf (.number x) key test
  | string s => exact autoboxedTest_tidy wf (.string s) key test

/-- The prototype of a new wrapper is an object. -/
theorem prototypeOf_tidy [Printer] (wf : r.arena.WellFormed)
    (hargs : ∀ v ∈ args, v.handle? = none) :
    Tidy runner r (prototypeOf args) := by
  have hbox : ∀ p : Boxed, Tidy runner r (do
      let o ← ScriptM.toObject p.toValue
      pure (((← ScriptM.realm).arena.prototype? o).elim .null .object)) := by
    intro p
    refine ⟨_, _, ScriptM.run_bind_of_ok (ScriptM.run_toObject p) _, ?_⟩
    have hlink : (r.withBox p).arena.prototype? r.arena.upcoming
        = some (RealmM.wrapperPrototype p).handle := by
      rw [Arena.prototype?, (Realm.gains_withBox wf p).object]
      rfl
    rintro _ ⟨⟩ hno
    rw [hlink] at hno
    cases hno
  have hv := handle?_argument hargs 0
  unfold prototypeOf
  cases harg : argument args 0 with
  | object h =>
    rw [harg] at hv
    cases hv
  | undefined | null => exact ⟨_, _, rfl, nofun⟩
  | boolean b => exact hbox (.boolean b)
  | number x => exact hbox (.number x)
  | string s => exact hbox (.string s)

/-- All built-in functions but one leave nothing when they answer a primitive. -/
theorem value_tidy [Printer] {f : Builtin} (hf : f ≠ .objectToString) (wf : r.arena.WellFormed)
    (hnone : r.newTarget = none) (hthis : this.handle? = none)
    (hargs : ∀ v ∈ args, v.handle? = none) : Tidy runner r (f.value this args) := by
  have hcount : Silent runner r _ := optionalInteger_silent (handle?_argument hargs 0)
  cases f with
  | objectToString => exact absurd rfl hf
  | constructor family =>
    cases family with
    | object => exact makeObject_tidy args
    | error kind => exact makeError_tidy kind hargs
    | number => exact (makeNumber_silent hnone hargs).tidy
    | boolean => exact (boxIfConstructing_silent hnone _).tidy
    | string => exact (makeString_silent hnone hargs).tidy
  | emptyFunction | functionCall => exact (Silent.pure _).tidy
  | objectValueOf => exact asObject_tidy this
  | hasOwnProperty | propertyIsEnumerable => exact ownPropertyTest_tidy wf hthis hargs _
  | isPrototypeOf => exact (isPrototypeTest_silent this hargs).tidy
  | getPrototypeOf => exact prototypeOf_tidy wf hargs
  | setPrototypeOf => exact (changePrototype_silent hargs).tidy
  | preventExtensions => exact (fixProperties_silent hargs).tidy
  | isExtensible => exact (extensibleTest_silent hargs).tidy
  | functionToString => exact (functionText_silent this).tidy
  | errorToString => exact (errorText_silent hthis).tidy
  | numberIsNaN | numberIsFinite | numberIsInteger | numberIsSafeInteger =>
    exact (numberTest_silent _ args).tidy
  | numberToString => exact (numberInRadix_silent this hargs).tidy
  | numberToLocaleString | numberValueOf =>
    exact ((numberReceiver_silent this _).bind fun _ => .pure _).tidy
  | numberToFixed =>
    exact ((numberReceiver_silent this _).bind fun _ =>
      (Silent.toInteger (handle?_argument hargs 0)).bind fun _ => rendered_silent _).tidy
  | numberToExponential | numberToPrecision =>
    exact ((numberReceiver_silent this _).bind fun _ =>
      hcount.bind fun _ => rendered_silent _).tidy
  | booleanToString | booleanValueOf =>
    exact ((booleanReceiver_silent this _).bind fun _ => .pure _).tidy
  | stringToString | stringValueOf => exact (stringReceiver_silent this _).tidy

end Builtin

/-! ## What is left -/

/-- The primitive that a call of a built-in function leaves a box of, although it answers a
primitive. -/
def Builtin.residue (f : Builtin) (this : Value) : Option Boxed :=
  if f = .objectToString then this.boxable? else none

namespace Realm

/-- One wrapper of the primitive is left, and nothing when there is none. -/
def Left (r : Realm σ) : Option Boxed → Realm σ → Prop
  | none, r' => r.Same r'
  | some p, r' => ∃ w, r.Gains (.wrapper (RealmM.wrapperPrototype p).handle p) w r'

/-- The count of objects tells whether there is one. -/
theorem Left.live {b : Option Boxed} (hleft : r.Left b r') :
    r'.arena.live = r.arena.live + b.isSome.toNat := by
  cases b with
  | none => exact Same.live hleft
  | some p =>
    obtain ⟨w, hgains⟩ := hleft
    exact hgains.live

/-- Putting `new.target` back leaves what is left. -/
theorem Left.putBack {b : Option Boxed} (hleft : Left { r with newTarget := none } b r') :
    r.Left b { r' with newTarget := r.newTarget } := by
  cases b with
  | none =>
    refine ⟨hleft.objects, hleft.live, ?_⟩
    rw [hleft.realm]
  | some p =>
    obtain ⟨w, hgains⟩ := hleft
    refine ⟨w, hgains.unused, hgains.object, hgains.others, hgains.live, ?_⟩
    rw [hgains.realm]

end Realm

namespace Builtin

open ScriptM (Silent)

/-- The class of a primitive is read off a box, which stays. -/
theorem run_tagText [Printer] (wf : r.arena.WellFormed) (p : Boxed) :
    (tagText p.toValue).attempt.run runner r
      = some (.ok (.ofText s!"[object {p.wrapperClass.name}]"), r.withBox p) := by
  have htag : (r.withBox p).arena.tag? r.arena.upcoming = some p.wrapperClass := by
    rw [Arena.tag?, (Realm.gains_withBox wf p).object]
    rfl
  have htext : (do
      let o ← ScriptM.toObject p.toValue
      let tag := (← ScriptM.realm).arena.tag? o
      pure ((tag.map (·.name)).getD ObjectClass.object.name) : ScriptM σ String).attempt.run
        runner r = some (.ok p.wrapperClass.name, r.withBox p) := by
    rw [ScriptM.run_bind_of_ok (ScriptM.run_toObject p), ScriptM.run_realm_bind, htag]
    rfl
  cases p <;> exact ScriptM.run_bind_of_ok htext fun tag => pure (Value.ofText s!"[object {tag}]")

/-- A primitive is not called by `Function.prototype.call`. -/
theorem callReceiver_throws [Printer] (hthis : this.handle? = none) (args : List Value) :
    Ends ((callReceiver this args).run runner) (fun c _ => ∃ e, c = .thrown e) r := by
  have hcallable : r.isCallable this = false := by
    rw [Realm.isCallable, Realm.callable?, hthis]
    rfl
  rw [callReceiver]
  refine RealmM.ends_get ?_
  rw [hcallable]
  exact ⟨_, _, rfl, _, rfl⟩

/-- What a built-in function leaves when it answers a primitive. -/
theorem perform_left [Printer] (f : Builtin) (wf : r.arena.WellFormed) (hnone : r.newTarget = none)
    (hthis : this.handle? = none) (hargs : ∀ v ∈ args, v.handle? = none) :
    Ends ((f.perform this args).run runner)
      (fun c r' => ∀ v, c.result = .ok v → v.handle? = none → r.Left (f.residue this) r') r := by
  have htidy : f ≠ .objectToString → Ends ((f.value this args).complete.run runner)
      (fun c r' => ∀ v, c.result = .ok v → v.handle? = none → r.Left (f.residue this) r') r := by
    intro hf
    rw [residue, if_neg hf]
    exact (value_tidy hf wf hnone hthis hargs).complete
  have hboxed : ∀ p : Boxed, Ends ((tagText p.toValue).complete.run runner)
      (fun c r' => ∀ v, c.result = .ok v → v.handle? = none → r.Left (some p) r') r := fun p =>
    ⟨_, _, ScriptM.run_complete_iff.mpr (run_tagText wf p), fun _ _ _ =>
      ⟨_, Realm.gains_withBox wf p⟩⟩
  cases f with
  | functionCall =>
    refine (callReceiver_throws hthis args).mono ?_
    rintro _ r' ⟨e, rfl⟩ v hresult
    cases hresult
  | objectToString =>
    cases this with
    | object h => cases hthis
    | undefined | null => exact ((Silent.pure _).bind fun _ => .pure _).tidy.complete
    | boolean b => exact hboxed (.boolean b)
    | number x => exact hboxed (.number x)
    | string s => exact hboxed (.string s)
  | _ => exact htidy nofun

end Builtin

/-- The built-in function that an intrinsic object is, if it can be called. -/
def Intrinsic.builtin? : Intrinsic → Option Builtin
  | prototype _ => none
  | functionPrototype => some .emptyFunction
  | function f => some f

theorem Intrinsic.callable_object (i : Intrinsic) :
    (i.object : Object (Behavior σ)).callable = i.builtin?.map Builtin.callable := by
  cases i with
  | prototype family => rfl
  | functionPrototype => rfl
  | function f => cases f <;> rfl

/-- At any moment of a program, a call of an intrinsic function with a primitive receiver
and primitive arguments ends. When it answers a primitive, every handle stands for what it
stood for and there are as many objects as before; only `Object.prototype.toString` leaves
the box of its receiver, and one object more. -/
theorem Program.residue_of_call [Printer] {strict : Bool} {host : σ} {p : Program σ}
    {allowance : Nat}
    {m : Moment σ} (hm : m ∈ p.history allowance (Realm.fresh strict host)) {i : Intrinsic}
    (hi : i ∈ Intrinsic.all) {f : Builtin} (hf : i.builtin? = some f)
    (hthis : this.handle? = none) (hargs : ∀ v ∈ args, v.handle? = none) (n : Nat) :
    ∃ c r', (Request.call i.toValue this args).perform.run (Behavior.run (n + 1)) m.realm
        = some (c, r')
      ∧ ∀ v, c.result = .ok v → v.handle? = none → m.realm.Left (f.residue this) r'
        ∧ r'.arena.live = m.realm.arena.live + (f.residue this).isSome.toNat := by
  obtain ⟨world, hworld, hrealm⟩ :=
    Program.history_sound (p.obeys_free Handle.Intrinsic) (fun _ hh => hh.elim) hm
  have wf : m.realm.arena.WellFormed := hrealm ▸ hworld.arena
  have hcallable : m.realm.callable? i.toValue = some f.callable :=
    Program.history_callable hi (by rw [i.callable_object, hf]; rfl) hm
  let entered := { m.realm with newTarget := none }
  obtain ⟨c, r', hrun, hleft⟩ : Ends ((f.perform this args).run (Behavior.run n)) _ entered :=
    f.perform_left wf rfl hthis hargs
  refine ⟨c, { r' with newTarget := m.realm.newTarget }, ?_, fun v hresult hv => ?_⟩
  · exact (RealmM.run_call hcallable _ _).trans (congrArg (Option.map _) hrun)
  · have hback := (hleft v hresult hv).putBack
    exact ⟨hback, hback.live⟩

/-- At the start, `Object.prototype.toString` of a number leaves one object more. -/
theorem Program.residue_of_call_box :
    ∃ r', (Request.call (Intrinsic.function .objectToString).toValue (.number Binary64.nan)
        []).perform.run (Behavior.run 1) (Realm.fresh false ())
        = some (.normal (.ofText "[object Number]"), r')
      ∧ r'.arena.live = (Realm.fresh false ()).arena.live + 1 := by
  have hstart := (Program.finish (.normal .undefined)).begun_mem_history 0 (Realm.fresh false ())
  have hthis : (Value.number Binary64.nan).handle? = none := rfl
  have hargs : ∀ v ∈ ([] : List Value), v.handle? = none := nofun
  obtain ⟨c, r', hrun, hleft⟩ := Program.residue_of_call hstart
    (Intrinsic.function_mem (by decide)) (rfl : (Intrinsic.function .objectToString).builtin? = _)
    hthis hargs 0
  obtain rfl : c = .normal (.ofText "[object Number]") :=
    congrArg Prod.fst (Option.some.inj hrun).symm
  exact ⟨r', hrun, (hleft _ rfl rfl).2⟩

end ScriptRealm
