import ScriptRealm.Proofs.Enumeration
import ScriptRealm.Proofs.NewTarget

/-!
# InternalSlots — what no script reaches in an object

An object has a class tag, and perhaps the primitive that it wraps, the kind
and message that it was made with as an error, and a function that it runs.
They are filled when the object is made. No change to a property touches them,
nor any to the prototype (`Object.Change.sameSlots`); only a raw edit changes a
class tag, and that one only.

What the realm says of an object by way of these slots is therefore fixed when
the object is made: the report of an error that nobody catches, whatever has
become of its `name` and `message`, and the primitive that the built-in
`valueOf` answers for a wrapper. `Realm.MakesError` and `Realm.MakesWrapper`
list the ways in which errors and wrappers are made, those that run code of a
script included.

`Program.internal_slots_fixed` is about all objects at all moments of all
programs. What hangs on the class tag asks that no raw edit changes that of the
object, as is so when no raw edit is made at all (`Program.Obeys.tagged`).
-/

namespace ScriptRealm

variable {σ : Type}

/-- The policy that rules out raw changes of the class tag of one object, and
nothing else. -/
def Policy.tagged (h : Handle) : Policy σ :=
  ⟨fun _ => True, fun _ _ => False, fun o e => o = h → ∀ tag, e ≠ .retag tag, True⟩

/-- The policy under which every handle may be used, and those of the intrinsic objects
because they have been handed out. -/
def Policy.lasting : Policy σ :=
  ⟨fun h => ¬ h.Intrinsic, fun _ _ => False, fun _ _ => True, True⟩

/-- Every program keeps to it. -/
theorem Program.obeys_lasting (p : Program σ) : p.Obeys Policy.lasting Handle.Intrinsic := by
  refine p.obeys_of_known (fun q => ?_) (fun _ _ hh => hh) fun h => (em h.Intrinsic).symm
  cases q <;> first | exact trivial | exact .inl trivial

/-- Programs that make no raw edit keep to it. -/
theorem Program.Obeys.tagged {p : Program σ} {known : Handle → Prop}
    (hp : p.Obeys Policy.unedited known) (h : Handle) : p.Obeys (Policy.tagged h) known := by
  have hpermits : ∀ {q : Request}, (Policy.unedited : Policy σ).Permits q →
      (Policy.tagged h : Policy σ).Permits q := by
    intro q hq
    cases q with
    | edit => exact hq.elim
    | _ => exact hq
  induction p generalizing known with
  | finish c => exact hp
  | observe next ih => exact fun s => ih s (hp s)
  | update state next ih => exact ⟨hp.1, ih hp.2⟩
  | ask q next ih => exact ⟨hpermits hp.1, hp.2.1, fun a => ih a (hp.2.2 a)⟩
  | newFunction name arity isConstructor body next ihb ih =>
    exact ⟨fun this args => ihb this args (hp.1 this args), fun f => ih f (hp.2 f)⟩

/-! ## Changes -/

namespace Object

/-- What is filled at first is as it was, the class tag apart. -/
structure SameSlots {β : Type} (before now : Object β) : Prop where
  id : now.id = before.id
  primitive : now.primitive = before.primitive
  error : now.error = before.error
  callable : now.callable = before.callable

variable {π : Policy σ} {o o' : Object (Behavior σ)}

theorem Change.sameSlots (h : o.Change π o') : o.SameSlots o' := by
  cases h with
  | same | discard | close | link => exact ⟨rfl, rfl, rfl, rfl⟩
  | define unmixed accepted =>
    obtain ⟨d, rfl⟩ := exists_store_of_define? accepted
    exact ⟨rfl, rfl, rfl, rfl⟩
  | edit e raw => cases e <;> exact ⟨rfl, rfl, rfl, rfl⟩

theorem Change.tag_eq (h : o.Change (Policy.tagged o.handle) o') : o'.tag = o.tag := by
  cases h with
  | same | discard | close | link => rfl
  | define unmixed accepted =>
    obtain ⟨d, rfl⟩ := exists_store_of_define? accepted
    rfl
  | edit e raw =>
    cases e with
    | store | discard => rfl
    | retag tag => exact absurd rfl (raw rfl tag)

theorem Becomes.sameSlots (h : o.Becomes π o') : o.SameSlots o' := by
  induction h with
  | refl => exact ⟨rfl, rfl, rfl, rfl⟩
  | tail _ hchange ih =>
    obtain ⟨id, primitive, error, callable⟩ := hchange.sameSlots
    exact ⟨id.trans ih.id, primitive.trans ih.primitive, error.trans ih.error,
      callable.trans ih.callable⟩

theorem Becomes.tag_eq (h : o.Becomes (Policy.tagged o.handle) o') : o'.tag = o.tag := by
  induction h with
  | refl => rfl
  | @tail middle last hbecomes hchange ih =>
    have hsame : middle.handle = o.handle := congrArg Handle.mk (Becomes.sameSlots hbecomes).id
    rw [← hsame] at hchange
    exact hchange.tag_eq.trans ih

end Object

/-! ## Making errors -/

variable {runner : Runner σ} {w : World σ}

/-- A new object is what its handle stands for. -/
theorem RealmM.get?_of_allocate {π : Policy σ} (hw : w.Sound π) {o : Object (Behavior σ)}
    {h : Handle} {r : Realm σ} (hrun : (allocate o).run runner w.realm = some (h, r)) :
    r.arena.get? h = some { o with id := h.id } := by
  have hrun : some ((w.realm.arena.allocate o).1,
      { w.realm with arena := (w.realm.arena.allocate o).2 }) = some (h, r) := hrun
  cases hrun
  rw [Arena.allocate_fst, Arena.get?_allocate hw.arena, if_pos rfl]

theorem RealmM.error?_of_newError {π : Policy σ} (hw : w.Sound π) {kind : ErrorKind}
    {message : String} {v : Value} {r : Realm σ}
    (hrun : (newError kind message).run runner w.realm = some (v, r)) :
    ∃ h, v = .object h ∧ r.error? h = some ⟨kind, message⟩ := by
  rw [newError, run_map] at hrun
  obtain ⟨⟨h, r'⟩, hmade, hended⟩ := Option.map_eq_some_iff.mp hrun
  cases hended
  exact ⟨h, rfl, by rw [Realm.error?, get?_of_allocate hw hmade]; rfl⟩

/-- What an error constructor takes for the message: nothing from `undefined`, and
the text of all else. -/
inductive Builtin.ReadsMessage [Printer] (runner : Runner σ) (r : Realm σ) (args : List Value) :
    String → Prop
  | missing (isUndefined : (argument args 0).isUndefined = true) : ReadsMessage runner r args ""
  | text {message : String} {r' : Realm σ} (isUndefined : (argument args 0).isUndefined = false)
      (hrun : (ScriptM.toText (argument args 0)).attempt.run runner r = some (.ok message, r')) :
      ReadsMessage runner r args message

theorem Builtin.ReadsMessage.unique [Printer] {r : Realm σ} {args : List Value}
    {message message' : String}
    (h : ReadsMessage runner r args message) (h' : ReadsMessage runner r args message') :
    message = message' := by
  cases h with
  | missing hundefined =>
    cases h' with
    | missing => rfl
    | text hdefined => rw [hundefined] at hdefined; cases hdefined
  | text hdefined hrun =>
    cases h' with
    | missing hundefined => rw [hdefined] at hundefined; cases hundefined
    | text _ hrun' => rw [hrun] at hrun'; cases hrun'; rfl

/-- An error constructor that ends normally has made an error. -/
theorem Builtin.error?_of_constructor [Printer] (hw : w.Sound Policy.free) {n : Nat}
    {kind : ErrorKind} {this v : Value} {args : List Value} {r : Realm σ}
    (hrun : Behavior.run (n + 1) (.builtin (.constructor (.error kind))) this args w.realm
      = some (.normal v, r)) :
    ∃ h message, v = .object h ∧ ReadsMessage (Behavior.run n) w.realm args message
      ∧ r.error? h = some ⟨kind, message⟩ := by
  have hmake : (makeError kind args : ScriptM σ Value).attempt.run (Behavior.run n) w.realm
      = some (.ok v, r) := ScriptM.run_complete_iff.mp hrun
  unfold makeError at hmake
  dsimp only at hmake
  split at hmake
  · rename_i hundefined
    obtain ⟨e, r₁, hnew, hrest⟩ := ScriptM.run_bind_ok hmake
    obtain ⟨h, rfl, herror⟩ := RealmM.error?_of_newError hw (ScriptM.run_lift_ok hnew)
    -- taking the `message` away leaves what the realm knows
    have hrest : some (Except.ok (.object h), r₁.withArena (·.modify h (·.discard "message")))
        = some ((.ok v : Except Value Value), r) := hrest
    cases hrest
    refine ⟨h, "", rfl, .missing hundefined, ?_⟩
    show ((r₁.arena.modify h (·.discard "message")).get? h).bind _ = _
    rw [Arena.get?_modify, if_pos rfl, Option.bind_map]
    exact herror
  · rename_i hdefined
    obtain ⟨message, r₁, htext, hnew⟩ := ScriptM.run_bind_ok hmake
    obtain ⟨w₁, rfl, hlater, -⟩ :=
      (ScriptM.Sound.toText hw (w.fits_free _)).attempt.later (Behavior.accounts n) hw htext
    obtain ⟨h, rfl, herror⟩ := RealmM.error?_of_newError hlater.sound (ScriptM.run_lift_ok hnew)
    exact ⟨h, message, rfl, .text (Bool.not_eq_true _ ▸ hdefined) htext, herror⟩

/-- From the one realm an error is made, which leaves the other. -/
inductive Realm.MakesError [Printer] (r : Realm σ) (h : Handle) (r' : Realm σ) : ErrorRecord → Prop
  /-- A program asks for it. -/
  | requested {kind : ErrorKind} {message : String} {n : Nat}
      (hrun : (Request.createError kind message).perform.run (Behavior.run n) r
        = some (.object h, r')) : MakesError r h r' ⟨kind, message⟩
  /-- The realm throws it. -/
  | thrown {f : Fault} {n : Nat}
      (hrun : (RealmM.throwing f).run (Behavior.run n) r = some (.thrown (.object h), r')) :
      MakesError r h r' ⟨f.kind, f.message⟩
  /-- A constructor answers it, whether it has been called or used to construct. -/
  | constructed {kind : ErrorKind} {n : Nat} {this : Value} {args : List Value} {message : String}
      (reads : Builtin.ReadsMessage (Behavior.run n) r args message)
      (hrun : Behavior.run (n + 1) (.builtin (.constructor (.error kind))) this args r
        = some (.normal (.object h), r')) : MakesError r h r' ⟨kind, message⟩

theorem Realm.MakesError.error? [Printer] (hw : w.Sound Policy.free) {h : Handle} {r : Realm σ}
    {e : ErrorRecord} (hmade : w.realm.MakesError h r e) : r.error? h = some e := by
  cases hmade with
  | requested hrun =>
    obtain ⟨_, ⟨⟩, herror⟩ := RealmM.error?_of_newError hw hrun
    exact herror
  | thrown hrun =>
    rw [RealmM.throwing, RealmM.run_map] at hrun
    obtain ⟨⟨v, r'⟩, hnew, hended⟩ := Option.map_eq_some_iff.mp hrun
    obtain ⟨_, rfl, herror⟩ := RealmM.error?_of_newError hw hnew
    cases hended
    exact herror
  | constructed reads hrun =>
    obtain ⟨_, message, ⟨⟩, reads', herror⟩ := Builtin.error?_of_constructor hw hrun
    rw [reads.unique reads']
    exact herror

/-! ## Making wrappers -/

theorem RealmM.boxed?_of_newWrapper {π : Policy σ} (hw : w.Sound π) {p : Boxed} {h : Handle}
    {r : Realm σ} (hrun : (newWrapper p).run runner w.realm = some (h, r)) :
    r.boxed? (.object h) = some p := by
  rw [Realm.boxed?, get?_of_allocate hw hrun]
  simp [Object.wrapper]

theorem Builtin.boxed?_of_boxIfConstructing {π : Policy σ} (hw : w.Sound π) {p : Boxed}
    {h : Handle} {r : Realm σ}
    (hrun : (boxIfConstructing p).attempt.run runner w.realm = some (.ok (.object h), r)) :
    r.boxed? (.object h) = some p := by
  rw [boxIfConstructing, ScriptM.run_realm_bind] at hrun
  split at hrun
  · obtain ⟨g, r₁, hnew, hrest⟩ := ScriptM.run_bind_ok hrun
    cases hrest
    exact RealmM.boxed?_of_newWrapper hw (ScriptM.run_lift_ok hnew)
  · cases p <;> cases hrun

theorem Builtin.Converts.unique [Printer] {r : Realm σ} {family : Family} {args : List Value}
    {p p' : Boxed}
    (h : Converts runner r family args p) (h' : Converts runner r family args p') : p = p' := by
  cases h with
  | zero | boolean | empty => cases h'; rfl
  | number hrun =>
    cases h' with
    | number hrun' => rw [hrun] at hrun'; cases hrun'; rfl
  | string hrun =>
    cases h' with
    | string hrun' => rw [hrun] at hrun'; cases hrun'; rfl

/-- A constructor of wrappers that answers an object has wrapped what it made of
its arguments. -/
theorem Builtin.boxed?_of_constructor [Printer] (hw : w.Sound Policy.free) {family : Family}
    (hfamily : family ∈ Family.wrappers) {n : Nat} {this : Value} {args : List Value} {h : Handle}
    {r : Realm σ} (hrun : Behavior.run (n + 1) (.builtin (.constructor family)) this args w.realm
      = some (.normal (.object h), r)) :
    ∃ p, Converts (Behavior.run n) w.realm family args p ∧ r.boxed? (.object h) = some p := by
  obtain ⟨p, w', hconverts, hlater, hbox⟩ := converts_of_constructor hw hfamily hrun
  exact ⟨p, hconverts, boxed?_of_boxIfConstructing hlater.sound hbox⟩

/-- From the one realm a wrapper of the primitive is made, which leaves the other. -/
inductive Realm.MakesWrapper [Printer] (r : Realm σ) (h : Handle) (r' : Realm σ) (p : Boxed) : Prop
  /-- The primitive is taken as an object. -/
  | boxed {v : Value} {n : Nat} (boxable : v.boxable? = some p)
      (hrun : (Request.toObject v).perform.run (Behavior.run n) r = some (.ok h, r'))
  /-- A constructor answers it. -/
  | constructed {family : Family} {n : Nat} {this : Value} {args : List Value}
      (wraps : family ∈ Family.wrappers)
      (converts : Builtin.Converts (Behavior.run n) r family args p)
      (hrun : Behavior.run (n + 1) (.builtin (.constructor family)) this args r
        = some (.normal (.object h), r'))

theorem Realm.MakesWrapper.boxed? [Printer] (hw : w.Sound Policy.free) {h : Handle} {r : Realm σ}
    {p : Boxed} (hmade : w.realm.MakesWrapper h r p) : r.boxed? (.object h) = some p := by
  cases hmade with
  | @boxed v n hboxable hrun =>
    have hprimitive : v.handle? = none := by
      cases v with
      | object => cases hboxable
      | _ => rfl
    have hrun : (ScriptM.toObject v).attempt.run (Behavior.run n) w.realm = some (.ok h, r) := hrun
    unfold ScriptM.toObject at hrun
    rw [hprimitive, hboxable] at hrun
    exact RealmM.boxed?_of_newWrapper hw (ScriptM.run_lift_ok hrun)
  | constructed wraps converts hrun =>
    obtain ⟨p', converts', hbox⟩ := Builtin.boxed?_of_constructor hw wraps hrun
    rw [converts.unique converts']
    exact hbox

/-! ## What the realm says -/

/-- A script that ends by throwing the error, and that nobody catches, is reported
with the given kind and message. -/
def Moment.Reports [Printer] (m : Moment σ) (h : Handle) (e : ErrorRecord) : Prop :=
  ∀ (body : Program σ) (next : Except Uncaught Value → Program σ) (n : Nat) (r : Realm σ),
    body.run (Behavior.run n) r = some (.thrown (.object h), m.realm) →
      (body.outermost next).run (Behavior.run n) r
        = (next (.error (.error e.kind e.message))).run (Behavior.run n) m.realm

theorem Moment.reports [Printer] {m : Moment σ} {h : Handle} {e : ErrorRecord}
    (herror : m.realm.error? h = some e) : m.Reports h e := by
  intro body next n r hrun
  rw [Program.outermost, Program.run_andThen, hrun, Option.bind_some]
  show ((RealmM.uncaught (.object h)).run (Behavior.run n) m.realm).bind _ = _
  rw [RealmM.run_uncaught herror]
  rfl

/-- The built-in function that answers the primitive of a wrapper. -/
def Boxed.valueOf : Boxed → Builtin
  | boolean _ => .booleanValueOf
  | number _ => .numberValueOf
  | string _ => .stringValueOf

/-- Called on the wrapper, the built-in function answers the primitive and leaves
all as it is. -/
def Moment.Unwraps [Printer] (m : Moment σ) (h : Handle) (p : Boxed) : Prop :=
  ∀ (f : Value) (c : Callable (Behavior σ)) (args : List Value) (n : Nat),
    m.realm.callable? f = some c → c.behavior = .builtin p.valueOf →
      (Request.call f (.object h) args).perform.run (Behavior.run (n + 1)) m.realm
        = some (.normal p.toValue, m.realm)

theorem Builtin.run_valueOf [Printer] {r : Realm σ} {h : Handle} {p : Boxed}
    (hboxed : r.boxed? (.object h) = some p) (args : List Value) (n : Nat) :
    Behavior.run (n + 1) (.builtin p.valueOf) (.object h) args r = some (.normal p.toValue, r) := by
  cases p with
  | boolean b =>
    have hreceiver : (booleanReceiver (.object h) "valueOf" : ScriptM σ Bool).attempt.run
        (Behavior.run n) r = some (.ok b, r) := by
      rw [booleanReceiver, ScriptM.run_realm_bind, hboxed]
      rfl
    exact ScriptM.run_complete_iff.mpr (ScriptM.run_bind_of_ok hreceiver _)
  | number x =>
    have hreceiver : (numberReceiver (.object h) "valueOf" : ScriptM σ Binary64).attempt.run
        (Behavior.run n) r = some (.ok x, r) := by
      rw [numberReceiver, ScriptM.run_realm_bind, hboxed]
      rfl
    exact ScriptM.run_complete_iff.mpr (ScriptM.run_bind_of_ok hreceiver _)
  | string s =>
    have hreceiver : (stringReceiver (.object h) "valueOf" : ScriptM σ Value).attempt.run
        (Behavior.run n) r = some (.ok (.string s), r) := by
      rw [stringReceiver, ScriptM.run_realm_bind, hboxed]
      rfl
    exact ScriptM.run_complete_iff.mpr hreceiver

theorem Moment.unwraps [Printer] {m : Moment σ} {h : Handle} {p : Boxed}
    (hboxed : m.realm.boxed? (.object h) = some p) : m.Unwraps h p := by
  intro f c args n hcallable hbehavior
  refine (RealmM.run_call hcallable _ _).trans ?_
  have hboxed : Realm.boxed? { m.realm with newTarget := none } (.object h) = some p := hboxed
  rw [hbehavior, Builtin.run_valueOf hboxed]
  rfl

/-! ## In every run -/

section Runs

variable {strict : Bool} {host : σ} {p : Program σ} {allowance : Nat} {first : Moment σ}
  {later : List (Moment σ)} {h : Handle}

/-- Along a stretch of a run at every moment of which it is there, an object keeps
its slots, the class tag included if no raw edit changes that. -/
theorem Program.history_sameSlots [Printer]
    (hrun : first :: later <:+: p.history allowance (Realm.fresh strict host))
    (hlive : ∀ m ∈ later, (m.realm.arena.get? h).isSome = true) {before : Object (Behavior σ)}
    (hbefore : first.realm.arena.get? h = some before) {m : Moment σ} (hm : m ∈ later) :
    ∃ now, m.realm.arena.get? h = some now ∧ before.SameSlots now
      ∧ (p.Obeys (Policy.tagged h) Handle.Intrinsic → now.tag = before.tag) := by
  have hfree := p.obeys_free Handle.Intrinsic
  obtain ⟨now, hnow, hbecomes⟩ :=
    Program.history_becomes hfree (fun _ hh => hh.elim) hrun hbefore hlive m hm
  refine ⟨now, hnow, hbecomes.sameSlots, ?_⟩
  intro hp
  obtain ⟨now', hnow', hbecomes'⟩ :=
    Program.history_becomes hp (fun _ hh => hh.elim) hrun hbefore hlive m hm
  rw [hnow] at hnow'
  cases hnow'
  obtain ⟨w, hw, hrealm⟩ :=
    Program.history_sound hfree (fun _ hh => hh.elim) (hrun.subset List.mem_cons_self)
  have hhandle : before.handle = h := by
    rw [← hrealm] at hbefore
    exact congrArg Handle.mk (hw.arena.id_eq hbefore)
  rw [← hhandle] at hbecomes'
  exact hbecomes'.tag_eq

/-- The intrinsic objects are there at every moment of every program, and each has the
slots that it began with. -/
theorem Program.history_intrinsic [Printer] {i : Intrinsic} (hi : i ∈ Intrinsic.all) {m : Moment σ}
    (hm : m ∈ p.history allowance (Realm.fresh strict host)) :
    ∃ now, m.realm.arena.get? i.handle = some now
      ∧ (i.placed : Object (Behavior σ)).SameSlots now := by
  have hlive : ∀ x ∈ p.history allowance (Realm.fresh strict host),
      (x.realm.arena.get? i.handle).isSome = true := by
    intro x hx
    obtain ⟨w, hw, hrealm⟩ := Program.history_sound p.obeys_lasting (fun _ hh => hh.elim) hx
    rw [← hrealm]
    exact ((hw.intrinsics i hi).resolve_left fun hno => hno ⟨i, hi, rfl⟩).1
  have hfresh : (Realm.fresh strict host).arena.get? i.handle = some i.placed :=
    Arena.get?_fresh_handle hi
  rcases List.mem_cons.mp hm with rfl | hm
  · exact ⟨_, hfresh, rfl, rfl, rfl, rfl⟩
  · obtain ⟨now, hnow, hsame, -⟩ := Program.history_sameSlots List.infix_rfl
      (fun x hx => hlive x (List.mem_cons_of_mem _ hx)) hfresh hm
    exact ⟨now, hnow, hsame⟩

/-- An intrinsic function is what it began as at every moment of every program. -/
theorem Program.history_callable [Printer] {i : Intrinsic} (hi : i ∈ Intrinsic.all)
    {f : Callable (Behavior σ)} (hf : i.object.callable = some f) {m : Moment σ}
    (hm : m ∈ p.history allowance (Realm.fresh strict host)) :
    m.realm.callable? i.toValue = some f := by
  obtain ⟨now, hnow, hsame⟩ := Program.history_intrinsic hi hm
  show m.realm.arena.callable? i.handle = some f
  rw [Arena.callable?, hnow, Option.bind_some, hsame.callable]
  exact hf

/-- From a moment on at which it is there, an object keeps the slots that are
filled when it is made, the class tag included if no raw edit changes that. So an
error that was made is reported with the kind and message that it was made with
whenever it is thrown and not caught, and the built-in `valueOf` answers for a
wrapper the primitive that it was made for. -/
theorem Program.internal_slots_fixed [Printer]
    (hrun : first :: later <:+: p.history allowance (Realm.fresh strict host))
    (hlive : ∀ m ∈ later, (m.realm.arena.get? h).isSome = true) :
    (∀ before, first.realm.arena.get? h = some before → ∀ m ∈ later,
        ∃ now, m.realm.arena.get? h = some now ∧ before.SameSlots now
          ∧ (p.Obeys (Policy.tagged h) Handle.Intrinsic → now.tag = before.tag))
      ∧ (∀ start ∈ p.history allowance (Realm.fresh strict host), ∀ e,
          start.realm.MakesError h first.realm e → ∀ m ∈ first :: later, m.Reports h e)
      ∧ (p.Obeys (Policy.tagged h) Handle.Intrinsic →
          ∀ start ∈ p.history allowance (Realm.fresh strict host), ∀ b,
            start.realm.MakesWrapper h first.realm b → ∀ m ∈ first :: later, m.Unwraps h b) := by
  have hsound : ∀ start ∈ p.history allowance (Realm.fresh strict host),
      ∃ w : World σ, w.Sound Policy.free ∧ w.realm = start.realm := fun start hstart =>
    Program.history_sound (p.obeys_free Handle.Intrinsic) (fun _ hh => hh.elim) hstart
  refine ⟨fun before hbefore m hm => Program.history_sameSlots hrun hlive hbefore hm, ?_, ?_⟩
  · intro start hstart e hmade m hm
    obtain ⟨w, hw, hrealm⟩ := hsound start hstart
    rw [← hrealm] at hmade
    have hfirst := hmade.error? hw
    apply Moment.reports
    rcases List.mem_cons.mp hm with rfl | hm
    · exact hfirst
    · obtain ⟨before, hbefore, herror⟩ := Option.bind_eq_some_iff.mp hfirst
      obtain ⟨now, hnow, hsame, -⟩ := Program.history_sameSlots hrun hlive hbefore hm
      rw [Realm.error?, hnow, Option.bind_some, hsame.error]
      exact herror
  · intro hp start hstart b hmade m hm
    obtain ⟨w, hw, hrealm⟩ := hsound start hstart
    rw [← hrealm] at hmade
    have hfirst := hmade.boxed? hw
    apply Moment.unwraps
    rcases List.mem_cons.mp hm with rfl | hm
    · exact hfirst
    · obtain ⟨before, hbefore, hboxed⟩ := Option.bind_eq_some_iff.mp hfirst
      obtain ⟨now, hnow, hsame, htag⟩ := Program.history_sameSlots hrun hlive hbefore hm
      rw [Realm.boxed?, hnow, Option.bind_some, hsame.primitive, htag hp]
      exact hboxed

end Runs

/-- A program that makes an error, gives it another message and throws it. -/
def Program.disguising : Program Unit :=
  .ask (.createError .typeError "lost") fun e =>
    .ask (.putValue (.property e "message" false) (.ofText "found")) fun _ => .finish (.thrown e)

/-- When it throws the error, that is still an error and reported with the message
that it was made with. -/
theorem Program.internal_slots_fixed_disguising :
    ∃ (m : Moment Unit) (h : Handle), m ∈ Program.disguising.history 0 (Realm.fresh false ())
      ∧ m.realm.arena.getOwn h "message" = some (.hidden (.ofText "found"))
      ∧ m.realm.arena.tag? h = some .error ∧ m.Reports h ⟨.typeError, "lost"⟩ := by
  obtain ⟨h, r₁, r₂, hrun, hmade, htag, hlive, hmessage⟩ : ∃ (h : Handle) (r₁ r₂ : Realm Unit),
      Program.disguising.history 0 (Realm.fresh false ())
          = [⟨.begun, Realm.fresh false ()⟩, ⟨.written, r₁⟩,
              ⟨.answered (.createError .typeError "lost") (.object h), r₁⟩, ⟨.written, r₂⟩,
              ⟨.answered (.putValue (.property (.object h) "message" false) (.ofText "found"))
                (.ok ⟨⟩), r₂⟩]
        ∧ (Realm.fresh false ()).MakesError h r₁ ⟨.typeError, "lost"⟩
        ∧ r₁.arena.tag? h = some .error
        ∧ (r₂.arena.get? h).isSome = true
        ∧ r₂.arena.getOwn h "message" = some (.hidden (.ofText "found")) :=
    ⟨_, _, _, rfl, .requested (n := 0) rfl, rfl, rfl, rfl⟩
  have hstretch : ⟨.answered (.createError .typeError "lost") (.object h), r₁⟩ :: [⟨.written, r₂⟩]
      <:+: Program.disguising.history 0 (Realm.fresh false ()) := by
    rw [hrun]
    exact ⟨[_, _], [_], rfl⟩
  have hthere : ∀ m ∈ [(⟨.written, r₂⟩ : Moment Unit)], (m.realm.arena.get? h).isSome = true := by
    intro m hm
    rw [List.mem_singleton.mp hm]
    exact hlive
  have hobeys : Program.disguising.Obeys Policy.unedited Handle.Intrinsic :=
    ⟨trivial, fun _ _ => .inl trivial, fun _ =>
      ⟨trivial, fun _ _ => .inl trivial, fun _ _ _ => .inl trivial⟩⟩
  obtain ⟨hslots, hreports, -⟩ := Program.internal_slots_fixed hstretch hthere
  obtain ⟨before, hbefore, htag⟩ := Option.map_eq_some_iff.mp htag
  obtain ⟨now, hnow, -, hsame⟩ := hslots before hbefore _ List.mem_cons_self
  refine ⟨⟨.written, r₂⟩, h, hstretch.subset (.tail _ (.head _)), hmessage, ?_, ?_⟩
  · rw [Arena.tag?, hnow, Option.map_some, hsame (hobeys.tagged h), htag]
  · exact hreports ⟨.begun, Realm.fresh false ()⟩ (hrun ▸ .head _) _ hmade _ (.tail _ (.head _))

end ScriptRealm
