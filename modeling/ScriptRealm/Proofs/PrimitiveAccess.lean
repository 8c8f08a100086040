import ScriptRealm.Proofs.Boxing
import ScriptRealm.Proofs.Strictness

/-!
# PrimitiveAccess — the wrapper that nobody meets

A reference whose base is a primitive boxes it while its property is read, written or
deleted, and gives the slot back. An `Access` is what that comes to: an answer, an
error, or the call of a getter or setter, which sees the primitive and not the wrapper.
It is read off the property found, which the primitive makes up or a prototype has.

`Realm.Ephemeral` is what an access of each kind leaves. An answer leaves every slot as
it was, and an error adds itself. A function is called from the realm with the wrapper
in it (`Realm.Borrows`); whatever it does there, nested accesses included, the wrapper
is still in its slot when it ends, and what it has done is all that is left when the
slot has been given back.
-/

namespace ScriptRealm

/-- What an access to a property of a primitive comes to. -/
inductive Access (α : Type) where
  /-- It is answered. -/
  | answered (a : α)
  /-- An error is thrown. -/
  | refused (why : Fault)
  /-- A function is called with the primitive as receiver, and its value is used. -/
  | calling (f : Value) (args : List Value) (finish : Value → α)

namespace Access

variable {α : Type}

/-- Sloppy code gets an answer, strict code an error. -/
def refusing (strict : Bool) (why : Fault) (a : α) : Access α :=
  if strict then refused why else answered a

/-- Reading the property that has been found. -/
def ofGet : Option Descriptor → Access Value
  | none => answered .undefined
  | some d =>
    if d.isAccessor then
      if (d.get.getD .undefined).isUndefined then answered .undefined
      else calling (d.get.getD .undefined) [] id
    else answered (d.value.getD .undefined)

/-- Writing where a property has been found: only a setter takes the value. -/
def ofPut (key : String) (p v : Value) (strict : Bool) : Option Descriptor → Access Unit
  | none => refusing strict (.primitiveReceiver key p) ⟨⟩
  | some d =>
    if d.isAccessor then
      if (d.set.getD .undefined).isUndefined then refusing strict (.getterOnly key p) ⟨⟩
      else calling (d.set.getD .undefined) [v] fun _ => ⟨⟩
    else if d.writable == some false then refusing strict (.readOnlyProperty key p) ⟨⟩
    else refusing strict (.primitiveReceiver key p) ⟨⟩

/-- Deleting where the primitive makes a property up, or none. -/
def ofDelete (key : String) (tag : ObjectClass) (strict : Bool) : Option Descriptor → Access Bool
  | none => answered true
  | some _ => refusing strict (.undeletable key tag) false

/-- Carries out an access. -/
def perform [Printer] {σ : Type} (receiver : Value) : Access α → ScriptM σ α
  | answered a => pure a
  | refused why => ScriptM.raise why
  | calling f args finish => finish <$> ScriptM.callForValue f receiver args

/-- An error that it throws is one of the type kind. -/
def Typed (access : Access α) : Prop := ∀ why, access = refused why → why.kind = .typeError

theorem refusing_typed {strict : Bool} {why : Fault} (hwhy : why.kind = .typeError) (a : α) :
    (refusing strict why a).Typed := by
  intro why' h
  unfold refusing at h
  split at h <;> cases h
  exact hwhy

theorem ofGet_typed (found : Option Descriptor) : (ofGet found).Typed := by
  intro why h
  unfold ofGet at h
  split at h
  · cases h
  · split at h
    · split at h <;> cases h
    · cases h

theorem ofPut_typed (key : String) (p v : Value) (strict : Bool) (found : Option Descriptor) :
    (ofPut key p v strict found).Typed := by
  unfold ofPut
  split
  · exact refusing_typed rfl _
  · split
    · split
      · exact refusing_typed rfl _
      · exact nofun
    · split <;> exact refusing_typed rfl _

theorem ofDelete_typed (key : String) (tag : ObjectClass) (strict : Bool)
    (made : Option Descriptor) : (ofDelete key tag strict made).Typed := by
  cases made with
  | none => exact nofun
  | some d => exact refusing_typed rfl _

end Access

variable {σ α β : Type} {runner : Runner σ} {watch : Watch σ} {r : Realm σ} {p : Boxed}

/-! ## What an access leaves -/

/-- Every handle stands for what it stood for, and nothing but the order of slots may
have changed. -/
structure Realm.Same (r r' : Realm σ) : Prop where
  objects : ∀ h, r'.arena.get? h = r.arena.get? h
  live : r'.arena.live = r.arena.live
  realm : r' = { r with arena := r'.arena }

theorem Realm.Same.refl (r : Realm σ) : r.Same r := ⟨fun _ => rfl, rfl, rfl⟩

/-- The primitive is put into a wrapper, the function is called with the primitive as
receiver, and the slot of the wrapper is given back. -/
structure Realm.Borrows [Printer] (r : Realm σ) (p : Boxed) (f : Value) (args : List Value)
    (finish : Value → α) (m : RealmM σ (Except Value α)) (w : Handle) (boxed : Realm σ) :
    Prop where
  gains : r.Gains (.wrapper (RealmM.wrapperPrototype p).handle p) w boxed
  /-- Nothing happens but the call. -/
  moments : ∀ runner watch, m.moments runner watch r
    = ⟨.written, boxed⟩ :: (RealmM.call f p.toValue args).moments runner watch boxed
      ++ ((RealmM.call f p.toValue args).run runner boxed).elim [] fun ended =>
        [⟨.written, ended.2.withArena (·.release w)⟩]
  run : ∀ runner, m.run runner r
    = ((RealmM.call f p.toValue args).run runner boxed).map fun ended =>
      (ended.1.result.map finish, ended.2.withArena (·.release w))
  /-- Of what the call leaves the wrapper is taken away, and nothing else. -/
  loses : ∀ n c r', (RealmM.call f p.toValue args).run (Behavior.run n) boxed = some (c, r') →
    r'.Loses w (r'.withArena (·.release w))

/-- What an access of each kind leaves. -/
def Realm.Ephemeral [Printer] (r : Realm σ) (p : Boxed) (m : RealmM σ (Except Value α)) :
    Access α → Prop
  | .answered a => ∃ r', (∀ runner, m.run runner r = some (.ok a, r')) ∧ r.Same r'
  | .refused why => why.kind = .typeError
    ∧ ∃ h r', (∀ runner, m.run runner r = some (.error (.object h), r')) ∧ r.Gains why.toError h r'
  | .calling f args finish => ∃ w boxed, r.Borrows p f args finish m w boxed

/-! ## The wrapper -/

namespace Realm

/-- What comes and goes leaves no trace. -/
theorem Gains.same {o : Object (Behavior σ)} {h : Handle} {r₁ r₂ : Realm σ}
    (hgains : r.Gains o h r₁) (hloses : r₁.Loses h r₂) : r.Same r₂ where
  objects g := by
    by_cases hg : g = h
    · rw [hg, hloses.gone, hgains.unused]
    · rw [hloses.others g hg, hgains.others g hg]
  live := Nat.succ.inj (hloses.live.trans hgains.live)
  realm := by rw [hloses.realm, hgains.realm]

/-- An object that comes between stays. -/
theorem Gains.between {o e : Object (Behavior σ)} {h g : Handle} {r₁ r₂ r₃ : Realm σ}
    (hgains : r.Gains o h r₁) (herror : r₁.Gains e g r₂) (hloses : r₂.Loses h r₃) :
    r.Gains e g r₃ := by
  have hne : h ≠ g := herror.ne (Option.isSome_of_eq_some hgains.object)
  exact {
    unused := by rw [← hgains.others g hne.symm, herror.unused]
    object := by rw [hloses.others g hne.symm, herror.object]
    others := by
      intro x hx
      by_cases hbox : x = h
      · rw [hbox, hloses.gone, hgains.unused]
      · rw [hloses.others x hbox, herror.others x hx, hgains.others x hbox]
    live := by
      have hlive := hloses.live
      rw [herror.live, hgains.live] at hlive
      exact Nat.succ.inj hlive
    realm := by rw [hloses.realm, herror.realm, hgains.realm] }

/-- What has properties on the way is as it was. -/
theorem Gains.findSome?_kept {o : Object (Behavior σ)} {h g : Handle} {r' : Realm σ}
    {l : List Handle} (hgains : r.Gains o h r') (hl : r.arena.Ancestry g l) (key : String) :
    l.findSome? (r'.arena.getOwn · key) = l.findSome? (r.arena.getOwn · key) := by
  induction hl with
  | root object link =>
    simp only [List.findSome?_cons, Arena.getOwn_of_get? object,
      Arena.getOwn_of_get? (hgains.kept object), List.findSome?_nil]
  | step object link rest ih =>
    simp only [List.findSome?_cons, Arena.getOwn_of_get? object,
      Arena.getOwn_of_get? (hgains.kept object), ih]

/-- The search from a new wrapper finds what the primitive makes up, and else what is
found from the prototype. -/
theorem Gains.find? {w : Handle} {r' : Realm σ} {l : List Handle}
    (hgains : r.Gains (.wrapper (RealmM.wrapperPrototype p).handle p) w r')
    (hl : r.arena.Ancestry (RealmM.wrapperPrototype p).handle l) (key : String) :
    r'.arena.find? w key
      = (p.madeUp? key).or (r.arena.find? (RealmM.wrapperPrototype p).handle key) := by
  have hup : r'.arena.Ancestry (RealmM.wrapperPrototype p).handle l :=
    hl.transport fun g _ o ho => ⟨o, hgains.kept ho, rfl⟩
  rw [Arena.find?, (Arena.Ancestry.step hgains.object rfl hup).chain_eq, List.findSome?_cons,
    Arena.getOwn_of_get? hgains.object, Object.getOwn_wrapper, hgains.findSome?_kept hl,
    Arena.find?, hl.chain_eq]
  cases p.madeUp? key <;> rfl

/-- The wrapper is still there when a function that has been called meanwhile ends. -/
theorem box_survives [Printer] (wf : r.arena.WellFormed) {f this : Value} {args : List Value}
    {n : Nat} {c : Completion} {r' : Realm σ}
    (hrun : (RealmM.call f this args).run (Behavior.run n) (r.withBox p) = some (c, r')) :
    r'.Loses r.arena.upcoming (r'.withArena (·.release r.arena.upcoming)) := by
  have hw := World.sound_of_wellFormed wf
  have hmove : Move Policy.free ⟨r, []⟩ ⟨r.withBox p, [r.arena.upcoming]⟩ := .box p
  have hboxed := hmove.sound hw
  obtain ⟨w, rfl, hlater, -⟩ := (RealmM.Sound.call hboxed f (World.fits_free _ this)
    (World.fits_free _ args)).later (Behavior.accounts n) hboxed hrun
  refine loses_release hlater.sound.arena (hlater.sound.boxes_live _ ?_)
  rw [hlater.boxes]
  exact List.mem_singleton_self _

end Realm

namespace ScriptM

/-- An access with the wrapper made before it and given back after it. -/
theorem attempt_autoboxed [Printer] (p : Boxed) (use : Handle → ScriptM σ α) :
    (autoboxed p.toValue use).attempt = (do
      let w ← RealmM.newWrapper p
      let outcome ← (use w).attempt
      RealmM.release w
      pure outcome) := by
  have hbase : autoboxed p.toValue use = (do
      let w ← lift (RealmM.newWrapper p)
      let outcome ← lift (use w).attempt
      lift (RealmM.release w)
      ofExcept outcome) := by
    rw [← toObject_toValue]
    cases p <;> rfl
  rw [hbase, attempt, lift, ExceptT.run_bind_lift]
  apply bind_congr
  intro w
  rw [lift, ExceptT.run_bind_lift]
  apply bind_congr
  intro outcome
  rw [lift, ExceptT.run_bind_lift]
  rfl

/-- What is done with the result may be done while the wrapper is there. -/
theorem autoboxed_map [Printer] (f : α → β) (p : Boxed) (use : Handle → ScriptM σ α) :
    f <$> autoboxed p.toValue use = autoboxed p.toValue fun o => f <$> use o := by
  apply ExceptT.ext
  show (f <$> autoboxed p.toValue use).attempt = (autoboxed p.toValue _).attempt
  rw [attempt_map, attempt_autoboxed, attempt_autoboxed]
  simp only [attempt_map, map_bind, map_pure, bind_map_left]

theorem run_autoboxed [Printer] (p : Boxed) (use : Handle → ScriptM σ α) (r : Realm σ) :
    (autoboxed p.toValue use).attempt.run runner r
      = ((use r.arena.upcoming).attempt.run runner (r.withBox p)).map fun ended =>
        (ended.1, ended.2.withArena (·.release r.arena.upcoming)) := by
  rw [attempt_autoboxed, RealmM.run_bind, RealmM.run_newWrapper, Option.bind_some, RealmM.run_bind,
    Option.map_eq_bind]
  rfl

theorem moments_autoboxed [Printer] (p : Boxed) (use : Handle → ScriptM σ α) (r : Realm σ) :
    (autoboxed p.toValue use).attempt.moments runner watch r
      = ⟨.written, r.withBox p⟩
        :: (use r.arena.upcoming).attempt.moments runner watch (r.withBox p)
        ++ ((use r.arena.upcoming).attempt.run runner (r.withBox p)).elim [] fun ended =>
          [⟨.written, ended.2.withArena (·.release r.arena.upcoming)⟩] := by
  rw [attempt_autoboxed, RealmM.moments_bind, RealmM.run_newWrapper, Option.elim_some,
    RealmM.moments_bind]
  rfl

end ScriptM

namespace Realm

/-- A new wrapper is used as an access says: then that is left which it leaves. -/
theorem ephemeral_of_alike [Printer] (wf : r.arena.WellFormed) {use : Handle → ScriptM σ α}
    {access : Access α} (htyped : access.Typed)
    (halike : RealmM.Alike (r.withBox p) (use r.arena.upcoming).attempt
      (access.perform p.toValue : ScriptM σ α).attempt) :
    r.Ephemeral p (ScriptM.autoboxed p.toValue use).attempt access := by
  have hgains := gains_withBox wf p
  have wfBox : (r.withBox p).arena.WellFormed := wf.allocate _
  have hlive := Option.isSome_of_eq_some hgains.object
  cases access with
  | answered a =>
    refine ⟨_, fun runner => ?_, hgains.same (loses_release wfBox hlive)⟩
    rw [ScriptM.run_autoboxed, halike.run]
    rfl
  | refused why =>
    have herror := gains_allocate wfBox why.toError
    refine ⟨htyped why rfl, _, _, fun runner => ?_, hgains.between herror
      (loses_release (wfBox.allocate _) ?_)⟩
    · rw [ScriptM.run_autoboxed, halike.run]
      show ((ScriptM.raise why : ScriptM σ α).attempt.run runner _).map _ = _
      rw [ScriptM.run_raise]
      rfl
    · rw [herror.kept hgains.object]
      rfl
  | calling f args finish =>
    have hperform : ((Access.calling f args finish).perform p.toValue : ScriptM σ α).attempt
        = Except.map finish <$> Completion.result <$> RealmM.call f p.toValue args :=
      ScriptM.attempt_map ..
    refine ⟨_, _, hgains, fun runner watch => ?_, fun runner => ?_,
      fun n c r' hrun => box_survives wf hrun⟩
    · rw [ScriptM.moments_autoboxed, halike.moments, halike.run, hperform, RealmM.moments_map,
        RealmM.moments_map, RealmM.run_map, RealmM.run_map]
      cases (RealmM.call f p.toValue args).run runner (r.withBox p) <;> rfl
    · rw [ScriptM.run_autoboxed, halike.run, hperform, RealmM.run_map, RealmM.run_map,
        Option.map_map, Option.map_map]
      rfl

end Realm

/-! ## The three accesses -/

theorem RealmM.Alike.map {m m' : RealmM σ α} (h : Alike r m m') (f : α → β) :
    Alike r (f <$> m) (f <$> m') where
  run runner := by rw [run_map, run_map, h.run]
  moments runner watch := by rw [moments_map, moments_map, h.moments]

/-- What a primitive makes up cannot be configured. -/
theorem Boxed.fixed_of_madeUp? (p : Boxed) {key : String} {d : Descriptor}
    (hmade : p.madeUp? key = some d) : d.configurable = some false := by
  cases p with
  | boolean | number => cases hmade
  | string s =>
    obtain ⟨v, enumerable, -, rfl⟩ := Object.unitProperty?_eq_some hmade
    rfl

namespace ScriptM

/-- Reading a property. -/
theorem getProperty_alike [Printer] (r : Realm σ) (o : Handle) (key : String) (receiver : Value) :
    RealmM.Alike r (getProperty o key receiver).attempt
      ((Access.ofGet (r.arena.find? o key)).perform receiver : ScriptM σ Value).attempt := by
  refine (realm_bind_alike r _).trans ?_
  cases r.arena.find? o key with
  | none => exact .refl r _
  | some d =>
    unfold Access.ofGet
    dsimp only
    split
    · split
      · exact .refl r _
      · rw [Access.perform, id_map]
        exact .refl r _
    · exact .refl r _

/-- What is thrown has no result to be used. -/
theorem map_refuse [Printer] (strict : Bool) (why : Fault) (receiver : Value) :
    ((fun _ => ⟨⟩) <$> refuse strict why : ScriptM σ Unit)
      = (Access.refusing strict why ⟨⟩).perform receiver := by
  cases strict <;> rfl

/-- An assignment to a property of a primitive defines nothing, so it is an access. -/
theorem map_perform [Printer] (a : Arena (Behavior σ)) (key : String) (p : Boxed) (v : Value)
    (strict : Bool) (found : Option Descriptor) :
    ((fun _ => ⟨⟩) <$> (Assignment.ofFoundAccessorFirst a key v p.toValue
        (found.getD (.plain .undefined))).perform key v p.toValue strict : ScriptM σ Unit)
      = (Access.ofPut key p.toValue v strict found).perform p.toValue := by
  have hreceiver : Assignment.ofReceiver a key v p.toValue
      = .refused (.primitiveReceiver key p.toValue) := by
    simp [Assignment.ofReceiver]
  unfold Assignment.ofFoundAccessorFirst Access.ofPut
  cases found with
  | none => exact hreceiver ▸ map_refuse ..
  | some d =>
    rw [Option.getD_some, hreceiver, Assignment.ofAccessor]
    dsimp only
    split
    · split
      · exact map_refuse ..
      · simp only [Assignment.perform, Access.perform, bind_pure_comp, Functor.map_map]
    · split <;> exact map_refuse ..

/-- Writing a property with a primitive as receiver. -/
theorem setProperty_primitive_alike [Printer] (r : Realm σ) (o : Handle) (key : String) (p : Boxed)
    (v : Value) (strict : Bool) :
    RealmM.Alike r ((fun _ => ⟨⟩) <$> setProperty o key v p.toValue strict : ScriptM σ Unit).attempt
      ((Access.ofPut key p.toValue v strict (r.arena.find? o key)).perform p.toValue
        : ScriptM σ Unit).attempt := by
  have hreceiver : ∀ t, p.toValue.handle? = some t → (r.arena.get? t).isSome = true := by
    simp
  rw [← map_perform r.arena, attempt_map, attempt_map]
  exact (setProperty_alike hreceiver o key v strict).map _

/-- What a primitive makes up cannot be deleted from its wrapper. -/
theorem deleteProperty_wrapper_alike [Printer] {r : Realm σ} {o up : Handle} {n : Nat} {p : Boxed}
    (hbox : r.arena.get? o = some { Object.wrapper up p with id := n }) (key : String)
    (strict : Bool) :
    RealmM.Alike r (deleteProperty o key strict).attempt
      ((Access.ofDelete key p.wrapperClass strict (p.madeUp? key)).perform p.toValue
        : ScriptM σ Bool).attempt := by
  refine (realm_bind_alike r _).trans ?_
  simp only [hbox, Object.getOwn_wrapper]
  cases hmade : p.madeUp? key with
  | none => exact .refl r _
  | some d =>
    have hfixed : d.configurable = some false := p.fixed_of_madeUp? hmade
    simp only [hfixed]
    cases strict <;> exact .refl r _

end ScriptM

namespace Realm

section Reached

variable {l : List Handle} (wf : r.arena.WellFormed)
  (hl : r.arena.Ancestry (RealmM.wrapperPrototype p).handle l) (key : String) (strict : Bool)

include wf hl

theorem ephemeral_getValue [Printer] :
    r.Ephemeral p (ScriptM.getValue (.property p.toValue key strict)).attempt
      (.ofGet ((p.madeUp? key).or (r.arena.find? (RealmM.wrapperPrototype p).handle key))) := by
  have hvalue : (ScriptM.getValue (.property p.toValue key strict) : ScriptM σ Value)
      = ScriptM.autoboxed p.toValue fun o => ScriptM.getProperty o key p.toValue := by
    cases p <;> rfl
  rw [hvalue, ← (gains_withBox wf p).find? hl key]
  exact ephemeral_of_alike wf (Access.ofGet_typed _) (ScriptM.getProperty_alike _ _ key p.toValue)

theorem ephemeral_putValue [Printer] (v : Value) :
    r.Ephemeral p (ScriptM.putValue v (.property p.toValue key strict)).attempt
      (.ofPut key p.toValue v strict
        ((p.madeUp? key).or (r.arena.find? (RealmM.wrapperPrototype p).handle key))) := by
  have hvalue : (ScriptM.putValue v (.property p.toValue key strict) : ScriptM σ Unit)
      = (fun _ => ⟨⟩) <$> ScriptM.autoboxed p.toValue fun o =>
        ScriptM.setProperty o key v p.toValue strict := by
    cases p <;> rfl
  rw [hvalue, ScriptM.autoboxed_map, ← (gains_withBox wf p).find? hl key]
  exact ephemeral_of_alike wf (Access.ofPut_typed _ _ _ _ _)
    (ScriptM.setProperty_primitive_alike _ _ key p v strict)

omit hl in
theorem ephemeral_deleteReference [Printer] :
    r.Ephemeral p (ScriptM.deleteReference (.property p.toValue key strict)).attempt
      (.ofDelete key p.wrapperClass strict (p.madeUp? key)) := by
  have hvalue : (ScriptM.deleteReference (.property p.toValue key strict) : ScriptM σ Bool)
      = ScriptM.autoboxed p.toValue fun o => ScriptM.deleteProperty o key strict := by
    cases p <;> rfl
  rw [hvalue]
  exact ephemeral_of_alike wf (Access.ofDelete_typed _ _ _ _)
    (ScriptM.deleteProperty_wrapper_alike (gains_withBox wf p).object key strict)

end Reached

end Realm

/-! ## In every run -/

/-- At any moment of a run, an access to a property of a primitive goes by what the
primitive makes up, and else by what the search from the prototype of its kind finds.
It leaves what a function leaves that is called with the primitive as receiver, or an
error, or nothing. A program may use the handles it has been given, and besides these
only handles that stand for nothing at any time. -/
theorem Program.primitive_access_ephemeral [Printer] {π : Policy σ} {strict : Bool} {host : σ}
    (hhost : ∀ h, π.held host h → π.foreign h ∨ h.Intrinsic) {program : Program σ}
    (hp : program.Obeys π Handle.Intrinsic) {allowance : Nat}
    (hforeign : ∀ m ∈ program.history allowance (Realm.fresh strict host), ∀ h, π.foreign h →
      m.realm.arena.get? h = none)
    {m : Moment σ} (hm : m ∈ program.history allowance (Realm.fresh strict host)) (p : Boxed)
    (key : String) (strictly : Bool) :
    ∃ found,
      m.realm.arena.Search (m.realm.arena.getOwn · key) (some (RealmM.wrapperPrototype p).handle)
          found
        ∧ m.realm.Ephemeral p (ScriptM.getValue (.property p.toValue key strictly)).attempt
          (.ofGet ((p.madeUp? key).or found))
        ∧ (∀ v, m.realm.Ephemeral p
          (ScriptM.putValue v (.property p.toValue key strictly)).attempt
          (.ofPut key p.toValue v strictly ((p.madeUp? key).or found)))
        ∧ m.realm.Ephemeral p (ScriptM.deleteReference (.property p.toValue key strictly)).attempt
          (.ofDelete key p.wrapperClass strictly (p.madeUp? key)) := by
  obtain ⟨w, hw, hrealm⟩ := Program.history_sound hp hhost hm
  have wf : m.realm.arena.WellFormed := hrealm ▸ hw.arena
  have hrooted : m.realm.arena.Rooted := by
    obtain ⟨w', hcourse⟩ := Program.history_course hp hhost allowance
    exact hcourse.rooted_fresh hhost (program.begun_mem_history allowance _) hforeign m hm
  obtain ⟨o, ho, -⟩ := Program.history_intrinsic (RealmM.wrapperPrototype_mem p) hm
  have hl := hrooted.ends _ o ho
  exact ⟨_, hrooted.find _ key, Realm.ephemeral_getValue wf hl key strictly,
    Realm.ephemeral_putValue wf hl key strictly, Realm.ephemeral_deleteReference wf key strictly⟩

/-- The length of a string is read in a fresh realm, which is as it was afterwards, and
strict code gets an error when it deletes it. -/
theorem Program.primitive_access_ephemeral_length :
    (Program.finish (.normal .undefined) : Program Unit).Obeys Policy.orderly Handle.Intrinsic
      ∧ (∃ r, (∀ runner, (ScriptM.getValue (.property (.ofText "ab") "length" true)).attempt.run
          runner (Realm.fresh false ()) = some (.ok (.number (Binary64.ofNat 2)), r))
        ∧ (Realm.fresh false ()).Same r)
      ∧ ∃ h r, (∀ runner,
          (ScriptM.deleteReference (.property (.ofText "ab") "length" true)).attempt.run runner
            (Realm.fresh false ()) = some (.error (.object h), r))
        ∧ (Realm.fresh false ()).Gains (Fault.undeletable "length" .string).toError h r := by
  have hobeys : (Program.finish (.normal .undefined) : Program Unit).Obeys Policy.orderly
      Handle.Intrinsic := fun _ hno => absurd hno List.not_mem_nil
  obtain ⟨found, -, hget, -, hdelete⟩ := Program.primitive_access_ephemeral
    (π := Policy.orderly) (fun _ hno => hno.elim) hobeys (fun _ _ _ hno => hno.elim)
    (Program.begun_mem_history _ 0 _) (.string (Utf16.ofString "ab")) "length" true
  exact ⟨hobeys, hget, hdelete.2⟩

end ScriptRealm
