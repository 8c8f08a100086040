import ScriptRealm.Proofs.Permanence
import ScriptRealm.Proofs.Runs

/-!
# Validation — the verdict on a requested change

The language describes what is under a key by a `Property`: of one kind, with
every attribute of it. `Property.validate` is the language's own rule for a
requested change (ValidateAndApplyPropertyDescriptor): from what is under the
key and whether the object takes new properties it gives what will be under
the key, or rejects the request. It is written in the order of that rule and
knows nothing of how properties are stored.

Objects store descriptors, whose attributes may each be absent.
`RealmM.define_validates` says that a request that names one kind at most, to
an object whose stored descriptors are complete, has exactly that verdict and
that result, and that nothing else changes.
-/

namespace ScriptRealm

/-- What is under a key. -/
inductive Property where
  | data (value : Value) (writable enumerable configurable : Bool)
  | accessor (get set : Value) (enumerable configurable : Bool)
deriving DecidableEq

namespace Property

/-- The descriptor that says all of the property. -/
def descriptor : Property → Descriptor
  | data value writable enumerable configurable =>
    .data value writable enumerable configurable
  | accessor get set enumerable configurable =>
    .accessor (some get) (some set) enumerable configurable

/-- The property is listed. -/
def enumerable : Property → Bool
  | data _ _ enumerable _ | accessor _ _ enumerable _ => enumerable

/-- The property can be configured. -/
def configurable : Property → Bool
  | data _ _ _ configurable | accessor _ _ _ configurable => configurable

/-- The property is an accessor. -/
def isAccessor : Property → Bool
  | data .. => false
  | accessor .. => true

/-! ## The rule -/

/-- The new property that a request describes; what it leaves out has its default. -/
def ofRequest (d : Descriptor) : Property :=
  let enumerable := d.enumerable.getD false
  let configurable := d.configurable.getD false
  if d.isAccessor then
    accessor (d.get.getD .undefined) (d.set.getD .undefined) enumerable configurable
  else data (d.value.getD .undefined) (d.writable.getD false) enumerable configurable

/-- A present value and a requested one that is not the same. -/
def differs (requested : Option Value) (present : Value) : Bool :=
  requested.any fun v => !v.sameValue present

/-- The request must be rejected: the property cannot be configured, and the
request makes it configurable, changes its listing or its kind, changes a
function of an accessor, or changes the value or raises the flag of what cannot
be written. -/
def rejects (p : Property) (d : Descriptor) : Bool :=
  !p.configurable
    && (d.configurable == some true
      || d.enumerable.any (· != p.enumerable)
      || (!d.isGeneric && d.isAccessor != p.isAccessor)
      || match p with
        | accessor get set _ _ => differs d.get get || differs d.set set
        | data value writable _ _ =>
          !writable && (d.writable == some true || differs d.value value))

/-- The property after the request. A change of kind keeps what both kinds have;
otherwise every attribute that the request leaves out is kept. -/
def changed (p : Property) (d : Descriptor) : Property :=
  let enumerable := d.enumerable.getD p.enumerable
  let configurable := d.configurable.getD p.configurable
  match p with
  | data value writable _ _ =>
    if d.isAccessor then
      accessor (d.get.getD .undefined) (d.set.getD .undefined) enumerable configurable
    else data (d.value.getD value) (d.writable.getD writable) enumerable configurable
  | accessor get set _ _ =>
    if d.isData then
      data (d.value.getD .undefined) (d.writable.getD false) enumerable configurable
    else accessor (d.get.getD get) (d.set.getD set) enumerable configurable

/-- What is under the key after the request, or `none` when it is rejected. -/
def validate (extensible : Bool) (current : Option Property) (d : Descriptor) :
    Option Property :=
  match current with
  | none => if extensible then some (ofRequest d) else none
  | some p => if p.rejects d then none else some (p.changed d)

/-! ## Descriptors follow the rule -/

theorem exists_of_whole {d : Descriptor} (hd : d.Whole) : ∃ p : Property, d = p.descriptor := by
  cases hd with
  | data value writable enumerable configurable =>
    exact ⟨.data value writable enumerable configurable, rfl⟩
  | accessor get set enumerable configurable =>
    exact ⟨.accessor get set enumerable configurable, rfl⟩

theorem complete_eq {d : Descriptor} (hd : ¬ d.Mixed) : d.complete = (ofRequest d).descriptor := by
  unfold ofRequest
  rcases Descriptor.unmixed_cases hd with haccessor | ⟨hdata, haccessor⟩
  · rw [Descriptor.complete_of_not_isAccessor haccessor, haccessor]
    rfl
  · rw [Descriptor.complete_of_isAccessor hdata haccessor, haccessor]
    rfl

theorem merge_eq (p : Property) {d : Descriptor} (hd : ¬ d.Mixed) :
    p.descriptor.merge d = (p.changed d).descriptor := by
  unfold changed
  rcases Descriptor.unmixed_cases hd with haccessor | ⟨hdata, haccessor⟩
  · cases p with
    | data value writable enumerable configurable =>
      rw [descriptor, Descriptor.merge_data haccessor, haccessor]
      rfl
    | accessor get set enumerable configurable =>
      cases hdata : d.isData with
      | false =>
        rw [descriptor, Descriptor.merge_accessor hdata]
        rfl
      | true =>
        rw [descriptor, Descriptor.merge_accessor_of_isData haccessor hdata]
        rfl
  · cases p with
    | data value writable enumerable configurable =>
      rw [descriptor, Descriptor.merge_data_of_isAccessor hdata haccessor, haccessor]
      rfl
    | accessor get set enumerable configurable =>
      rw [descriptor, Descriptor.merge_accessor hdata, hdata]
      rfl

theorem keeps_eq (requested : Option Value) (present : Value) :
    Descriptor.keeps requested (some present) = !differs requested present := by
  cases requested with
  | none => rfl
  | some v => simp [Descriptor.keeps, differs, Value.identical_eq_sameValue]

/-- A flag that cannot change is left out, or is the present one. -/
theorem sameFlag_eq (requested : Option Bool) (present : Bool) :
    (requested.isNone || requested == some present) = !requested.any (· != present) := by
  cases requested with
  | none => rfl
  | some b => simp [bne]

theorem allows_eq (p : Property) (d : Descriptor) : p.descriptor.allows d = !p.rejects d := by
  have hfixed : ∀ b : Bool, (!(some b == some false)) = b := by decide
  cases p with
  | data value writable enumerable configurable =>
    have hkind : (descriptor (.data value writable enumerable configurable)).isAccessor = false :=
      rfl
    rw [Descriptor.allows, rejects, hkind, if_neg Bool.false_ne_true]
    simp only [descriptor, Descriptor.data, Property.configurable, Property.enumerable, isAccessor,
      hfixed, sameFlag_eq, keeps_eq, bne, Bool.not_and, Bool.not_or, Bool.not_not]
  | accessor get set enumerable configurable =>
    have hkind : (descriptor (.accessor get set enumerable configurable)).isAccessor = true := rfl
    rw [Descriptor.allows, rejects, hkind, if_pos rfl]
    simp only [descriptor, Descriptor.accessor, Property.configurable, Property.enumerable,
      isAccessor, hfixed, sameFlag_eq, keeps_eq, Option.getD_some, bne, Bool.not_and,
      Bool.not_or, Bool.not_not]

end Property

/-! ## Objects follow the rule -/

namespace Object

variable {β : Type}

/-- The property under the key is as the descriptor says, and nothing else has
changed. A key that was not stored comes last. -/
structure ChangedAt (key : String) (d : Descriptor) (o o' : Object β) : Prop where
  own : o'.getOwn key = some d
  others : ∀ other, other ≠ key → o'.getOwn other = o.getOwn other
  names : o'.properties.names
    = if o.properties.contains key then o.properties.names else o.properties.names ++ [key]
  rest : o' = { o with properties := o'.properties }

theorem changedAt_store (o : Object β) (key : String) (d : Descriptor) :
    o.ChangedAt key d (o.store key d) where
  own := by rw [getOwn_store, if_pos rfl]
  others other hne := by rw [getOwn_store, if_neg hne]
  names := by
    cases hkey : o.properties.contains key with
    | true => exact Table.names_insert_of_contains d hkey
    | false => exact Table.names_insert_of_not_contains d hkey
  rest := rfl

/-- A complete object has a property, with all of its attributes, or nothing under
a key. -/
theorem Whole.exists_property {o : Object β} (ho : o.Whole) (key : String) :
    ∃ current : Option Property, o.getOwn key = current.map Property.descriptor := by
  cases hown : o.getOwn key with
  | none => exact ⟨none, rfl⟩
  | some d =>
    obtain ⟨p, rfl⟩ := Property.exists_of_whole (ho.getOwn hown)
    exact ⟨some p, rfl⟩

/-- The change that a request makes is the one the rule gives. -/
theorem define?_eq {o : Object β} {key : String} {current : Option Property}
    (hcurrent : o.getOwn key = current.map Property.descriptor) {d : Descriptor}
    (hd : ¬ d.Mixed) :
    o.define? key d
      = (Property.validate o.extensible current d).map fun p => o.store key p.descriptor := by
  unfold define? Property.validate
  rw [hcurrent]
  cases current with
  | none =>
    rw [Property.complete_eq hd]
    cases o.extensible <;> rfl
  | some p =>
    simp only [Option.map_some]
    rw [Property.allows_eq, Property.merge_eq p hd]
    cases p.rejects d <;> rfl

end Object

variable {σ : Type} {runner : Runner σ}

/-- An accepted request leaves the changed object, and a refused one nothing. -/
theorem RealmM.run_define {r : Realm σ} {h : Handle} {o : Object (Behavior σ)}
    (ho : r.arena.get? h = some o) (key : String) (d : Descriptor) :
    (define h key d).run runner r = some ((o.define? key d).elim (false, r)
      fun o' => (true, r.withArena (·.modify h fun _ => o'))) := by
  cases haccepted : o.define? key d with
  | none =>
    have hdefine : r.arena.define? h key d = none := by
      rw [Arena.define?, ho, Option.bind_some, haccepted, Option.map_none]
    rw [define, run_modifyGet, hdefine]
    rfl
  | some o' =>
    have hdefine : r.arena.define? h key d = some (r.arena.modify h fun _ => o') := by
      rw [Arena.define?, ho, Option.bind_some, haccepted, Option.map_some]
    rw [define, run_modifyGet, hdefine]
    rfl

/-- A request has the verdict of the rule. When it is rejected nothing changes,
and otherwise the property that the rule gives is under the key, and that is all
that changes. -/
theorem RealmM.define_validates {r : Realm σ} {h : Handle} {o : Object (Behavior σ)}
    (ho : r.arena.get? h = some o) (hwhole : o.Whole) {d : Descriptor} (hd : ¬ d.Mixed)
    (key : String) (runner : Runner σ) :
    ∃ current : Option Property, o.getOwn key = current.map Property.descriptor ∧
      match Property.validate o.extensible current d with
      | none => (define h key d).run runner r = some (false, r)
      | some p => ∃ o', o.ChangedAt key p.descriptor o' ∧
          (define h key d).run runner r = some (true, r.withArena (·.modify h fun _ => o')) := by
  obtain ⟨current, hcurrent⟩ := hwhole.exists_property key
  refine ⟨current, hcurrent, ?_⟩
  rw [run_define ho, Object.define?_eq hcurrent hd]
  cases Property.validate o.extensible current d with
  | none => rfl
  | some p => exact ⟨_, o.changedAt_store key p.descriptor, rfl⟩

/-- The prototype of strings makes up a `length` of zero, and a request to make it
the other zero is rejected. -/
theorem RealmM.define_validates_stringPrototype :
    (Intrinsic.prototype .string).placed.Whole (β := Behavior Unit)
      ∧ ¬ ({ value := some (.number Binary64.zero.negate) } : Descriptor).Mixed
      ∧ (Intrinsic.prototype .string).placed.getOwn (β := Behavior Unit) "length"
        = some (.frozen (.number Binary64.zero))
      ∧ (define (Intrinsic.prototype .string).handle "length"
          { value := some (.number Binary64.zero.negate) }).run (Behavior.run 0)
          (Realm.fresh false ())
        = some (false, Realm.fresh false ()) := by
  have hwhole : (Intrinsic.prototype .string).placed.Whole (β := Behavior Unit) :=
    (Intrinsic.prototype .string).object_whole (σ := Unit)
  have hunmixed : ¬ ({ value := some (.number Binary64.zero.negate) } : Descriptor).Mixed :=
    fun hno => Bool.noConfusion hno.2
  have hown : (Intrinsic.prototype .string).placed.getOwn (β := Behavior Unit) "length"
      = some (.frozen (.number Binary64.zero)) := by decide +kernel
  refine ⟨hwhole, hunmixed, hown, ?_⟩
  obtain ⟨current, hcurrent, hverdict⟩ :=
    define_validates (Arena.get?_fresh_handle (Intrinsic.prototype_mem .string)) hwhole hunmixed
      "length" (Behavior.run 0) (r := Realm.fresh false ())
  rw [hown] at hcurrent
  obtain ⟨p, rfl, hp⟩ := Option.map_eq_some_iff.mp hcurrent.symm
  cases p with
  | accessor => cases hp
  | data value writable enumerable configurable =>
    cases hp
    exact hverdict

end ScriptRealm
