import ScriptRealm.Proofs.Enumeration
import ScriptRealm.Proofs.Permanence

/-!
# StoredDescriptors — which stored descriptors are of one kind

A stored descriptor always says whether the property is listed and whether it
can be configured. It is whole, a complete descriptor of one kind, unless it is
mixed (`Descriptor.Filled`).

Completing and merging decide the kind by what the request says. A request that
names one kind makes the property whole, whatever it was before; one that names
neither leaves the kind alone; and one that names both makes it mixed, for
nothing refuses such a request (`Descriptor.mixed_merge_iff`). So a stored
property is mixed exactly when, of all accepted requests since its object was
made that named a kind, the last one named both (`Object.Blends`).
`Program.stored_whole_iff` says so of all objects at all moments of the programs
that make no raw edit.
-/

namespace ScriptRealm

variable {σ : Type}

namespace Descriptor

variable {d c u : Descriptor}

/-! ## Whole or mixed -/

theorem Whole.not_mixed (hd : d.Whole) : ¬ d.Mixed := by
  rintro ⟨hdata, haccessor⟩
  cases hd with
  | data => cases haccessor
  | accessor => cases hdata

/-- What is true of every stored descriptor. -/
structure Filled (d : Descriptor) : Prop where
  enumerable : d.enumerable.isSome = true
  configurable : d.configurable.isSome = true
  kind : d.Whole ∨ d.Mixed

theorem Whole.filled (hd : d.Whole) : d.Filled := by
  refine ⟨?_, ?_, .inl hd⟩ <;> cases hd <;> rfl

theorem Filled.whole_iff (hd : d.Filled) : d.Whole ↔ ¬ d.Mixed :=
  ⟨Whole.not_mixed, hd.kind.resolve_right⟩

/-! ## Completing -/

theorem Mixed.complete (hd : d.Mixed) : d.complete.Mixed := by
  have hkind : (d.isGeneric || d.isData) = true := by rw [hd.1, Bool.or_true]
  unfold Descriptor.complete
  rw [if_pos hkind]
  exact ⟨rfl, hd.2⟩

theorem mixed_complete_iff : d.complete.Mixed ↔ d.Mixed := by
  refine ⟨fun hcomplete => ?_, Mixed.complete⟩
  by_contra hd
  exact (whole_complete hd).not_mixed hcomplete

theorem filled_complete (d : Descriptor) : d.complete.Filled := by
  refine ⟨rfl, rfl, ?_⟩
  by_cases hd : d.Mixed
  · exact .inr hd.complete
  · exact .inl (whole_complete hd)

/-! ## Merging -/

theorem enumerable_turned (c u : Descriptor) : (c.turned u).enumerable = c.enumerable := by
  unfold turned
  split
  · rfl
  · split
    · rfl
    · rfl

theorem isSome_orElse {α : Type} {a b : Option α} :
    (a <|> b).isSome = true ↔ a.isSome = true ∨ b.isSome = true := by
  cases a <;> simp

/-- A request for both kinds is granted. -/
theorem mixed_merge (hu : u.Mixed) (c : Descriptor) : (c.merge u).Mixed := by
  obtain ⟨hdata, haccessor⟩ := hu
  rw [isData, Bool.or_eq_true] at hdata
  rw [isAccessor, Bool.or_eq_true] at haccessor
  unfold Mixed merge isData isAccessor
  rw [Bool.or_eq_true, Bool.or_eq_true]
  exact ⟨hdata.imp (isSome_orElse.mpr <| .inl ·) (isSome_orElse.mpr <| .inl ·),
    haccessor.imp (isSome_orElse.mpr <| .inl ·) (isSome_orElse.mpr <| .inl ·)⟩

/-- A request for neither kind leaves both alone. -/
theorem mixed_merge_of_isGeneric (hu : u.isGeneric = true) : (c.merge u).Mixed ↔ c.Mixed := by
  obtain ⟨hdata, haccessor⟩ := isGeneric_iff.mp hu
  obtain ⟨hvalue, hwritable⟩ := isData_eq_false.mp hdata
  obtain ⟨hget, hset⟩ := isAccessor_eq_false.mp haccessor
  have hturned : c.turned u = c := by simp [turned, hdata, haccessor]
  simp [Mixed, merge, hturned, isData, isAccessor, hvalue, hwritable, hget, hset]

/-- A request for one kind makes a mixed property whole. -/
theorem whole_merge_of_mixed (hc : c.Mixed) (henumerable : c.enumerable.isSome = true)
    (hconfigurable : c.configurable.isSome = true) (hu : ¬ u.Mixed) (hkind : u.isGeneric = false) :
    (c.merge u).Whole := by
  obtain ⟨enumerable, henumerable⟩ := Option.isSome_iff_exists.mp henumerable
  obtain ⟨configurable, hconfigurable⟩ := Option.isSome_iff_exists.mp hconfigurable
  obtain ⟨hcdata, hcaccessor⟩ := hc
  rcases unmixed_cases hu with haccessor | ⟨hdata, haccessor⟩
  · have hdata : u.isData = true := by
      cases h : u.isData with
      | true => rfl
      | false => exact absurd (isGeneric_iff.mpr ⟨h, haccessor⟩) (hkind ▸ Bool.false_ne_true)
    obtain ⟨hget, hset⟩ := isAccessor_eq_false.mp haccessor
    have hmerged : c.merge u = .data (u.value.getD .undefined) (u.writable.getD false)
        (u.enumerable.getD enumerable) (u.configurable.getD configurable) := by
      simp [merge, turned, hcaccessor, hdata, haccessor, hget, hset, henumerable, hconfigurable,
        data, orElse_some]
    rw [hmerged]
    exact .data ..
  · obtain ⟨hvalue, hwritable⟩ := isData_eq_false.mp hdata
    have hmerged : c.merge u = .accessor (some (u.get.getD .undefined))
        (some (u.set.getD .undefined)) (u.enumerable.getD enumerable)
        (u.configurable.getD configurable) := by
      simp [merge, turned, hcdata, haccessor, hvalue, hwritable, henumerable, hconfigurable,
        accessor, orElse_some]
    rw [hmerged]
    exact .accessor ..

/-- A merged property is mixed when the request named both kinds, or named
neither and the property was mixed already. -/
theorem mixed_merge_iff (hc : c.Filled) :
    (c.merge u).Mixed ↔ u.Mixed ∨ u.isGeneric = true ∧ c.Mixed := by
  by_cases hu : u.Mixed
  · exact iff_of_true (mixed_merge hu c) (.inl hu)
  cases hkind : u.isGeneric with
  | true => simp [hu, mixed_merge_of_isGeneric hkind]
  | false =>
    have hwhole : (c.merge u).Whole := by
      rcases hc.kind with hwhole | hmixed
      · exact hwhole.merge hu
      · exact whole_merge_of_mixed hmixed hc.enumerable hc.configurable hu hkind
    simp [hu, hwhole.not_mixed]

theorem Filled.merge (hc : c.Filled) (u : Descriptor) : (c.merge u).Filled where
  enumerable := by
    rw [Descriptor.merge, enumerable_turned]
    exact isSome_orElse.mpr (.inr hc.enumerable)
  configurable := by
    rw [Descriptor.merge, configurable_turned]
    exact isSome_orElse.mpr (.inr hc.configurable)
  kind := by
    by_cases hu : u.Mixed
    · exact .inr (mixed_merge hu c)
    rcases hc.kind with hwhole | hmixed
    · exact .inl (hwhole.merge hu)
    cases hkind : u.isGeneric with
    | true => exact .inr ((mixed_merge_of_isGeneric hkind).mpr hmixed)
    | false => exact .inl (whole_merge_of_mixed hmixed hc.enumerable hc.configurable hu hkind)

end Descriptor

namespace Object

/-! ## Objects -/

section Filled

variable {β : Type} {o o' : Object β} {key : String} {d : Descriptor}

/-- All stored properties are filled. -/
def Filled (o : Object β) : Prop := ∀ e ∈ o.properties.entries, e.2.Filled

theorem Whole.filled (ho : o.Whole) : o.Filled := fun e he => (ho e he).filled

theorem Filled.getOwn (ho : o.Filled) (hd : o.getOwn key = some d) : d.Filled := by
  rcases getOwn_cases hd with hstored | ⟨v, enumerable, -, rfl⟩
  · exact ho _ hstored
  · exact (Descriptor.Whole.data ..).filled

theorem Filled.define? (ho : o.Filled) (accepted : o.define? key d = some o') : o'.Filled := by
  have hstore : ∀ {e : Descriptor}, e.Filled → (o.store key e).Filled := by
    intro e he entry hentry
    rcases Table.mem_entries_insert hentry with rfl | hentry
    · exact he
    · exact ho entry hentry
  rcases define?_cases accepted with ⟨-, -, rfl⟩ | ⟨current, hown, -, rfl⟩
  · exact hstore (Descriptor.filled_complete d)
  · exact hstore ((ho.getOwn hown).merge d)

/-- The property under the key is mixed. -/
def Blended (key : String) (o : Object β) : Prop := ∃ d, o.getOwn key = some d ∧ d.Mixed

/-- What a string makes up is not mixed. -/
theorem not_blended_discard (o : Object β) (key : String) : ¬ (o.discard key).Blended key := by
  rintro ⟨d, hd, hmixed⟩
  unfold Object.getOwn discard at hd
  rw [Table.find?_erase, if_pos rfl] at hd
  obtain ⟨s, -, hunit⟩ := Option.bind_eq_some_iff.mp hd
  obtain ⟨v, enumerable, -, rfl⟩ := unitProperty?_eq_some hunit
  exact (Descriptor.Whole.data ..).not_mixed hmixed

/-- A property that a request has changed is mixed when the request named both
kinds, or named neither and the property was mixed already. -/
theorem Filled.blended_define?_iff (ho : o.Filled) (accepted : o.define? key d = some o') :
    o'.Blended key ↔ d.Mixed ∨ d.isGeneric = true ∧ o.Blended key := by
  have hstored : ∀ e : Descriptor, (o.store key e).Blended key ↔ e.Mixed := by
    intro e
    unfold Blended
    rw [getOwn_store, if_pos rfl]
    simp
  rcases define?_cases accepted with ⟨hown, -, rfl⟩ | ⟨current, hown, -, rfl⟩
  · rw [hstored, Descriptor.mixed_complete_iff, Blended, hown]
    simp
  · rw [hstored, Descriptor.mixed_merge_iff (ho.getOwn hown), Blended, hown]
    simp

end Filled

/-! ## Changes -/

variable {o o' birth : Object (Behavior σ)} {key : String}

theorem Change.filled (ho : o.Filled) (h : o.Change Policy.unedited o') : o'.Filled := by
  cases h with
  | same | close | link => exact ho
  | define unmixed accepted => exact ho.define? accepted
  | discard own configurable =>
    intro e he
    exact ho e (Table.mem_entries_erase he)
  | edit e raw => exact raw.elim

/-- A change concerns the property under a key by a request for it or by
deleting it. Otherwise it leaves it as it is. -/
theorem Change.getOwn_cases (h : o.Change Policy.unedited o') (key : String) :
    (∃ d, o.define? key d = some o') ∨ o' = o.discard key ∨ o'.getOwn key = o.getOwn key := by
  cases h with
  | same | close | link => exact .inr (.inr rfl)
  | @define k d _ unmixed accepted =>
    by_cases hkey : key = k
    · exact .inl ⟨d, hkey ▸ accepted⟩
    · obtain ⟨e, rfl⟩ := exists_store_of_define? accepted
      exact .inr (.inr (by rw [getOwn_store, if_neg hkey]))
  | @discard k d own configurable =>
    by_cases hkey : key = k
    · exact .inr (.inl (hkey ▸ rfl))
    · exact .inr (.inr (getOwn_discard_of_ne o hkey))
  | edit e raw => exact raw.elim

/-- Of the accepted requests for the property under the key that named a kind,
the last one since the object was made named both, and the property has not
been deleted after it. -/
inductive Blends (key : String) (birth : Object (Behavior σ)) : Object (Behavior σ) → Prop
  | mixed {o o' : Object (Behavior σ)} {d : Descriptor} (becomes : birth.Becomes Policy.unedited o)
      (mixed : d.Mixed) (accepted : o.define? key d = some o') : Blends key birth o'
  | generic {o o' : Object (Behavior σ)} {d : Descriptor} (blends : Blends key birth o)
      (generic : d.isGeneric = true) (accepted : o.define? key d = some o') : Blends key birth o'
  | elsewhere {o o' : Object (Behavior σ)} (blends : Blends key birth o)
      (change : o.Change Policy.unedited o') (kept : o'.getOwn key = o.getOwn key) :
      Blends key birth o'

theorem Becomes.filled (ho : o.Filled) (h : o.Becomes Policy.unedited o') : o'.Filled := by
  induction h with
  | refl => exact ho
  | tail _ hchange ih => exact hchange.filled ih

/-- Then the property is mixed. -/
theorem Blends.blended (hbirth : birth.Filled) (h : birth.Blends key o) :
    o.Filled ∧ o.Blended key := by
  induction h with
  | mixed becomes mixed accepted =>
    have ho := Becomes.filled hbirth becomes
    exact ⟨ho.define? accepted, (ho.blended_define?_iff accepted).mpr (.inl mixed)⟩
  | generic blends generic accepted ih =>
    exact ⟨ih.1.define? accepted, (ih.1.blended_define?_iff accepted).mpr (.inr ⟨generic, ih.2⟩)⟩
  | elsewhere blends change kept ih =>
    refine ⟨change.filled ih.1, ?_⟩
    rw [Blended, kept]
    exact ih.2

/-- A property gets mixed in no other way. -/
theorem Becomes.blends (hbirth : birth.Whole) (h : birth.Becomes Policy.unedited o)
    (ho : o.Blended key) : birth.Blends key o := by
  induction h with
  | refl =>
    obtain ⟨d, hd, hmixed⟩ := ho
    exact absurd hmixed (hbirth.getOwn hd).not_mixed
  | @tail o o' hbecomes hchange ih =>
    rcases hchange.getOwn_cases key with ⟨d, accepted⟩ | rfl | hkept
    · have hfilled := Becomes.filled hbirth.filled hbecomes
      rcases (hfilled.blended_define?_iff accepted).mp ho with hmixed | ⟨hgeneric, hold⟩
      · exact .mixed hbecomes hmixed accepted
      · exact .generic (ih hold) hgeneric accepted
    · exact absurd ho (not_blended_discard o key)
    · rw [Blended, hkept] at ho
      exact .elsewhere (ih ho) hchange hkept

end Object

/-! ## In every run -/

/-- A stored property says whether it is listed and whether it can be configured.
It is a complete descriptor of one kind exactly when the last accepted request
for it that named a kind did not name both, and so it always is when the program
makes no request that names both. -/
theorem Program.stored_whole_iff [Printer] {strict : Bool} {host : σ} {p : Program σ}
    (hp : p.Obeys Policy.unedited Handle.Intrinsic) {allowance : Nat} {m : Moment σ}
    (hm : m ∈ p.history allowance (Realm.fresh strict host)) {h : Handle}
    {o : Object (Behavior σ)} (ho : m.realm.arena.get? h = some o) :
    (∀ e ∈ o.properties.entries, e.2.enumerable.isSome = true ∧ e.2.configurable.isSome = true)
      ∧ (p.Obeys Policy.regular Handle.Intrinsic → o.Whole)
      ∧ ∃ birth : Object (Behavior σ), birth.Born ∧ birth.Becomes Policy.unedited o
        ∧ ∀ key d, o.properties.find? key = some d → (d.Whole ↔ ¬ birth.Blends key o) := by
  obtain ⟨birth, hborn, hbecomes⟩ := Program.history_grown hp (fun _ _ => .inl trivial) hm ho
  have hfilled : o.Filled := Object.Becomes.filled hborn.whole.filled hbecomes
  refine ⟨fun e he => ⟨(hfilled e he).enumerable, (hfilled e he).configurable⟩, ?_,
    birth, hborn, hbecomes, fun key d hstored => ?_⟩
  · intro hregular
    obtain ⟨birth, hborn, hbecomes⟩ :=
      Program.history_grown hregular (fun _ _ => .inl trivial) hm ho
    exact (hbecomes.keeps hborn.whole).2
  · have hown : o.getOwn key = some d := by rw [Object.getOwn, hstored, Option.orElse_some]
    have hblended : o.Blended key ↔ d.Mixed := by
      unfold Object.Blended
      rw [hown]
      simp
    rw [(hfilled.getOwn hown).whole_iff, ← hblended, not_iff_not]
    exact ⟨Object.Becomes.blends hborn.whole hbecomes,
      fun hblends => (hblends.blended hborn.whole.filled).2⟩

/-- A request that names a value and a getter. -/
def Descriptor.valueAndGetter : Descriptor := { value := some .null, get := some .undefined }

/-- On the prototype of all objects it is granted, and stored with both. -/
theorem Program.stored_whole_iff_objectPrototype :
    ∃ (birth o : Object (Behavior Unit)) (d : Descriptor), birth.Born ∧
      birth.Becomes Policy.unedited o ∧ o.properties.find? "k" = some d ∧
      d = { value := some .null, writable := some false, get := some .undefined,
            enumerable := some false, configurable := some false } ∧
      birth.Blends "k" o := by
  obtain ⟨o, haccepted, hstored⟩ : ∃ o : Object (Behavior Unit),
      (Intrinsic.prototype .object).placed.define? "k" Descriptor.valueAndGetter = some o
        ∧ o.properties.find? "k" = some Descriptor.valueAndGetter.complete := by
    refine ⟨_, rfl, ?_⟩
    decide +kernel
  obtain ⟨m, hm, hnow⟩ := Program.defining_moment (Intrinsic.prototype_mem .object) haccepted
  obtain ⟨-, -, birth, hborn, hbecomes, hwhole⟩ :=
    Program.stored_whole_iff (Program.defining_obeys ..) hm hnow
  refine ⟨birth, o, _, hborn, hbecomes, hstored, rfl, ?_⟩
  by_contra hnone
  exact ((hwhole "k" _ hstored).mpr hnone).not_mixed ⟨rfl, rfl⟩

end ScriptRealm
