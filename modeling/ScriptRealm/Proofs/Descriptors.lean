import ScriptRealm.Property.Descriptor
import ScriptRealm.Proofs.Sameness

/-!
# Descriptors — what a permitted change leaves alone

A stored descriptor is whole: it is a data descriptor or an accessor
descriptor with all attributes of its kind and none of the other
(`Descriptor.Whole`). Completing and merging descriptors of one kind makes
whole ones again.

`Descriptor.Endures` is what may become of a property that is not
configurable. `Descriptor.Whole.endures` is the point of `allows`: the change
it permits is of that kind.
-/

namespace ScriptRealm

/-! ## The same value -/

/-- The sameness that permits a rewrite differs from equality on NaN only. -/
theorem Value.sameValue_iff {a b : Value} :
    a.sameValue b = true ↔ a = b ∨ (a.isNaN = true ∧ b.isNaN = true) := by
  cases a <;> cases b <;> simp [sameValue, strictEquals, isNaN, Binary64.sameValue_iff]

/-- Both are absent, or both are present and the same value. -/
def Value.Same : Option Value → Option Value → Prop :=
  Option.Rel fun a b => a.sameValue b = true

theorem Value.Same.refl (a : Option Value) : Same a a := by
  cases a with
  | none => exact .none
  | some a => exact .some (sameValue_iff.mpr (.inl rfl))

theorem Value.Same.trans {a b c : Option Value} (hab : Same a b) (hbc : Same b c) : Same a c := by
  cases hab with
  | none => exact hbc
  | some hab =>
    cases hbc with
    | some hbc =>
      rw [sameValue_iff] at hab hbc
      refine .some (sameValue_iff.mpr ?_)
      rcases hab with rfl | ⟨ha, hb⟩
      · exact hbc
      · rcases hbc with rfl | ⟨-, hc⟩
        · exact .inr ⟨ha, hb⟩
        · exact .inr ⟨ha, hc⟩

namespace Descriptor

/-! ## Whole descriptors -/

/-- A complete descriptor of one kind. -/
inductive Whole : Descriptor → Prop
  | data (v : Value) (writable enumerable configurable : Bool) :
      Whole (.data v writable enumerable configurable)
  | accessor (get set : Value) (enumerable configurable : Bool) :
      Whole (.accessor (some get) (some set) enumerable configurable)

/-- The descriptor speaks of both kinds of property. -/
def Mixed (d : Descriptor) : Prop := d.isData = true ∧ d.isAccessor = true

theorem isData_eq_false {d : Descriptor} :
    d.isData = false ↔ d.value = none ∧ d.writable = none := by
  simp [isData]

theorem isAccessor_eq_false {d : Descriptor} :
    d.isAccessor = false ↔ d.get = none ∧ d.set = none := by
  simp [isAccessor]

/-- A descriptor that is not mixed speaks of one kind at most. -/
theorem unmixed_cases {d : Descriptor} (hd : ¬ d.Mixed) :
    d.isAccessor = false ∨ d.isData = false ∧ d.isAccessor = true := by
  unfold Mixed at hd
  cases hdata : d.isData <;> cases haccessor : d.isAccessor <;> simp_all

/-- A descriptor that is silent on accessors becomes a data descriptor. -/
theorem complete_of_not_isAccessor {d : Descriptor} (hd : d.isAccessor = false) :
    d.complete = .data (d.value.getD .undefined) (d.writable.getD false)
      (d.enumerable.getD false) (d.configurable.getD false) := by
  obtain ⟨hget, hset⟩ := isAccessor_eq_false.mp hd
  have hkind : (d.isGeneric || d.isData) = true := by
    cases hdata : d.isData <;> simp [isGeneric, hdata, hd]
  simp only [complete, hkind, if_true, Descriptor.data, hget, hset]

/-- A descriptor that speaks of accessors only becomes an accessor descriptor. -/
theorem complete_of_isAccessor {d : Descriptor} (hdata : d.isData = false)
    (hd : d.isAccessor = true) :
    d.complete = .accessor (some (d.get.getD .undefined)) (some (d.set.getD .undefined))
      (d.enumerable.getD false) (d.configurable.getD false) := by
  obtain ⟨hvalue, hwritable⟩ := isData_eq_false.mp hdata
  have hkind : (d.isGeneric || d.isData) = false := by simp [isGeneric, hdata, hd]
  simp [complete, hkind, accessor, hvalue, hwritable]

theorem whole_complete {d : Descriptor} (hd : ¬ d.Mixed) : d.complete.Whole := by
  rcases unmixed_cases hd with haccessor | ⟨hdata, haccessor⟩
  · rw [complete_of_not_isAccessor haccessor]
    exact .data ..
  · rw [complete_of_isAccessor hdata haccessor]
    exact .accessor ..

/-! ## Merging whole descriptors -/

theorem orElse_some {α : Type} (a : Option α) (b : α) : (a <|> some b) = some (a.getD b) := by
  cases a <;> rfl

/-- A data property stays one under a change that is silent on accessors. -/
theorem merge_data {u : Descriptor} (hu : u.isAccessor = false) (v : Value)
    (writable enumerable configurable : Bool) :
    (data v writable enumerable configurable).merge u
      = data (u.value.getD v) (u.writable.getD writable) (u.enumerable.getD enumerable)
          (u.configurable.getD configurable) := by
  obtain ⟨hget, hset⟩ := isAccessor_eq_false.mp hu
  simp [merge, turned, data, isAccessor, hget, hset, orElse_some]

/-- A data property becomes an accessor, with nothing kept but what both kinds have. -/
theorem merge_data_of_isAccessor {u : Descriptor} (hdata : u.isData = false)
    (hu : u.isAccessor = true) (v : Value) (writable enumerable configurable : Bool) :
    (data v writable enumerable configurable).merge u
      = accessor (some (u.get.getD .undefined)) (some (u.set.getD .undefined))
          (u.enumerable.getD enumerable) (u.configurable.getD configurable) := by
  obtain ⟨hvalue, hwritable⟩ := isData_eq_false.mp hdata
  have hturned : (data v writable enumerable configurable).turned u
      = accessor none none enumerable configurable := by
    rw [turned, if_pos (by rw [hu]; rfl)]
    rfl
  simp [merge, hturned, hvalue, hwritable, accessor, orElse_some]

/-- An accessor stays one under a change that is silent on data. -/
theorem merge_accessor {u : Descriptor} (hu : u.isData = false) (get set : Value)
    (enumerable configurable : Bool) :
    (accessor (some get) (some set) enumerable configurable).merge u
      = accessor (some (u.get.getD get)) (some (u.set.getD set)) (u.enumerable.getD enumerable)
          (u.configurable.getD configurable) := by
  obtain ⟨hvalue, hwritable⟩ := isData_eq_false.mp hu
  simp [merge, turned, accessor, isData, hvalue, hwritable, orElse_some]

/-- An accessor becomes a data property, with nothing kept but what both kinds have. -/
theorem merge_accessor_of_isData {u : Descriptor} (haccessor : u.isAccessor = false)
    (hu : u.isData = true) (get set : Value) (enumerable configurable : Bool) :
    (accessor (some get) (some set) enumerable configurable).merge u
      = data (u.value.getD .undefined) (u.writable.getD false) (u.enumerable.getD enumerable)
          (u.configurable.getD configurable) := by
  obtain ⟨hget, hset⟩ := isAccessor_eq_false.mp haccessor
  have hturned : (accessor (some get) (some set) enumerable configurable).turned u
      = data .undefined false enumerable configurable := by
    rw [turned, if_neg (by rw [haccessor]; simp), if_pos (by rw [hu]; rfl)]
    rfl
  simp [merge, hturned, hget, hset, data, orElse_some]

/-- A permitted change makes a whole property whole again. -/
theorem Whole.merge {d u : Descriptor} (hd : d.Whole) (hu : ¬ u.Mixed) : (d.merge u).Whole := by
  rcases unmixed_cases hu with haccessor | ⟨hdata, haccessor⟩
  · cases hd with
    | data v writable enumerable configurable =>
      rw [merge_data haccessor]
      exact .data ..
    | accessor get set enumerable configurable =>
      cases hdata : u.isData with
      | false =>
        rw [merge_accessor hdata]
        exact .accessor ..
      | true =>
        rw [merge_accessor_of_isData haccessor hdata]
        exact .data ..
  · cases hd with
    | data v writable enumerable configurable =>
      rw [merge_data_of_isAccessor hdata haccessor]
      exact .accessor ..
    | accessor get set enumerable configurable =>
      rw [merge_accessor hdata]
      exact .accessor ..

/-! ## Properties that cannot be configured -/

/-- What may become of a property that cannot be configured. -/
structure Endures (before now : Descriptor) : Prop where
  configurable : now.configurable = some false
  enumerable : now.enumerable = before.enumerable
  isData : now.isData = before.isData
  isAccessor : now.isAccessor = before.isAccessor
  /-- An accessor keeps its functions. -/
  functions : before.isAccessor = true →
    Value.Same before.get now.get ∧ Value.Same before.set now.set
  /-- What cannot be written keeps its value, and cannot be written. -/
  value : before.isData = true → before.writable = some false →
    now.writable = some false ∧ Value.Same before.value now.value

theorem Endures.refl {d : Descriptor} (hd : d.configurable = some false) : d.Endures d where
  configurable := hd
  enumerable := rfl
  isData := rfl
  isAccessor := rfl
  functions _ := ⟨.refl _, .refl _⟩
  value _ hwritable := ⟨hwritable, .refl _⟩

theorem Endures.trans {a b c : Descriptor} (hab : a.Endures b) (hbc : b.Endures c) :
    a.Endures c where
  configurable := hbc.configurable
  enumerable := hbc.enumerable.trans hab.enumerable
  isData := hbc.isData.trans hab.isData
  isAccessor := hbc.isAccessor.trans hab.isAccessor
  functions haccessor := by
    obtain ⟨hget, hset⟩ := hab.functions haccessor
    obtain ⟨hget', hset'⟩ := hbc.functions (hab.isAccessor.trans haccessor)
    exact ⟨hget.trans hget', hset.trans hset'⟩
  value hdata hwritable := by
    obtain ⟨hwritable', hvalue⟩ := hab.value hdata hwritable
    obtain ⟨hwritable'', hvalue'⟩ := hbc.value (hab.isData.trans hdata) hwritable'
    exact ⟨hwritable'', hvalue.trans hvalue'⟩

/-- A requested value that is kept, or left out, is the present one. -/
theorem same_of_keeps {requested : Option Value} {present : Value}
    (h : keeps requested (some present) = true) :
    Value.Same (some present) (some (requested.getD present)) := by
  cases requested with
  | none => exact .refl _
  | some v =>
    have hsame : v.sameValue present = true := (Value.identical_eq_sameValue v present).symm.trans h
    refine .some (Value.sameValue_iff.mpr ?_)
    exact (Value.sameValue_iff.mp hsame).imp Eq.symm And.symm

/-- A flag that a permitted change names is the present one. -/
theorem getD_of_allowed {requested : Option Bool} {present : Bool}
    (h : (requested.isNone || requested == some present) = true) :
    requested.getD present = present := by
  cases requested with
  | none => rfl
  | some b => simpa using h

/-- A flag that a permitted change does not raise stays down. -/
theorem getD_false_of_ne {requested : Option Bool} (h : requested ≠ some true) :
    requested.getD false = false := by
  cases requested with
  | none => rfl
  | some b => simpa using h

/-- What is permitted for a property that cannot be configured. -/
theorem allows_fixed {d u : Descriptor} (hfixed : d.configurable = some false)
    (hallowed : d.allows u = true) :
    u.configurable.getD false = false
      ∧ (u.enumerable.isNone || u.enumerable == d.enumerable) = true
      ∧ (u.isGeneric = true ∨ u.isAccessor = d.isAccessor)
      ∧ (if d.isAccessor then keeps u.get d.get && keeps u.set d.set
          else d.writable != some false
            || (u.writable != some true && keeps u.value d.value)) = true := by
  unfold allows at hallowed
  rw [hfixed, bne_self_eq_false, Bool.false_or, Bool.and_eq_true, Bool.and_eq_true,
    Bool.and_eq_true] at hallowed
  obtain ⟨⟨⟨hconfigurable, henumerable⟩, hkind⟩, hrest⟩ := hallowed
  refine ⟨getD_false_of_ne (bne_iff_ne.mp hconfigurable), henumerable, ?_, hrest⟩
  rcases Bool.or_eq_true _ _ ▸ hkind with hgeneric | hsame
  · exact .inl hgeneric
  · exact .inr (beq_iff_eq.mp hsame)

/-- Turning a property into the other kind leaves its configurability alone. -/
theorem configurable_turned (d u : Descriptor) : (d.turned u).configurable = d.configurable := by
  unfold turned
  split
  · rfl
  · split
    · rfl
    · rfl

/-- What is permitted for a property that cannot be configured leaves it so. -/
theorem configurable_merge {d u : Descriptor} (hfixed : d.configurable = some false)
    (hallowed : d.allows u = true) : (d.merge u).configurable = some false := by
  have hnever := (allows_fixed hfixed hallowed).1
  rw [merge, configurable_turned, hfixed]
  cases hu : u.configurable with
  | none => rfl
  | some b =>
    rw [hu] at hnever
    exact congrArg some hnever

theorem isGeneric_iff {d : Descriptor} :
    d.isGeneric = true ↔ d.isData = false ∧ d.isAccessor = false := by
  simp [isGeneric]

/-- A data property that cannot be configured endures. -/
theorem endures_data {u : Descriptor} {v : Value} {writable enumerable : Bool}
    (hallowed : (data v writable enumerable false).allows u = true) :
    (data v writable enumerable false).Endures ((data v writable enumerable false).merge u) := by
  obtain ⟨hconfigurable, henumerable, hkind, hrest⟩ := allows_fixed rfl hallowed
  have haccessor : u.isAccessor = false := hkind.elim (fun h => (isGeneric_iff.mp h).2) id
  rw [merge_data haccessor, hconfigurable, getD_of_allowed henumerable]
  refine ⟨rfl, rfl, rfl, rfl, fun hno => Bool.noConfusion hno, ?_⟩
  intro _ hwritable
  cases hwritable
  have hfixed : (u.writable != some true && keeps u.value (some v)) = true := hrest
  rw [Bool.and_eq_true, bne_iff_ne] at hfixed
  exact ⟨congrArg some (getD_false_of_ne hfixed.1), same_of_keeps hfixed.2⟩

/-- An accessor that cannot be configured endures. -/
theorem endures_accessor {u : Descriptor} (hu : ¬ u.Mixed) {get set : Value} {enumerable : Bool}
    (hallowed : (accessor (some get) (some set) enumerable false).allows u = true) :
    (accessor (some get) (some set) enumerable false).Endures
      ((accessor (some get) (some set) enumerable false).merge u) := by
  obtain ⟨hconfigurable, henumerable, hkind, hrest⟩ := allows_fixed rfl hallowed
  have hdata : u.isData = false := by
    rcases hkind with hgeneric | haccessor
    · exact (isGeneric_iff.mp hgeneric).1
    · exact Bool.eq_false_iff.mpr fun hdata => hu ⟨hdata, haccessor⟩
  rw [merge_accessor hdata, hconfigurable, getD_of_allowed henumerable]
  have hfunctions : (keeps u.get (some get) && keeps u.set (some set)) = true := hrest
  rw [Bool.and_eq_true] at hfunctions
  exact ⟨rfl, rfl, rfl, rfl,
    fun _ => ⟨same_of_keeps hfunctions.1, same_of_keeps hfunctions.2⟩,
    fun hno => Bool.noConfusion hno⟩

/-- The change that is permitted to a whole property that cannot be configured. -/
theorem Whole.endures {d u : Descriptor} (hd : d.Whole) (hu : ¬ u.Mixed)
    (hfixed : d.configurable = some false) (hallowed : d.allows u = true) :
    d.Endures (d.merge u) := by
  cases hd with
  | data v writable enumerable configurable =>
    cases hfixed
    exact endures_data hallowed
  | accessor get set enumerable configurable =>
    cases hfixed
    exact endures_accessor hu hallowed

end Descriptor

end ScriptRealm
