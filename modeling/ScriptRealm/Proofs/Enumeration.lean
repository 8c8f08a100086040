import ScriptRealm.Number.Shortest
import ScriptRealm.Proofs.Lineage
import ScriptRealm.Proofs.OwnProperties

/-!
# Enumeration — the listing of keys in every run

No table of properties has two entries of one name, whatever a program does
(`Object.Tidy`), so a key is listed twice only when a string makes it up and
it is stored as well (`Object.Doubles`). No object is made with such a key.
It gets one when a requested change to a made-up property is accepted: the
changed property is then stored, and the made-up one goes on being listed.
Nothing else does it (`Object.Change.doubles_iff`), and nothing undoes it.

So an object lists a key twice exactly when such a change lies between the
object as it was made and the object as it is (`Object.Redefines`).
`Program.ownKeys_exact` says so of all objects at all moments of the programs
that make no raw edit (`Policy.unedited`).
-/

namespace ScriptRealm

variable {σ : Type}

/-- The policy that rules out raw edits, and nothing else. -/
def Policy.unedited : Policy σ := ⟨fun _ => True, fun _ _ => False, fun _ _ => False, True⟩

namespace Table

variable {α : Type}

theorem nodup_names_insert {t : Table α} (ht : t.names.Nodup) (name : String) (entry : α) :
    (t.insert name entry).names.Nodup := by
  cases hcontains : t.contains name with
  | true => rwa [names_insert_of_contains entry hcontains]
  | false =>
    have hnew : name ∉ t.names := by
      rw [mem_names_iff, hcontains]
      exact Bool.false_ne_true
    rw [names_insert_of_not_contains entry hcontains]
    refine List.nodup_append.mpr ⟨ht, List.nodup_singleton _, fun a ha b hb heq => hnew ?_⟩
    rwa [← List.mem_singleton.mp hb, ← heq]

theorem nodup_names_erase {t : Table α} (ht : t.names.Nodup) (name : String) :
    (t.erase name).names.Nodup := by
  rw [names_erase]
  exact ht.filter _

theorem mem_names_insert {t : Table α} {name other : String} {entry : α} :
    other ∈ (t.insert name entry).names ↔ other = name ∨ other ∈ t.names := by
  rw [mem_names_iff, mem_names_iff, contains, contains, find?_insert]
  split <;> simp_all

theorem mem_names_erase {t : Table α} {name other : String} :
    other ∈ (t.erase name).names ↔ other ≠ name ∧ other ∈ t.names := by
  rw [names_erase, List.mem_filter]
  simp [and_comm]

end Table

namespace Object

variable {o o' : Object (Behavior σ)}

/-! ## Tidy objects -/

/-- No key is stored twice, and what is found under a made-up key cannot be
configured. -/
structure Tidy (o : Object (Behavior σ)) : Prop where
  nodup : o.properties.names.Nodup
  fixed : ∀ key ∈ o.madeUpKeys, ∀ d, o.getOwn key = some d → d.configurable = some false

/-- The key is made up by a string and stored as well. -/
def Doubles (o : Object (Behavior σ)) (key : String) : Prop :=
  key ∈ o.madeUpKeys ∧ key ∈ o.properties.names

/-- An object that stores no made-up key is tidy when it stores no key twice. -/
theorem tidy_of_not_doubles (hnodup : o.properties.names.Nodup) (hno : ∀ key, ¬ o.Doubles key) :
    o.Tidy := by
  refine ⟨hnodup, ?_⟩
  intro key hkey d hd
  rcases getOwn_cases hd with hstored | ⟨v, enumerable, -, rfl⟩
  · exact absurd ⟨hkey, List.mem_map_of_mem hstored⟩ (hno key)
  · rfl

theorem not_doubles_of_madeUpKeys (h : o.madeUpKeys = []) (key : String) : ¬ o.Doubles key := by
  rintro ⟨hkey, -⟩
  rw [h] at hkey
  exact List.not_mem_nil hkey

theorem Newborn.not_doubles (newborn : o.Newborn) (key : String) : ¬ o.Doubles key := by
  cases newborn with
  | plain | function | error => exact not_doubles_of_madeUpKeys rfl key
  | wrapper p =>
    rintro ⟨-, hnames⟩
    cases hnames

theorem Newborn.tidy (newborn : o.Newborn) : o.Tidy := by
  refine tidy_of_not_doubles ?_ newborn.not_doubles
  cases newborn with
  | plain | wrapper => exact List.nodup_nil
  | function f => exact (by decide : ["length", "name"].Nodup)
  | error kind message => exact (by decide : ["message", "name"].Nodup)

/-! ## Changes -/

/-- An accepted change to a property stores it. -/
theorem exists_store_of_define? {key : String} {d : Descriptor}
    (accepted : o.define? key d = some o') : ∃ e, o' = o.store key e := by
  rcases define?_cases accepted with ⟨-, -, rfl⟩ | ⟨current, -, -, rfl⟩
  · exact ⟨_, rfl⟩
  · exact ⟨_, rfl⟩

theorem Tidy.define? (ho : o.Tidy) {key : String} {d : Descriptor}
    (accepted : o.define? key d = some o') : o'.Tidy := by
  obtain ⟨e, rfl⟩ := exists_store_of_define? accepted
  refine ⟨Table.nodup_names_insert ho.nodup key e, ?_⟩
  intro other hother now hnow
  by_cases hkey : other = key
  · subst hkey
    have hown := mem_ownKeys_iff.mp (List.mem_append_left o.properties.names hother)
    obtain ⟨current, hcurrent⟩ := Option.isSome_iff_exists.mp hown
    have hfixed := ho.fixed other hother current hcurrent
    rcases define?_cases accepted with ⟨hnone, -, -⟩ | ⟨current', hcurrent', hallows, heq⟩
    · rw [hnone] at hcurrent
      cases hcurrent
    · rw [hcurrent'] at hcurrent
      cases hcurrent
      rw [heq, getOwn_store, if_pos rfl] at hnow
      cases hnow
      exact Descriptor.configurable_merge hfixed hallows
  · rw [getOwn_store, if_neg hkey] at hnow
    exact ho.fixed other hother now hnow

theorem Change.tidy (ho : o.Tidy) (h : o.Change Policy.unedited o') : o'.Tidy := by
  cases h with
  | same | close | link => exact ⟨ho.nodup, ho.fixed⟩
  | define unmixed accepted => exact ho.define? accepted
  | @discard key d own configurable =>
    refine ⟨Table.nodup_names_erase ho.nodup key, ?_⟩
    intro other hother e he
    have hne : other ≠ key := by
      rintro rfl
      rw [ho.fixed other hother d own] at configurable
      cases configurable
    rw [getOwn_discard_of_ne o hne] at he
    exact ho.fixed other hother e he
  | edit e raw => exact raw.elim

/-- A change makes a key double when it is an accepted change to a made-up
property, and at no other time. -/
theorem Change.doubles_iff (ho : o.Tidy) (h : o.Change Policy.unedited o') (key : String) :
    o'.Doubles key ↔
      o.Doubles key ∨ key ∈ o.madeUpKeys ∧ ∃ d, o.define? key d = some o' := by
  constructor
  · rintro ⟨hmade, hnames⟩
    cases h with
    | same | close | link => exact .inl ⟨hmade, hnames⟩
    | @define k d _ unmixed accepted =>
      obtain ⟨e, rfl⟩ := exists_store_of_define? accepted
      rcases Table.mem_names_insert.mp hnames with rfl | hnames
      · exact .inr ⟨hmade, d, accepted⟩
      · exact .inl ⟨hmade, hnames⟩
    | discard own configurable => exact .inl ⟨hmade, (Table.mem_names_erase.mp hnames).2⟩
    | edit e raw => exact raw.elim
  · rintro (⟨hmade, hnames⟩ | ⟨hmade, d, accepted⟩)
    · cases h with
      | same | close | link => exact ⟨hmade, hnames⟩
      | define unmixed accepted =>
        obtain ⟨e, rfl⟩ := exists_store_of_define? accepted
        exact ⟨hmade, Table.mem_names_insert.mpr (.inr hnames)⟩
      | @discard k d own configurable =>
        -- what is deleted can be configured, so it is not the double
        have hne : key ≠ k := by
          rintro rfl
          rw [ho.fixed key hmade d own] at configurable
          cases configurable
        exact ⟨hmade, Table.mem_names_erase.mpr ⟨hne, hnames⟩⟩
      | edit e raw => exact raw.elim
    · obtain ⟨e, rfl⟩ := exists_store_of_define? accepted
      exact ⟨hmade, Table.mem_names_insert.mpr (.inl rfl)⟩

/-! ## From the making of an object on -/

/-- Between the object before and the object now lies an accepted change to the
made-up property under the key. -/
def Redefines (π : Policy σ) (key : String) (before now : Object (Behavior σ)) : Prop :=
  ∃ o o' d, before.Becomes π o ∧ key ∈ o.madeUpKeys ∧ o.define? key d = some o'
    ∧ o'.Becomes π now

theorem Becomes.tidy (ho : o.Tidy) (h : o.Becomes Policy.unedited o') : o'.Tidy := by
  induction h with
  | refl => exact ho
  | tail _ hchange ih => exact hchange.tidy ih

/-- A key that is double stays so. -/
theorem Becomes.doubles (ho : o.Tidy) (h : o.Becomes Policy.unedited o') {key : String}
    (hkey : o.Doubles key) : o'.Doubles key := by
  induction h with
  | refl => exact hkey
  | tail hbecomes hchange ih =>
    exact (hchange.doubles_iff (Becomes.tidy ho hbecomes) key).mpr (.inl ih)

/-- A key becomes double by an accepted change to the made-up property. -/
theorem Becomes.doubles_iff (ho : o.Tidy) (h : o.Becomes Policy.unedited o') (key : String) :
    o'.Doubles key ↔ o.Doubles key ∨ o.Redefines Policy.unedited key o' := by
  constructor
  · intro hkey
    induction h with
    | refl => exact .inl hkey
    | @tail middle last hbecomes hchange ih =>
      rcases (hchange.doubles_iff (Becomes.tidy ho hbecomes) key).mp hkey with hold | ⟨hmade, d, hd⟩
      · rcases ih hold with hstart | ⟨p, p', d, hp, hmade, hd, hp'⟩
        · exact .inl hstart
        · exact .inr ⟨p, p', d, hp, hmade, hd, hp'.tail hchange⟩
      · exact .inr ⟨middle, last, d, hbecomes, hmade, hd, .refl⟩
  · rintro (hkey | ⟨p, p', d, hp, hmade, hd, hp'⟩)
    · exact Becomes.doubles ho h hkey
    · have htidy := Becomes.tidy ho hp
      have hchange : p.Change Policy.unedited p' := .define (.inl trivial) hd
      have hdouble := (hchange.doubles_iff htidy key).mpr (.inr ⟨hmade, d, hd⟩)
      exact Becomes.doubles (hchange.tidy htidy) hp' hdouble

end Object

/-! ## Intrinsic objects -/

namespace Intrinsic

theorem prototypeProperties_nodup (family : Family) :
    ((prototypeProperties family).map (·.1)).Nodup := by
  cases family with
  | error kind => cases kind <;> decide
  | object | number | boolean | string => decide

theorem constructorProperties_nodup (family : Family) :
    ("length" :: "name" :: (constructorProperties family).map (·.1)).Nodup := by
  cases family with
  | error kind => cases kind <;> decide
  | object | number | boolean | string => decide

theorem functionObject_nodup (up : Intrinsic) (f : Builtin) {extra : List (String × Descriptor)}
    (hextra : ("length" :: "name" :: extra.map (·.1)).Nodup) :
    (functionObject up f extra : Object (Behavior σ)).properties.names.Nodup :=
  hextra

theorem object_nodup (i : Intrinsic) :
    (i.object : Object (Behavior σ)).properties.names.Nodup := by
  cases i with
  | prototype family => exact prototypeProperties_nodup family
  | functionPrototype => exact (by decide : ((methodProperties functionPrototype).map (·.1)).Nodup)
  | function f =>
    cases f with
    | constructor family => exact functionObject_nodup _ _ (constructorProperties_nodup family)
    | _ => exact functionObject_nodup _ _ (by decide)

theorem object_not_doubles (i : Intrinsic) (key : String) :
    ¬ (i.object : Object (Behavior σ)).Doubles key := by
  cases i with
  | prototype family =>
    cases family with
    | string =>
      rintro ⟨hmade, hnames⟩
      have hkey : key ∈ ["length"] := hmade
      have hnames : key ∈ (prototypeProperties .string).map (·.1) := hnames
      rw [List.mem_singleton.mp hkey] at hnames
      exact absurd hnames (by decide)
    | object | error | number | boolean => exact Object.not_doubles_of_madeUpKeys rfl key
  | functionPrototype => exact Object.not_doubles_of_madeUpKeys rfl key
  | function f => cases f <;> exact Object.not_doubles_of_madeUpKeys rfl key

end Intrinsic

/-! ## In every run -/

theorem Object.Born.not_doubles {o : Object (Behavior σ)} (hborn : o.Born) (key : String) :
    ¬ o.Doubles key := by
  cases hborn with
  | intrinsic i n => exact i.object_not_doubles key
  | newborn newborn n => exact newborn.not_doubles key

theorem Object.Born.tidy {o : Object (Behavior σ)} (hborn : o.Born) : o.Tidy := by
  refine tidy_of_not_doubles ?_ hborn.not_doubles
  cases hborn with
  | intrinsic i n => exact i.object_nodup
  | newborn newborn n => exact newborn.tidy.nodup

/-- A key is listed exactly when a property is found under it. Keys are listed
once each exactly as long as no change to a made-up property has been accepted
since the object was made. -/
theorem Program.ownKeys_exact [Printer] {strict : Bool} {host : σ} {p : Program σ}
    (hp : p.Obeys Policy.unedited Handle.Intrinsic) {allowance : Nat} {m : Moment σ}
    (hm : m ∈ p.history allowance (Realm.fresh strict host)) {h : Handle}
    {o : Object (Behavior σ)} (ho : m.realm.arena.get? h = some o) :
    (∀ key, key ∈ o.ownKeys ↔ (o.getOwn key).isSome = true)
      ∧ ∃ birth : Object (Behavior σ), birth.Born ∧ birth.Becomes Policy.unedited o
        ∧ (o.ownKeys.Nodup ↔ ∀ key, ¬ birth.Redefines Policy.unedited key o) := by
  obtain ⟨birth, hborn, hbecomes⟩ := Program.history_grown hp (fun _ _ => .inl trivial) hm ho
  have htidy : o.Tidy := hbecomes.tidy hborn.tidy
  refine ⟨fun key => Object.mem_ownKeys_iff, birth, hborn, hbecomes, ?_⟩
  calc o.ownKeys.Nodup
      ↔ ∀ key, ¬ o.Doubles key := by
        rw [Object.ownKeys_nodup_iff htidy.nodup]
        exact forall_congr' fun key => not_and.symm
    _ ↔ ∀ key, ¬ birth.Redefines Policy.unedited key o := by
        apply forall_congr'
        intro key
        rw [hbecomes.doubles_iff hborn.tidy key, not_or]
        exact and_iff_right (hborn.not_doubles key)

/-- A program that asks for one change to a property of an intrinsic object. -/
def Program.defining (i : Intrinsic) (key : String) (d : Descriptor) : Program Unit :=
  .ask (.define i.handle key d) fun _ => .finish (.normal .undefined)

theorem Program.defining_obeys (i : Intrinsic) (key : String) (d : Descriptor) :
    (defining i key d).Obeys Policy.unedited Handle.Intrinsic :=
  ⟨.inl trivial, fun _ _ => .inl trivial, fun _ _ _ => .inl trivial⟩

/-- There is a moment at which the change has been made. -/
theorem Program.defining_moment [Printer] {i : Intrinsic} (hi : i ∈ Intrinsic.all) {key : String}
    {d : Descriptor} {o : Object (Behavior Unit)} (haccepted : i.placed.define? key d = some o) :
    ∃ m ∈ (defining i key d).history 0 (Realm.fresh false ()),
      m.realm.arena.get? i.handle = some o := by
  have hobject : (Realm.fresh false ()).arena.get? i.handle = some i.placed :=
    Arena.get?_fresh_handle hi
  have hdefine : (Realm.fresh false ()).arena.define? i.handle key d
      = some ((Realm.fresh false ()).arena.modify i.handle fun _ => o) := by
    rw [Arena.define?, hobject, Option.bind_some, haccepted, Option.map_some]
  have hmoment : ⟨.written, _⟩ ∈ (defining i key d).history 0 (Realm.fresh false ()) :=
    .tail _ (.head _)
  dsimp only at hmoment
  rw [hdefine] at hmoment
  refine ⟨_, hmoment, ?_⟩
  show ((Realm.fresh false ()).arena.modify i.handle fun _ => o).get? i.handle = some o
  rw [Arena.get?_modify, if_pos rfl, hobject, Option.map_some]

/-- The prototype of strings is a wrapper itself. It lists `length` twice once that
has been defined, though to be what it is. -/
theorem Program.ownKeys_exact_stringPrototype :
    ∃ birth o : Object (Behavior Unit), birth.Born ∧ birth.Becomes Policy.unedited o
      ∧ (Intrinsic.prototype .string).placed.define? "length" Descriptor.empty = some o
      ∧ ∃ key, birth.Redefines Policy.unedited key o := by
  obtain ⟨o, haccepted, hlisted⟩ : ∃ o : Object (Behavior Unit),
      (Intrinsic.prototype .string).placed.define? "length" Descriptor.empty = some o
        ∧ ¬ o.ownKeys.Nodup := ⟨_, rfl, by decide⟩
  obtain ⟨m, hm, hnow⟩ := Program.defining_moment (Intrinsic.prototype_mem .string) haccepted
  obtain ⟨-, birth, hborn, hbecomes, hnodup⟩ :=
    Program.ownKeys_exact (Program.defining_obeys ..) hm hnow
  refine ⟨birth, o, hborn, hbecomes, haccepted, ?_⟩
  by_contra hnone
  exact hlisted (hnodup.mpr (not_exists.mp hnone))

end ScriptRealm
