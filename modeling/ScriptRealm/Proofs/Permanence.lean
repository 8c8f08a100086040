import ScriptRealm.Number.Shortest
import ScriptRealm.Proofs.Lineage
import ScriptRealm.Proofs.OwnProperties

/-!
# Permanence — what no operation undoes

A property that is not configurable stays, with its listing and its kind; an
accessor keeps its functions, and what cannot be written keeps its value. An
object that is not extensible stays so, keeps its prototype, and gets no new
keys. `Object.Keeps` is both, the properties that a string makes up included.

One change in place keeps it (`Object.Change.keeps`) as long as stored
properties are whole, which changes see to themselves
(`Object.Change.whole`). `Program.permanence` is the statement about runs. It
is about programs that make no raw edit and describe no property as data and
accessor at once (`Policy.regular`); which handles they use does not matter.
-/

namespace ScriptRealm

variable {σ : Type}

/-- The policy that rules out raw edits and mixed descriptors, and nothing else. -/
def Policy.regular : Policy σ := ⟨fun _ => True, fun _ _ => False, fun _ _ => False, False⟩

namespace Object

variable {β : Type}

/-! ## Whole objects -/

/-- All stored properties are whole. -/
def Whole (o : Object β) : Prop := ∀ e ∈ o.properties.entries, e.2.Whole

/-- All own properties of a whole object are whole. -/
theorem Whole.getOwn {o : Object β} (ho : o.Whole) {key : String} {d : Descriptor}
    (hd : o.getOwn key = some d) : d.Whole := by
  rcases getOwn_cases hd with hstored | ⟨v, enumerable, -, rfl⟩
  · exact ho _ hstored
  · exact .data ..

theorem Whole.store {o : Object β} (ho : o.Whole) (key : String) {d : Descriptor}
    (hd : d.Whole) : (o.store key d).Whole := by
  intro e he
  rcases Table.mem_entries_insert he with rfl | he
  · exact hd
  · exact ho e he

theorem Whole.define? {o o' : Object β} (ho : o.Whole) {key : String} {d : Descriptor}
    (hd : ¬ d.Mixed) (accepted : o.define? key d = some o') : o'.Whole := by
  rcases define?_cases accepted with ⟨-, -, rfl⟩ | ⟨current, hown, -, rfl⟩
  · exact ho.store key (Descriptor.whole_complete hd)
  · exact ho.store key ((ho.getOwn hown).merge hd)

theorem Newborn.whole {o : Object (Behavior σ)} (newborn : o.Newborn) : o.Whole := by
  intro e he
  cases newborn with
  | plain | wrapper => exact absurd he List.not_mem_nil
  | function f =>
    simp only [Object.function, List.mem_cons, List.not_mem_nil, or_false] at he
    rcases he with rfl | rfl <;> exact .data ..
  | error kind message =>
    simp only [ofError, List.mem_cons, List.not_mem_nil, or_false] at he
    rcases he with rfl | rfl <;> exact .data ..

/-- Changes leave whole objects whole. -/
theorem Change.whole {o o' : Object (Behavior σ)} (ho : o.Whole)
    (h : o.Change Policy.regular o') : o'.Whole := by
  cases h with
  | same | close | link => exact ho
  | define unmixed accepted => exact ho.define? (unmixed.resolve_left fun h => h) accepted
  | discard own configurable =>
    intro e he
    exact ho e (Table.mem_entries_erase he)
  | edit e raw => exact raw.elim

/-! ## What an object keeps -/

/-- What remains of an object whatever becomes of it. -/
structure Keeps (before now : Object β) : Prop where
  /-- A property that cannot be configured endures. -/
  fixed : ∀ key d, before.getOwn key = some d → d.configurable = some false →
    ∃ d', now.getOwn key = some d' ∧ d.Endures d'
  /-- An object that takes no new properties gets none, and no new prototype. -/
  closed : before.extensible = false →
    now.extensible = false ∧ now.prototype = before.prototype
      ∧ ∀ key ∈ now.ownKeys, key ∈ before.ownKeys

theorem Keeps.refl (o : Object β) : o.Keeps o where
  fixed _ d hd hfixed := ⟨d, hd, .refl hfixed⟩
  closed hclosed := ⟨hclosed, rfl, fun _ hkey => hkey⟩

theorem Keeps.trans {a b c : Object β} (hab : a.Keeps b) (hbc : b.Keeps c) : a.Keeps c where
  fixed key d hd hfixed := by
    obtain ⟨d', hd', hendures⟩ := hab.fixed key d hd hfixed
    obtain ⟨d'', hd'', hendures'⟩ := hbc.fixed key d' hd' hendures.configurable
    exact ⟨d'', hd'', hendures.trans hendures'⟩
  closed hclosed := by
    obtain ⟨hextensible, hprototype, hkeys⟩ := hab.closed hclosed
    obtain ⟨hextensible', hprototype', hkeys'⟩ := hbc.closed hextensible
    exact ⟨hextensible', hprototype'.trans hprototype, fun key hkey => hkeys key (hkeys' key hkey)⟩

/-- Storing a property under a key that the object owns already, when the present
property permits it. -/
theorem Whole.keeps_store {o : Object β} (ho : o.Whole) {key : String} {current d : Descriptor}
    (hown : o.getOwn key = some current) (hd : ¬ d.Mixed) (hallows : current.allows d = true) :
    o.Keeps (o.store key (current.merge d)) where
  fixed other e he hfixed := by
    rw [getOwn_store]
    by_cases hkey : other = key
    · subst hkey
      rw [hown] at he
      cases he
      exact ⟨_, if_pos rfl, (ho.getOwn hown).endures hd hfixed hallows⟩
    · exact ⟨e, by rw [if_neg hkey, he], .refl hfixed⟩
  closed hclosed := by
    refine ⟨hclosed, rfl, ?_⟩
    intro other hother
    rw [mem_ownKeys_iff, getOwn_store] at hother
    rw [mem_ownKeys_iff]
    split at hother
    · rename_i hkey
      rw [hkey, hown]
      rfl
    · exact hother

/-- Storing a property under a new key of an extensible object. -/
theorem keeps_store_new {o : Object β} {key : String} (hown : o.getOwn key = none)
    (hextensible : o.extensible = true) (d : Descriptor) : o.Keeps (o.store key d) where
  fixed other e he hfixed := by
    have hne : other ≠ key := by
      rintro rfl
      rw [hown] at he
      cases he
    exact ⟨e, by rw [getOwn_store, if_neg hne, he], .refl hfixed⟩
  closed hclosed := by
    rw [hextensible] at hclosed
    cases hclosed

/-- Deleting a configurable property. -/
theorem keeps_discard {o : Object β} {key : String} {d : Descriptor}
    (hown : o.getOwn key = some d) (hconfigurable : d.configurable = some true) :
    o.Keeps (o.discard key) where
  fixed other e he hfixed := by
    have hne : other ≠ key := by
      rintro rfl
      rw [hown] at he
      cases he
      rw [hconfigurable] at hfixed
      cases hfixed
    exact ⟨e, by rw [getOwn_discard_of_ne o hne, he], .refl hfixed⟩
  closed hclosed := by
    refine ⟨hclosed, rfl, ?_⟩
    intro other hother
    rw [mem_ownKeys_iff] at hother ⊢
    exact isSome_getOwn_of_discard (by rw [hown]; rfl) hother

/-- One change keeps what is to be kept. -/
theorem Change.keeps {o o' : Object (Behavior σ)} (ho : o.Whole)
    (h : o.Change Policy.regular o') : o.Keeps o' := by
  cases h with
  | same => exact .refl o
  | @define key d _ unmixed accepted =>
    have hd : ¬ d.Mixed := unmixed.resolve_left fun h => h
    rcases define?_cases accepted with ⟨hown, hextensible, rfl⟩ | ⟨current, hown, hallows, rfl⟩
    · exact keeps_store_new hown hextensible _
    · exact ho.keeps_store hown hd hallows
  | discard own configurable => exact keeps_discard own configurable
  | close =>
    constructor
    · intro key d hd hfixed
      exact ⟨d, hd, .refl hfixed⟩
    · intro hclosed
      exact ⟨rfl, rfl, fun key hkey => hkey⟩
  | link p extensible =>
    constructor
    · intro key d hd hfixed
      exact ⟨d, hd, .refl hfixed⟩
    · intro hclosed
      rw [extensible] at hclosed
      cases hclosed
  | edit e raw => exact raw.elim

/-- Any number of changes keep it. -/
theorem Becomes.keeps {o o' : Object (Behavior σ)} (ho : o.Whole)
    (h : o.Becomes Policy.regular o') : o.Keeps o' ∧ o'.Whole := by
  induction h with
  | refl => exact ⟨.refl o, ho⟩
  | tail _ hchange ih => exact ⟨ih.1.trans (hchange.keeps ih.2), hchange.whole ih.2⟩

end Object

/-! ## Along a run -/

theorem Intrinsic.object_whole (i : Intrinsic) : (i.object : Object (Behavior σ)).Whole := by
  intro e he
  obtain ⟨v, writable, enumerable, configurable, hd, -⟩ := i.object_plain e he
  rw [hd]
  exact .data ..

theorem Object.Born.whole {o : Object (Behavior σ)} (hborn : o.Born) : o.Whole := by
  cases hborn with
  | intrinsic i n => exact i.object_whole
  | newborn newborn n => exact newborn.whole

/-- At every later moment at which the object is still there, it keeps what is to
be kept. -/
theorem Program.permanence [Printer] {strict : Bool} {host : σ} {p : Program σ}
    (hp : p.Obeys Policy.regular Handle.Intrinsic) {allowance : Nat} {first : Moment σ}
    {later : List (Moment σ)}
    (hrun : first :: later <:+: p.history allowance (Realm.fresh strict host)) {h : Handle}
    {before : Object (Behavior σ)} (hbefore : first.realm.arena.get? h = some before)
    (hlive : ∀ m ∈ later, (m.realm.arena.get? h).isSome = true) :
    ∀ m ∈ later, ∃ now, m.realm.arena.get? h = some now ∧ before.Keeps now := by
  have hwhole : before.Whole := by
    obtain ⟨birth, hborn, hgrown⟩ := Program.history_grown hp (fun _ _ => .inl trivial)
      (hrun.subset List.mem_cons_self) hbefore
    exact (hgrown.keeps hborn.whole).2
  intro m hm
  obtain ⟨now, hnow, hbecomes⟩ :=
    Program.history_becomes hp (fun _ _ => .inl trivial) hrun hbefore hlive m hm
  exact ⟨now, hnow, (hbecomes.keeps hwhole).1⟩

/-- Closing the constructor of numbers, whose constants can neither be written nor
configured. -/
theorem Program.permanence_number :
    ∃ now, ((Realm.fresh false ()).withArena
        (·.modify (Intrinsic.function (.constructor .number)).handle
          fun o => { o with extensible := false })).arena.get?
        (Intrinsic.function (.constructor .number)).handle = some now
      ∧ (Intrinsic.function (.constructor .number)).placed.Keeps now := by
  have hnumber : (Realm.fresh false ()).arena.get?
      (Intrinsic.function (.constructor .number)).handle = some _ :=
    Arena.get?_fresh_handle (Intrinsic.constructor_mem .number)
  have hobeys : Program.Obeys Policy.regular
      (.ask (.preventExtensions (Intrinsic.function (.constructor .number)).handle)
        fun _ => .finish (.normal .undefined) : Program Unit) Handle.Intrinsic :=
    ⟨trivial, fun _ _ => .inl trivial, fun _ _ _ => .inl trivial⟩
  refine @Program.permanence Unit _ false () _ hobeys 0 ⟨.begun, _⟩
    [⟨.written, _⟩, ⟨.answered _ _, _⟩] ⟨[], [], rfl⟩ _ _ hnumber (fun m hm => ?_) _
    List.mem_cons_self
  have hrealm : m.realm = (Realm.fresh false ()).withArena
      (·.modify (Intrinsic.function (.constructor .number)).handle
        fun o => { o with extensible := false }) := by
    simp only [List.mem_cons, List.not_mem_nil, or_false] at hm
    rcases hm with rfl | rfl <;> rfl
  rw [hrealm, Realm.withArena, Arena.isSome_get?_modify, hnumber]
  rfl

end ScriptRealm
