import ScriptRealm.Proofs.Assignment
import ScriptRealm.Proofs.Bookkeeping

/-!
# Strictness — a refusal or an exception, and nothing else

Strict code and sloppy code ask for the same writes and deletions. They differ in what
they are told when nothing was done: `Realm.OnlyThrows` compares the two computations
in one realm. Either they do the same, or the sloppy one answers `false` in the realm
as it was, and the strict one throws an error that is new and all that is new.

A refusal therefore comes before anything is written. `Realm.Deleted` is what a
deletion leaves that is not refused.
-/

namespace ScriptRealm

variable {σ α β : Type} {r r' : Realm σ}

/-! ## Refusals -/

/-- Strictness only turns a refusal into an error. -/
def Realm.OnlyThrows [Printer] (r : Realm σ) (m : Bool → ScriptM σ Bool) : Prop :=
  RealmM.Alike r (m false).attempt (m true).attempt
    ∨ ∃ (why : Fault) (h : Handle) (r' : Realm σ), why.kind = .typeError
      ∧ (∀ runner, (m false).attempt.run runner r = some (.ok false, r)
        ∧ (m true).attempt.run runner r = some (.error (.object h), r'))
      ∧ r.Gains why.toError h r'

namespace Realm.OnlyThrows

variable {m m' : Bool → ScriptM σ Bool}

theorem same [Printer] (m : ScriptM σ Bool) : r.OnlyThrows fun _ => m :=
  .inl (.refl r _)

theorem of_alike [Printer] (h : r.OnlyThrows m')
    (halike : ∀ strict, RealmM.Alike r (m strict).attempt (m' strict).attempt) :
    r.OnlyThrows m := by
  refine h.imp (fun hsame => ?_) fun ⟨why, g, r', hkind, hruns, hgains⟩ => ?_
  · exact ((halike false).trans hsame).trans (halike true).symm
  · refine ⟨why, g, r', hkind, fun runner => ?_, hgains⟩
    rw [(halike false).run, (halike true).run]
    exact hruns runner

/-- A refusal. -/
theorem refuse [Printer] (wf : r.arena.WellFormed) {why : Fault} (hkind : why.kind = .typeError) :
    r.OnlyThrows (ScriptM.refuse · why) :=
  .inr ⟨why, _, _, hkind, fun _ => ⟨rfl, ScriptM.run_raise why r⟩, gains_allocate wf why.toError⟩

/-- What has its result without a change may come first. -/
theorem after [Printer] {m : ScriptM σ β} {b : β}
    (hm : ∀ runner, m.attempt.run runner r = some (.ok b, r)) {k : Bool → β → ScriptM σ Bool}
    (h : r.OnlyThrows (k · b)) : r.OnlyThrows fun strict => m >>= k strict := by
  refine h.imp (fun hsame => ?_) fun ⟨why, g, r', hkind, hruns, hgains⟩ => ?_
  · refine RealmM.Alike.bind (m := m.attempt) fun runner a r' hrun => ?_
    rw [hm runner] at hrun
    cases hrun
    exact hsame
  · refine ⟨why, g, r', hkind, fun runner => ?_, hgains⟩
    rw [ScriptM.run_bind_of_ok (hm runner), ScriptM.run_bind_of_ok (hm runner)]
    exact hruns runner

end Realm.OnlyThrows

/-! ## Writing -/

namespace Assignment

variable {key : String} {v receiver : Value}

/-- Whatever is refused is an error of the type kind. -/
theorem kind_of_refused {γ : Type} {a : Arena γ} {d : Descriptor} {why : Fault}
    (h : ofFoundAccessorFirst a key v receiver d = refused why) : why.kind = .typeError := by
  unfold ofFoundAccessorFirst ofAccessor ofReceiver at h
  split at h
  · split at h <;> cases h
    rfl
  · split at h
    · cases h
      rfl
    · split at h
      · cases h
        rfl
      · split at h
        · cases h
        · split at h
          · cases h
            rfl
          · split at h <;> cases h
            rfl

/-- A definition is refused before anything has been written. -/
theorem defining_onlyThrows [Printer] (wf : r.arena.WellFormed) (target : Handle) (d : Descriptor) :
    r.OnlyThrows fun strict => (defining target d).perform key v receiver strict := by
  cases hdefine : r.arena.define? target key d with
  | none =>
    have hrun : ∀ runner : Runner σ,
        (ScriptM.lift (RealmM.define target key d)).attempt.run runner r
          = some (.ok false, r) := by
      intro runner
      rw [ScriptM.run_lift, RealmM.define, RealmM.run_modifyGet, hdefine]
      rfl
    exact .after hrun (.refuse wf rfl)
  | some arena =>
    refine .inl (RealmM.Alike.bind
      (m := (ScriptM.lift (RealmM.define target key d)).attempt) fun runner ended r' hrun => ?_)
    rw [ScriptM.run_lift, RealmM.define, RealmM.run_modifyGet, hdefine] at hrun
    cases hrun
    exact .refl _ _

end Assignment

/-- Strictness only turns a refused write into an error. -/
theorem Realm.onlyThrows_setProperty [Printer] (wf : r.arena.WellFormed) {receiver : Value}
    (hreceiver : ∀ t, receiver.handle? = some t → (r.arena.get? t).isSome = true) (o : Handle)
    (key : String) (v : Value) :
    r.OnlyThrows (ScriptM.setProperty o key v receiver) := by
  refine OnlyThrows.of_alike ?_ (ScriptM.setProperty_alike hreceiver o key v)
  cases hdone : Assignment.ofFoundAccessorFirst r.arena key v receiver
      ((r.arena.find? o key).getD (.plain .undefined)) with
  | refused why => exact .refuse wf (Assignment.kind_of_refused hdone)
  | defining target d => exact Assignment.defining_onlyThrows wf target d
  | calling setter => exact .same _

/-! ## Deleting -/

namespace Object

variable {o : Object (Behavior σ)} {key : String}

/-- What can be configured is not made up. -/
theorem Tidy.not_mem_madeUpKeys (ho : o.Tidy) {d : Descriptor} (hown : o.getOwn key = some d)
    (hd : d.configurable = some true) : key ∉ o.madeUpKeys := by
  intro hmade
  rw [ho.fixed key hmade d hown] at hd
  cases hd

/-- The keys that are left keep their order. -/
theorem ownKeys_discard (hkey : key ∉ o.madeUpKeys) :
    (o.discard key).ownKeys = o.ownKeys.filter (· != key) := by
  have hmade : o.madeUpKeys.filter (· != key) = o.madeUpKeys := by
    refine List.filter_eq_self.mpr fun other hother => ?_
    rw [bne_iff_ne]
    rintro rfl
    exact hkey hother
  rw [ownKeys_eq, ownKeys_eq, List.filter_append, hmade]
  exact congrArg (o.madeUpKeys ++ ·) (Table.names_erase _ key)

theorem getOwn_discard_self (hkey : key ∉ o.madeUpKeys) : (o.discard key).getOwn key = none := by
  rw [← Option.not_isSome_iff_eq_none, ← mem_ownKeys_iff, ownKeys_discard hkey, List.mem_filter]
  simp

end Object

/-- What a deletion leaves that is not refused. -/
structure Realm.Deleted (r : Realm σ) (o : Handle) (key : String) (r' : Realm σ) : Prop where
  gone : r'.arena.getOwn o key = none
  /-- It was not there, or could be configured. -/
  configurable : ∀ d, r.arena.getOwn o key = some d → d.configurable = some true
  kept : ∀ other, other ≠ key → r'.arena.getOwn o other = r.arena.getOwn o other
  order : r'.arena.ownKeys o = (r.arena.ownKeys o).filter (· != key)
  /-- The object only differs in its properties. -/
  object : ∀ x, r.arena.get? o = some x →
    ∃ properties, r'.arena.get? o = some { x with properties := properties }
  others : ∀ g, g ≠ o → r'.arena.get? g = r.arena.get? g
  realm : r' = { r with arena := r'.arena }

namespace Realm

variable {o : Handle} {key : String}

/-- Nothing is done where there is no such property. -/
theorem deleted_of_missing (hown : r.arena.getOwn o key = none) : r.Deleted o key r where
  gone := hown
  configurable d hd := by
    rw [hown] at hd
    cases hd
  kept _ _ := rfl
  order := by
    refine (List.filter_eq_self.mpr fun other hother => ?_).symm
    rw [bne_iff_ne]
    rintro rfl
    unfold Arena.ownKeys at hother
    cases hget : r.arena.get? o with
    | none =>
      rw [hget] at hother
      cases hother
    | some x =>
      rw [hget] at hother
      rw [Arena.getOwn_of_get? hget, ← Option.not_isSome_iff_eq_none,
        ← Object.mem_ownKeys_iff] at hown
      exact hown hother
  object x hx := ⟨x.properties, hx⟩
  others _ _ := rfl
  realm := rfl

/-- The property is taken out of the object. -/
theorem deleted_discard {x : Object (Behavior σ)} (hx : r.arena.get? o = some x) (htidy : x.Tidy)
    {d : Descriptor} (hown : x.getOwn key = some d) (hd : d.configurable = some true) :
    r.Deleted o key (r.withArena (·.modify o (·.discard key))) := by
  have hkey := htidy.not_mem_madeUpKeys hown hd
  have hnow : (r.arena.modify o (·.discard key)).get? o = some (x.discard key) := by
    rw [Arena.get?_modify, if_pos rfl, hx, Option.map_some]
  exact {
    gone := by
      rw [withArena, Arena.getOwn_of_get? hnow]
      exact Object.getOwn_discard_self hkey
    configurable := by
      intro e he
      rw [Arena.getOwn_of_get? hx, hown] at he
      cases he
      exact hd
    kept := by
      intro other hne
      rw [withArena, Arena.getOwn_of_get? hnow, Arena.getOwn_of_get? hx]
      exact x.getOwn_discard_of_ne hne
    order := by
      simp only [withArena, Arena.ownKeys, hnow, hx, Option.map_some, Option.getD_some]
      exact Object.ownKeys_discard hkey
    object := by
      intro y hy
      rw [hx] at hy
      cases hy
      exact ⟨_, hnow⟩
    others := fun g hg => by rw [withArena, Arena.get?_modify, if_neg hg]
    realm := rfl }

/-- Strictness only turns a refused deletion into an error. -/
theorem onlyThrows_deleteProperty [Printer] (wf : r.arena.WellFormed) (o : Handle) (key : String) :
    r.OnlyThrows (ScriptM.deleteProperty o key) := by
  refine OnlyThrows.of_alike ?_ fun strict => ScriptM.realm_bind_alike r _
  cases hx : r.arena.get? o with
  | none => exact .same _
  | some x =>
    dsimp only
    cases hown : x.getOwn key with
    | none => exact .same _
    | some d =>
      by_cases hd : (d.configurable == some true) = true
      · simp only [if_pos hd]
        exact .same _
      · simp only [if_neg hd]
        exact .refuse wf rfl

/-- A deletion has an end, and what it leaves when it is not refused is settled. -/
theorem exists_deleteProperty [Printer] (htidy : ∀ x, r.arena.get? o = some x → x.Tidy)
    (strict : Bool) :
    ∃ result r', (∀ runner, (ScriptM.deleteProperty o key strict).attempt.run runner r
        = some (result, r')) ∧ (result = .ok true → r.Deleted o key r') := by
  unfold ScriptM.deleteProperty
  simp only [ScriptM.run_realm_bind]
  cases hx : r.arena.get? o with
  | none =>
    exact ⟨.ok true, r, fun _ => rfl, fun _ => deleted_of_missing (by rw [Arena.getOwn, hx]; rfl)⟩
  | some x =>
    dsimp only
    cases hown : x.getOwn key with
    | none =>
      refine ⟨.ok true, r, fun _ => rfl, fun _ => deleted_of_missing ?_⟩
      rw [Arena.getOwn_of_get? hx, hown]
    | some d =>
      by_cases hd : (d.configurable == some true) = true
      · simp only [if_pos hd]
        exact ⟨.ok true, _, fun _ => rfl,
          fun _ => deleted_discard hx (htidy x hx) hown (beq_iff_eq.mp hd)⟩
      · simp only [if_neg hd]
        cases strict with
        | false => exact ⟨.ok false, r, fun _ => rfl, fun hdone => by cases hdone⟩
        | true =>
          exact ⟨_, _, fun _ => ScriptM.run_raise (.undeletable key x.tag) r,
            fun hdone => by cases hdone⟩

end Realm

/-! ## In every run -/

/-- At any moment of a run without raw edits, strict and sloppy code do the same when
they write a property, for a receiver that is a primitive or an object, and when they
delete one, unless that is refused: then nothing is done, and strict code gets a new
error. A deletion that is not refused leaves everything else as it was. -/
theorem Program.strictness_only_throws [Printer] {strict : Bool} {host : σ} {p : Program σ}
    (hp : p.Obeys Policy.unedited Handle.Intrinsic) {allowance : Nat} {m : Moment σ}
    (hm : m ∈ p.history allowance (Realm.fresh strict host)) (o : Handle) (key : String)
    (v : Value) {receiver : Value}
    (hreceiver : ∀ t, receiver.handle? = some t → (m.realm.arena.get? t).isSome = true) :
    m.realm.OnlyThrows (ScriptM.setProperty o key v receiver)
      ∧ m.realm.OnlyThrows (ScriptM.deleteProperty o key)
      ∧ ∀ strictly, ∃ result r', (∀ runner,
          (ScriptM.deleteProperty o key strictly).attempt.run runner m.realm = some (result, r'))
        ∧ (result = .ok true → m.realm.Deleted o key r') := by
  obtain ⟨w, hw, hrealm⟩ := Program.history_sound hp (fun _ _ => .inl trivial) hm
  have wf : m.realm.arena.WellFormed := hrealm ▸ hw.arena
  have htidy : ∀ x, m.realm.arena.get? o = some x → x.Tidy := by
    intro x hx
    obtain ⟨birth, hborn, hbecomes⟩ := Program.history_grown hp (fun _ _ => .inl trivial) hm hx
    exact hbecomes.tidy hborn.tidy
  exact ⟨Realm.onlyThrows_setProperty wf hreceiver o key v, Realm.onlyThrows_deleteProperty wf o key,
    Realm.exists_deleteProperty htidy⟩

/-- In a fresh realm, on the prototype of all objects. -/
theorem Program.strictness_only_throws_objectPrototype :
    (Program.finish (.normal .undefined) : Program Unit).Obeys Policy.unedited Handle.Intrinsic
      ∧ ((Realm.fresh false ()).arena.get? (Intrinsic.prototype .object).handle).isSome = true
      ∧ (Realm.fresh false ()).OnlyThrows (ScriptM.setProperty (Intrinsic.prototype .object).handle
        "k" .null (.object (Intrinsic.prototype .object).handle))
      ∧ (Realm.fresh false ()).OnlyThrows
        (ScriptM.deleteProperty (Intrinsic.prototype .object).handle "k") := by
  have hobeys : (Program.finish (.normal .undefined) : Program Unit).Obeys Policy.unedited
      Handle.Intrinsic := fun _ _ => .inl trivial
  have hlive : ((Realm.fresh false ()).arena.get? (Intrinsic.prototype .object).handle).isSome
      = true :=
    Option.isSome_iff_exists.mpr ⟨_, Arena.get?_fresh_handle (Intrinsic.prototype_mem _)⟩
  have hreceiver : ∀ t, (Value.object (Intrinsic.prototype .object).handle).handle? = some t →
      ((Realm.fresh false ()).arena.get? t).isSome = true := by
    rintro t ⟨⟩
    exact hlive
  obtain ⟨hwrite, hdelete, -⟩ := Program.strictness_only_throws hobeys
    (Program.begun_mem_history _ 0 _) (Intrinsic.prototype .object).handle "k" .null hreceiver
  exact ⟨hobeys, hlive, hwrite, hdelete⟩

end ScriptRealm
