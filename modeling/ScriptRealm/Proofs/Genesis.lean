import ScriptRealm.Proofs.Course
import ScriptRealm.Realm.Fresh

/-!
# Genesis — the first world

A fresh realm without boxes is a sound world: the intrinsic objects hold on
to each other only. Every run from a fresh realm is therefore a course from
it (`Program.history_course`), and a property of worlds that moves keep needs
to be checked on the intrinsic objects once (`Arena.get?_fresh`).
-/

namespace ScriptRealm

open World

variable {σ : Type} {π : Policy σ} {w : World σ}

/-- The world in which a run begins. -/
def World.fresh (strict : Bool) (host : σ) : World σ := ⟨Realm.fresh strict host, []⟩

/-! ## The slots of the intrinsic objects -/

theorem Intrinsic.all_nodup : Intrinsic.all.Nodup := by decide +kernel

theorem Intrinsic.function_mem {f : Builtin} (h : f ∈ Builtin.methods) :
    Intrinsic.function f ∈ Intrinsic.all :=
  List.mem_append_right _ (List.mem_map.mpr ⟨f, h, rfl⟩)

theorem Intrinsic.constructor_mem (family : Family) :
    Intrinsic.function (.constructor family) ∈ Intrinsic.all :=
  List.mem_append_left _ (List.mem_append_right _ (List.mem_map.mpr ⟨family, family.mem_all, rfl⟩))

/-- A slot of a fresh arena holds the intrinsic object of its place. -/
theorem Arena.get?_fresh (h : Handle) :
    (Arena.fresh : Arena (Behavior σ)).get? h
      = (Intrinsic.all[h.id]?).map fun i => { i.object with id := h.id } := by
  simp only [get?, fresh, List.getElem?_toArray, List.getElem?_map]
  cases hi : Intrinsic.all[h.id]? with
  | none => rfl
  | some i =>
    have hid : Intrinsic.all.idxOf i = h.id := by
      obtain ⟨hlt, rfl⟩ := List.getElem?_eq_some_iff.mp hi
      exact Intrinsic.all_nodup.idxOf_getElem h.id hlt
    simp [Intrinsic.handle, hid]

/-- The object of an intrinsic in its slot. -/
def Intrinsic.placed (i : Intrinsic) : Object (Behavior σ) := { i.object with id := i.handle.id }

theorem Arena.get?_fresh_handle {i : Intrinsic} (hi : i ∈ Intrinsic.all) :
    (Arena.fresh : Arena (Behavior σ)).get? i.handle = some i.placed := by
  rw [get?_fresh, show Intrinsic.all[i.handle.id]? = some i from
    List.getElem?_eq_some_iff.mpr ⟨List.idxOf_lt_length_of_mem hi, List.getElem_idxOf _⟩]
  rfl

theorem Arena.wellFormed_fresh : (Arena.fresh : Arena (Behavior σ)).WellFormed where
  free_nodup := List.nodup_nil
  mem_free_iff n := by
    simp [fresh]
  id_eq := by
    intro h o ho
    rw [get?_fresh] at ho
    obtain ⟨i, -, rfl⟩ := Option.map_eq_some_iff.mp ho
    rfl

/-! ## What the intrinsic objects own -/

/-- A data property with a primitive or an intrinsic object as its value. -/
def Intrinsic.Plain (e : String × Descriptor) : Prop :=
  ∃ v writable enumerable configurable, e.2 = .data v writable enumerable configurable
    ∧ (v.handle? = none ∨ ∃ i ∈ all, v = i.toValue)

namespace Intrinsic

theorem plain_primitive (key : String) {v : Value} (writable enumerable configurable : Bool)
    (hv : v.handle? = none) : Plain (key, .data v writable enumerable configurable) :=
  ⟨v, writable, enumerable, configurable, rfl, .inl hv⟩

theorem plain_intrinsic (key : String) {i : Intrinsic} (writable enumerable configurable : Bool)
    (hi : i ∈ all) : Plain (key, .data i.toValue writable enumerable configurable) :=
  ⟨i.toValue, writable, enumerable, configurable, rfl, .inr ⟨i, hi, rfl⟩⟩

theorem methodProperties_plain (i : Intrinsic) : ∀ e ∈ i.methodProperties, Plain e := by
  intro e he
  obtain ⟨f, hf, rfl⟩ := List.mem_map.mp he
  exact plain_intrinsic f.name true false true (function_mem (List.mem_filter.mp hf).1)

theorem prototypeProperties_plain (family : Family) :
    ∀ e ∈ prototypeProperties family, Plain e := by
  intro e he
  have hmethods := methodProperties_plain (prototype family)
  have hconstructor : Plain (constructorProperty family) :=
    plain_intrinsic _ true false true (constructor_mem family)
  cases family with
  | object =>
    rcases List.mem_append.mp he with he | he
    · exact hmethods e he
    · exact List.mem_singleton.mp he ▸ hconstructor
  | error kind =>
    rcases List.mem_append.mp he with he | he
    · simp only [List.mem_cons, List.not_mem_nil, or_false] at he
      rcases he with rfl | rfl | rfl
      · exact plain_primitive _ true false true rfl
      · exact plain_primitive _ true false true rfl
      · exact hconstructor
    · exact hmethods e he
  | number | boolean | string =>
    rcases List.mem_cons.mp he with rfl | he
    · exact hconstructor
    · exact hmethods e he

theorem constructorProperties_plain (family : Family) :
    ∀ e ∈ constructorProperties family, Plain e := by
  intro e he
  rcases List.mem_append.mp he with he | he
  · rcases List.mem_cons.mp he with rfl | he
    · exact plain_intrinsic _ false false false (prototype_mem family)
    · cases family with
      | number =>
        obtain ⟨c, -, rfl⟩ := List.mem_map.mp he
        exact plain_primitive _ false false false rfl
      | object | error | boolean | string => exact absurd he List.not_mem_nil
  · exact methodProperties_plain _ e he

theorem functionObject_plain (up : Intrinsic) (f : Builtin) {extra : List (String × Descriptor)}
    (hextra : ∀ e ∈ extra, Plain e) :
    ∀ e ∈ (functionObject up f extra : Object (Behavior σ)).properties.entries, Plain e := by
  intro e he
  rcases List.mem_append.mp he with he | he
  · simp only [Object.function, List.mem_cons, List.not_mem_nil, or_false] at he
    rcases he with rfl | rfl
    · exact plain_primitive _ false false true rfl
    · exact plain_primitive _ false false true rfl
  · exact hextra e he

/-- All properties of all intrinsic objects are plain. -/
theorem object_plain (i : Intrinsic) :
    ∀ e ∈ (i.object : Object (Behavior σ)).properties.entries, Plain e := by
  cases i with
  | prototype family => exact prototypeProperties_plain family
  | functionPrototype => exact methodProperties_plain _
  | function f =>
    cases f with
    | constructor family => exact functionObject_plain _ _ (constructorProperties_plain family)
    | _ => exact functionObject_plain _ _ fun e he => absurd he List.not_mem_nil

/-- The prototype of an intrinsic object is an intrinsic object. -/
theorem object_prototype (i : Intrinsic) {p : Handle}
    (hp : (i.object : Object (Behavior σ)).prototype = some p) : ∃ j ∈ all, p = j.handle := by
  cases i with
  | prototype family =>
    obtain ⟨j, hj, rfl⟩ := Option.map_eq_some_iff.mp hp
    cases family with
    | object => cases hj
    | error kind => cases kind <;> cases hj <;> exact ⟨_, prototype_mem _, rfl⟩
    | number | boolean | string => cases hj; exact ⟨_, prototype_mem _, rfl⟩
  | functionPrototype => cases hp; exact ⟨_, prototype_mem _, rfl⟩
  | function f =>
    cases f with
    | constructor family =>
      cases hp
      refine ⟨constructorLink family, ?_, rfl⟩
      unfold constructorLink
      split
      · exact functionPrototype_mem
      · exact constructor_mem _
      · exact functionPrototype_mem
    | _ => cases hp; exact ⟨_, functionPrototype_mem, rfl⟩

/-- A function that is intrinsic is built in. -/
theorem object_callable (i : Intrinsic) {f : Callable (Behavior σ)}
    (hf : (i.object : Object (Behavior σ)).callable = some f) : ∃ b, f.behavior = .builtin b := by
  cases i with
  | prototype family => cases hf
  | functionPrototype => cases hf; exact ⟨_, rfl⟩
  | function f => cases f <;> cases hf <;> exact ⟨_, rfl⟩

end Intrinsic

/-- The one frame of a fresh realm is the global one. -/
theorem Scopes.get?_fresh {strict : Bool} {host : σ} {f : FrameId} {frame : Frame}
    (h : (Realm.fresh strict host).scopes.get? f = some frame) :
    frame.bindings = ⟨Frame.globalBindings⟩ := by
  obtain ⟨hlt, rfl⟩ := Array.getElem?_eq_some_iff.mp h
  have hzero : f.index = 0 := by simpa [Realm.fresh] using hlt
  simp [Realm.fresh, hzero]

/-! ## The first world is sound -/

/-- The handles that are known before anything has run. -/
def Handle.Intrinsic (h : Handle) : Prop := ∃ i ∈ Intrinsic.all, h = i.handle

theorem World.lasts_fresh (strict : Bool) (host : σ) {i : Intrinsic} (hi : i ∈ Intrinsic.all) :
    (fresh strict host).Lasts π i.handle := by
  refine .inr ⟨?_, List.not_mem_nil⟩
  rw [show (fresh strict host).get? i.handle = _ from Arena.get?_fresh_handle hi]
  rfl

theorem World.fits_plain (hw : ∀ i ∈ Intrinsic.all, w.Lasts π i.handle) {e : String × Descriptor}
    (he : Intrinsic.Plain e) : w.Fits π e.2 := by
  obtain ⟨v, writable, enumerable, configurable, hd, hv⟩ := he
  have hvalue : w.Fits π v := by
    rcases hv with hv | ⟨i, hi, rfl⟩
    · exact fits_of_handle?_eq_none hv
    · exact fits_object.mpr (hw i hi)
  rw [hd]
  exact fits_descriptor.mpr ⟨fits_some.mpr hvalue, fits_none, fits_none⟩

/-- The first world is sound when the host's state holds on to nothing but
intrinsic objects. -/
theorem World.sound_fresh (strict : Bool) {host : σ}
    (hhost : ∀ h, π.held host h → π.foreign h ∨ h.Intrinsic) :
    (fresh strict host).Sound π where
  arena := Arena.wellFormed_fresh
  boxes_nodup := List.nodup_nil
  boxes_live b hb := absurd hb List.not_mem_nil
  intrinsics i hi := lasts_fresh strict host hi
  objects := by
    intro h o ho
    rw [show (fresh strict host).get? h = _ from Arena.get?_fresh h] at ho
    obtain ⟨i, -, rfl⟩ := Option.map_eq_some_iff.mp ho
    refine ⟨fun e he => ?_, fits_option fun p hp => ?_, fun f hf => ?_⟩
    · exact fits_plain (fun _ => lasts_fresh strict host) (i.object_plain e he)
    · obtain ⟨j, hj, rfl⟩ := i.object_prototype hp
      exact fits_handle.mpr (lasts_fresh strict host hj)
    · obtain ⟨b, hb⟩ := i.object_callable hf
      rw [hb]
      trivial
  frames := by
    intro f frame hframe e he
    rw [Scopes.get?_fresh hframe] at he
    rcases List.mem_append.mp he with he | he
    · obtain ⟨family, -, rfl⟩ := List.mem_map.mp he
      exact fits_object.mpr (lasts_fresh strict host (Intrinsic.constructor_mem family))
    · simp only [List.mem_cons, List.not_mem_nil, or_false] at he
      rcases he with rfl | rfl | rfl
      · exact fits_undefined
      · exact fits_number
      · exact fits_number
  newTarget := fits_none
  host h hh := (hhost h hh).elim .inl fun ⟨i, hi, heq⟩ => heq ▸ lasts_fresh strict host hi

/-! ## Every run begins there -/

/-- The moments of a program that keeps to its policy, from a fresh realm on,
are a course from the first world. -/
theorem Program.history_course [Printer] {strict : Bool} {host : σ} {p : Program σ}
    (hp : p.Obeys π Handle.Intrinsic)
    (hhost : ∀ h, π.held host h → π.foreign h ∨ h.Intrinsic) (allowance : Nat) :
    ∃ w', Course π (World.fresh strict host)
      (p.history allowance (Realm.fresh strict host)) w' := by
  have hw := World.sound_fresh strict hhost
  have hknown : ∀ h, h.Intrinsic → (World.fresh strict host).Lasts π h := by
    rintro h ⟨i, hi, rfl⟩
    exact World.lasts_fresh strict host hi
  obtain ⟨w', hcourse, -⟩ := Program.accounted (Behavior.accounts allowance) hp hknown hw
  exact ⟨w', .still .begun hcourse⟩

/-- The history begins with the realm that the program is started in. -/
theorem Program.begun_mem_history [Printer] (p : Program σ) (allowance : Nat) (r : Realm σ) :
    ⟨.begun, r⟩ ∈ p.history allowance r :=
  List.mem_cons_self

/-- A stretch of the history is a course from a sound world. -/
theorem Program.history_stretch [Printer] {strict : Bool} {host : σ} {p : Program σ}
    (hp : p.Obeys π Handle.Intrinsic)
    (hhost : ∀ h, π.held host h → π.foreign h ∨ h.Intrinsic) {allowance : Nat}
    {first : Moment σ} {later : List (Moment σ)}
    (hrun : first :: later <:+: p.history allowance (Realm.fresh strict host)) :
    ∃ w₁ w₂ : World σ, w₁.Sound π ∧ w₁.realm = first.realm ∧ first.event.Holds π w₁
      ∧ Course π w₁ later w₂ := by
  obtain ⟨w', hcourse⟩ := Program.history_course hp hhost allowance
  exact hcourse.stretch (World.sound_fresh strict hhost) hrun

/-- The realm of every moment is that of a sound world. -/
theorem Program.history_sound [Printer] {strict : Bool} {host : σ} {p : Program σ}
    (hp : p.Obeys π Handle.Intrinsic)
    (hhost : ∀ h, π.held host h → π.foreign h ∨ h.Intrinsic) {allowance : Nat} {m : Moment σ}
    (hm : m ∈ p.history allowance (Realm.fresh strict host)) :
    ∃ w : World σ, w.Sound π ∧ w.realm = m.realm := by
  obtain ⟨before, after, hsplit⟩ := List.append_of_mem hm
  have hstretch : m :: after <:+: p.history allowance (Realm.fresh strict host) :=
    ⟨before, [], by rw [List.append_nil, hsplit]⟩
  obtain ⟨w, -, hw, hrealm, -⟩ := Program.history_stretch hp hhost hstretch
  exact ⟨w, hw, hrealm⟩

/-- The realm that a program leaves is the realm of the last moment of its
history. -/
theorem Program.run_eq_some_getLast [Printer] {strict : Bool} {host : σ} {p : Program σ}
    {allowance : Nat} {c : Completion} {r : Realm σ}
    (hrun : p.run (Behavior.run allowance) (Realm.fresh strict host) = some (c, r)) :
    ((p.history allowance (Realm.fresh strict host)).getLast?).map (·.realm) = some r := by
  have hw : (World.fresh strict host).Sound Policy.free :=
    World.sound_fresh strict fun _ hh => hh.elim
  obtain ⟨w', hcourse, -, hend⟩ := Program.accounted (Behavior.accounts allowance)
    (p.obeys_free fun _ => True) (fun _ _ => .inl trivial) hw
  obtain ⟨rfl, -⟩ := hend c r hrun
  have hall : Course Policy.free (World.fresh strict host)
      (p.history allowance (Realm.fresh strict host)) w' := .still .begun hcourse
  rw [hall.realm_eq, Program.history, List.getLast?_cons]
  rfl

end ScriptRealm
