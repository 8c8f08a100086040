import ScriptRealm.Proofs.OwnProperties
import ScriptRealm.Proofs.Policy
import ScriptRealm.Proofs.Slots

/-!
# World — which handles last

While an access to a primitive is under way, its wrapper occupies a slot that
is going to be given back. The handle of such a box must reach nobody. A
`World` is a realm together with the boxes of the accesses under way, the
innermost first; it exists in statements only, for the realm itself cannot
tell a box from a wrapper that stays.

A handle lasts (`World.Lasts`) when it stands for an object that is not a box.
`World.Sound` is the invariant: the records of the arena agree, and all
handles that objects, bindings, `new.target` and the host hold on to last.
The handles that the policy calls foreign are excepted throughout.
-/

namespace ScriptRealm

/-- A realm and the boxes of the accesses under way, the innermost first. -/
structure World (σ : Type) where
  realm : Realm σ
  boxes : List Handle

variable {σ : Type}

namespace World

/-- The object that a handle stands for. -/
def get? (w : World σ) (h : Handle) : Option (Object (Behavior σ)) := w.realm.arena.get? h

/-- The world with another arena. -/
def withArena (w : World σ) (a : Arena (Behavior σ)) : World σ :=
  { w with realm := { w.realm with arena := a } }

/-- The handle stands for an object that is not a box. -/
def Lasts (π : Policy σ) (w : World σ) (h : Handle) : Prop :=
  π.foreign h ∨ (w.get? h).isSome = true ∧ h ∉ w.boxes

/-- All handles of the data last. -/
def Fits (π : Policy σ) (w : World σ) {α : Type} [Carrier α] (a : α) : Prop :=
  ∀ h ∈ handles a, w.Lasts π h

end World

/-- A host's code in a world knows only handles that last, and keeps to the
policy. -/
def Behavior.Obeys (π : Policy σ) (w : World σ) : Behavior σ → Prop
  | .builtin _ => True
  | .host body => ∃ known : Handle → Prop, (∀ h, known h → w.Lasts π h)
      ∧ ∀ this args, (body this args).Obeys π (learn (learn known this) args)

theorem Behavior.Obeys.mono {π : Policy σ} {w w' : World σ} {b : Behavior σ} (hb : b.Obeys π w)
    (hle : ∀ h, w.Lasts π h → w'.Lasts π h) : b.Obeys π w' := by
  cases b with
  | builtin f => trivial
  | host body =>
    obtain ⟨known, hknown, hbody⟩ := hb
    exact ⟨known, fun h hh => hle h (hknown h hh), hbody⟩

/-- All handles that an object holds on to last. -/
structure Object.Fits (π : Policy σ) (w : World σ) (o : Object (Behavior σ)) : Prop where
  properties : ∀ e ∈ o.properties.entries, w.Fits π e.2
  prototype : w.Fits π o.prototype
  callable : ∀ f, o.callable = some f → f.behavior.Obeys π w

/-- All handles that a frame holds on to last. -/
def Frame.Fits (π : Policy σ) (w : World σ) (f : Frame) : Prop :=
  ∀ e ∈ f.bindings.entries, w.Fits π e.2

/-- The invariant of all runs. -/
structure World.Sound (π : Policy σ) (w : World σ) : Prop where
  arena : w.realm.arena.WellFormed
  boxes_nodup : w.boxes.Nodup
  boxes_live : ∀ b ∈ w.boxes, (w.get? b).isSome = true
  intrinsics : ∀ i ∈ Intrinsic.all, w.Lasts π i.handle
  objects : ∀ {h o}, w.get? h = some o → o.Fits π w
  frames : ∀ {f frame}, w.realm.scopes.get? f = some frame → frame.Fits π w
  newTarget : w.Fits π w.realm.newTarget
  host : ∀ h, π.held w.realm.host h → w.Lasts π h

namespace World

variable {π : Policy σ} {w w' : World σ}

/-! ## Data whose handles last -/

theorem Fits.mono {α : Type} [Carrier α] {a : α} (hle : ∀ h, w.Lasts π h → w'.Lasts π h)
    (ha : w.Fits π a) : w'.Fits π a :=
  fun h hh => hle h (ha h hh)

/-- Data without handles fits every world. -/
theorem Fits.of_nil {α : Type} [Carrier α] {a : α} (h : handles a = []) : w.Fits π a := by
  intro g hg
  rw [h] at hg
  exact absurd hg List.not_mem_nil

/-- Data fits when every handle may be used. -/
theorem fits_free {α : Type} [Carrier α] (w : World σ) (a : α) : w.Fits Policy.free a :=
  fun _ _ => .inl trivial

/-- Handles of two pieces of data taken together. -/
theorem fits_append {α β : Type} [Carrier α] [Carrier β] {a : α} {b : β} :
    (∀ h ∈ handles a ++ handles b, w.Lasts π h) ↔ w.Fits π a ∧ w.Fits π b := by
  simp only [Fits, List.mem_append, or_imp, forall_and]

@[simp] theorem fits_handle {h : Handle} : w.Fits π h ↔ w.Lasts π h := by
  simp [Fits, handles]

@[simp] theorem fits_object {h : Handle} : w.Fits π (Value.object h) ↔ w.Lasts π h := by
  simp [Fits, handles, Value.handle?]

@[simp] theorem fits_none {α : Type} [Carrier α] : w.Fits π (none : Option α) := by
  simp [Fits, handles]

@[simp] theorem fits_some {α : Type} [Carrier α] {a : α} : w.Fits π (some a) ↔ w.Fits π a := by
  simp [Fits, handles]

theorem fits_option {α : Type} [Carrier α] {o : Option α} (h : ∀ a, o = some a → w.Fits π a) :
    w.Fits π o := by
  cases o with
  | none => exact fits_none
  | some a => exact fits_some.mpr (h a rfl)

@[simp] theorem fits_ok {α : Type} [Carrier α] {a : α} :
    w.Fits π (Except.ok a : Except Value α) ↔ w.Fits π a := by
  simp [Fits, handles]

@[simp] theorem fits_error {α : Type} [Carrier α] {e : Value} :
    w.Fits π (Except.error e : Except Value α) ↔ w.Fits π e := by
  simp [Fits, handles]

@[simp] theorem fits_list {α : Type} [Carrier α] {l : List α} :
    w.Fits π l ↔ ∀ a ∈ l, w.Fits π a := by
  simp only [Fits, handles, List.mem_flatMap]
  exact ⟨fun hl a ha h hh => hl h ⟨a, ha, hh⟩, fun hl h ⟨a, ha, hh⟩ => hl a ha h hh⟩

@[simp] theorem fits_descriptor {d : Descriptor} :
    w.Fits π d ↔ w.Fits π d.value ∧ w.Fits π d.get ∧ w.Fits π d.set := by
  simp only [Fits, handles, List.mem_append, or_imp, forall_and, and_assoc]

@[simp] theorem fits_binding {b : Binding} : w.Fits π b ↔ w.Fits π b.value := Iff.rfl

/-- A primitive carries no handle. -/
theorem fits_of_handle?_eq_none {v : Value} (h : v.handle? = none) : w.Fits π v :=
  Fits.of_nil (by simp [handles, h])

@[simp] theorem fits_undefined : w.Fits π Value.undefined := fits_of_handle?_eq_none rfl
@[simp] theorem fits_null : w.Fits π Value.null := fits_of_handle?_eq_none rfl
@[simp] theorem fits_boolean {b : Bool} : w.Fits π (Value.boolean b) := fits_of_handle?_eq_none rfl

@[simp] theorem fits_number {x : Binary64} : w.Fits π (Value.number x) :=
  fits_of_handle?_eq_none rfl

@[simp] theorem fits_string {s : Utf16} : w.Fits π (Value.string s) := fits_of_handle?_eq_none rfl
@[simp] theorem fits_ofText {s : String} : w.Fits π (Value.ofText s) := fits_string

theorem fits_getD {o : Option Value} (h : w.Fits π o) : w.Fits π (o.getD .undefined) := by
  cases o with
  | none => exact fits_undefined
  | some v => exact fits_some.mp h

/-! ## Descriptors -/

/-- Filling in defaults adds no handle. -/
theorem fits_complete {d : Descriptor} (hd : w.Fits π d) : w.Fits π d.complete := by
  obtain ⟨hv, hg, hs⟩ := fits_descriptor.mp hd
  rw [fits_descriptor]
  unfold Descriptor.complete
  split
  · exact ⟨fits_some.mpr (fits_getD hv), hg, hs⟩
  · exact ⟨hv, fits_some.mpr (fits_getD hg), fits_some.mpr (fits_getD hs)⟩

/-- A changed property has its handles from before or from the change. -/
theorem fits_merge {c u : Descriptor} (hc : w.Fits π c) (hu : w.Fits π u) :
    w.Fits π (c.merge u) := by
  obtain ⟨hcv, hcg, hcs⟩ := fits_descriptor.mp hc
  obtain ⟨huv, hug, hus⟩ := fits_descriptor.mp hu
  have hor : ∀ {a b : Option Value}, w.Fits π a → w.Fits π b → w.Fits π (a <|> b) := by
    intro a b ha hb
    cases a with
    | none => exact hb
    | some v => exact ha
  have hturned : w.Fits π (c.turned u) := by
    unfold Descriptor.turned
    rw [fits_descriptor]
    split
    · exact ⟨fits_none, fits_some.mpr fits_undefined, fits_some.mpr fits_undefined⟩
    · split
      · exact ⟨fits_some.mpr fits_undefined, fits_none, fits_none⟩
      · exact ⟨hcv, hcg, hcs⟩
  obtain ⟨htv, htg, hts⟩ := fits_descriptor.mp hturned
  exact fits_descriptor.mpr ⟨hor huv htv, hor hug htg, hor hus hts⟩

end World

namespace Object.Fits

variable {π : Policy σ} {w w' : World σ} {o o' : Object (Behavior σ)}

/-! ## Objects and frames -/

/-- A stored property fits, and one that a string makes up carries no handle. -/
theorem getOwn (ho : o.Fits π w) {key : String} {d : Descriptor} (hd : o.getOwn key = some d) :
    w.Fits π d := by
  rcases Object.getOwn_cases hd with hstored | ⟨v, enumerable, hv, rfl⟩
  · exact ho.properties _ hstored
  · have hvalue : w.Fits π v := World.fits_of_handle?_eq_none hv
    exact World.fits_descriptor.mpr ⟨World.fits_some.mpr hvalue, World.fits_none, World.fits_none⟩

theorem store (ho : o.Fits π w) (key : String) {d : Descriptor} (hd : w.Fits π d) :
    (o.store key d).Fits π w := by
  refine ⟨fun e he => ?_, ho.prototype, ho.callable⟩
  rcases Table.mem_entries_insert he with rfl | he
  · exact hd
  · exact ho.properties e he

theorem discard (ho : o.Fits π w) (key : String) : (o.discard key).Fits π w :=
  ⟨fun e he => ho.properties e (Table.mem_entries_erase he), ho.prototype, ho.callable⟩

theorem define? (ho : o.Fits π w) {key : String} {d : Descriptor} (hd : w.Fits π d)
    (accepted : o.define? key d = some o') : o'.Fits π w := by
  rcases Object.define?_cases accepted with ⟨-, -, rfl⟩ | ⟨current, hown, -, rfl⟩
  · exact ho.store key (World.fits_complete hd)
  · exact ho.store key (World.fits_merge (ho.getOwn hown) hd)

theorem mono (hle : ∀ h, w.Lasts π h → w'.Lasts π h) (ho : o.Fits π w) : o.Fits π w' :=
  ⟨fun e he => (ho.properties e he).mono hle, ho.prototype.mono hle,
    fun f hf => (ho.callable f hf).mono hle⟩

end Object.Fits

namespace Frame.Fits

variable {π : Policy σ} {w w' : World σ} {f : Frame}

theorem mono (hle : ∀ h, w.Lasts π h → w'.Lasts π h) (hf : f.Fits π w) : f.Fits π w' :=
  fun e he => (hf e he).mono hle

theorem bind (hf : f.Fits π w) (name : String) {b : Binding} (hb : w.Fits π b) :
    (f.bind name b).Fits π w := by
  intro e he
  rcases Table.mem_entries_insert he with rfl | he
  · exact hb
  · exact hf e he

theorem unbind (hf : f.Fits π w) (name : String) : (f.unbind name).Fits π w :=
  fun e he => hf e (Table.mem_entries_erase he)

end Frame.Fits

namespace World.Sound

variable {π : Policy σ} {w : World σ}

/-! ## What a sound world answers -/

theorem getOwn (hw : w.Sound π) (h : Handle) (key : String) :
    w.Fits π (w.realm.arena.getOwn h key) := by
  cases hown : w.realm.arena.getOwn h key with
  | none => exact fits_none
  | some d =>
    obtain ⟨o, ho, hd⟩ := Option.bind_eq_some_iff.mp hown
    exact fits_some.mpr ((hw.objects ho).getOwn hd)

/-- What is found along a chain is an own property of some object. -/
theorem find? (hw : w.Sound π) {h : Handle} {key : String} {d : Descriptor}
    (hd : w.realm.arena.find? h key = some d) : w.Fits π d := by
  obtain ⟨g, -, hown⟩ := List.exists_of_findSome?_eq_some hd
  have hfits := hw.getOwn g key
  rw [hown] at hfits
  exact fits_some.mp hfits

theorem prototype? (hw : w.Sound π) (h : Handle) : w.Fits π (w.realm.arena.prototype? h) := by
  unfold Arena.prototype?
  cases ho : w.realm.arena.get? h with
  | none => exact fits_none
  | some o => exact (hw.objects ho).prototype

theorem binding? (hw : w.Sound π) {f : FrameId} {name : String} {b : Binding}
    (hb : w.realm.scopes.binding? f name = some b) : w.Fits π b := by
  obtain ⟨frame, hframe, hfind⟩ := Option.bind_eq_some_iff.mp hb
  exact hw.frames hframe _ (Table.mem_entries_of_find? hfind)

end World.Sound

end ScriptRealm
