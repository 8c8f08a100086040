import ScriptRealm.Number.Shortest
import ScriptRealm.Proofs.Lineage

/-!
# HandleSafety — no handle outlives its object

Slots are used again, and a handle does not tell one object in its slot from
the next. `Moment.Holds` collects the places where a handle may be kept: the
properties and the prototype of an object, the bindings, `new.target`, and
all data that passes to or from functions and programs. `Program.handle_safety`
says that a handle kept anywhere at a moment stands for an object then, and
for that same object at every later moment of the run.

The programs meant are those that use handles they have been given only
(`Policy.careful`). One handle that stands for nothing is excepted: programs
may pass it around, and nothing is said about it.
-/

namespace ScriptRealm

variable {σ : Type}

/-- The policy that handles must have been handed out, one excepted. -/
def Policy.careful (dangling : Handle) (held : σ → Handle → Prop) : Policy σ :=
  ⟨(· = dangling), held, fun _ _ => True, True⟩

/-- The handle is kept somewhere at the moment. -/
inductive Moment.Holds (m : Moment σ) (g : Handle) : Prop
  /-- In a property: as its value, its getter or its setter. -/
  | property {h : Handle} {o : Object (Behavior σ)} {e : String × Descriptor}
      (object : m.realm.arena.get? h = some o) (entry : e ∈ o.properties.entries)
      (mem : g ∈ handles e.2)
  /-- As the prototype of an object. -/
  | prototype {h : Handle} {o : Object (Behavior σ)} (object : m.realm.arena.get? h = some o)
      (link : o.prototype = some g)
  /-- In a binding. -/
  | binding {f : FrameId} {name : String} {b : Binding}
      (bound : m.realm.scopes.binding? f name = some b) (mem : g ∈ handles b)
  /-- In `new.target`. -/
  | newTarget (mem : g ∈ handles m.realm.newTarget)
  /-- In the receiver or the arguments of a function, in how it has ended, or in
  an answer. -/
  | event (mem : g ∈ handles m.event)

variable {π : Policy σ} {w w' : World σ} {ms : List (Moment σ)}

/-- A handle that is kept lasts. -/
theorem Moment.Holds.lasts {m : Moment σ} {g : Handle} (hg : m.Holds g) (hw : w.Sound π)
    (hrealm : w.realm = m.realm) (hevent : w.Fits π m.event) : w.Lasts π g := by
  cases hg with
  | property object entry mem =>
    rw [← hrealm] at object
    exact (hw.objects object).properties _ entry g mem
  | prototype object link =>
    rw [← hrealm] at object
    have hfits := (hw.objects object).prototype
    rw [link] at hfits
    exact World.fits_handle.mp (World.fits_some.mp hfits)
  | binding bound mem =>
    rw [← hrealm] at bound
    exact hw.binding? bound g mem
  | newTarget mem =>
    rw [← hrealm] at mem
    exact hw.newTarget g mem
  | event mem => exact hevent g mem

/-- A handle that lasts stands for an object at every moment of a course. -/
theorem Course.live [Printer] (hw : w.Sound π) (hcourse : Course π w ms w') {g : Handle}
    (hg : w.Lasts π g) (hown : ¬ π.foreign g) :
    ∀ m ∈ ms, (m.realm.arena.get? g).isSome = true := by
  induction hcourse with
  | nil =>
    intro m hm
    cases hm
  | cons move fits rest ih =>
    have hnext := move.lasts hw g hg
    intro m hm
    rcases List.mem_cons.mp hm with rfl | hm
    · exact (hnext.resolve_left hown).1
    · exact ih (move.sound hw) hnext m hm

/-- A handle that is kept at a moment stands for an object, and for the same one
ever after. -/
theorem Program.handle_safety [Printer] {strict : Bool} {host : σ} {dangling : Handle}
    {held : σ → Handle → Prop} (hhost : ∀ h, held host h → h = dangling ∨ h.Intrinsic)
    {p : Program σ} (hp : p.Obeys (Policy.careful dangling held) Handle.Intrinsic)
    {allowance : Nat} {first : Moment σ} {later : List (Moment σ)}
    (hrun : first :: later <:+: p.history allowance (Realm.fresh strict host)) {g : Handle}
    (hg : first.Holds g) (hne : g ≠ dangling) :
    ∃ o, first.realm.arena.get? g = some o ∧ ∀ m ∈ later, ∃ now,
      m.realm.arena.get? g = some now ∧ o.Becomes (Policy.careful dangling held) now := by
  obtain ⟨w₁, w₂, hw, hrealm, hevent, hcourse⟩ := Program.history_stretch hp hhost hrun
  have hlasts := hg.lasts hw hrealm hevent.fits
  obtain ⟨o, ho⟩ := Option.isSome_iff_exists.mp (hlasts.resolve_left hne).1
  have hlive := hcourse.live hw hlasts hne
  refine ⟨o, hrealm ▸ ho, hcourse.becomes hw ho hlive⟩

/-- A method is called on a primitive, which is boxed for the length of the
access: the prototype of all objects stays where it is. -/
theorem Program.handle_safety_callMethod :
    ∃ o, (Realm.fresh false ()).arena.get? (Intrinsic.prototype .object).handle = some o
      ∧ ∀ m ∈ (Program.ask (.callMethod (.boolean true) "toString" []) .finish).moments
          (Behavior.run 1) (Behavior.moments 1) (Realm.fresh false ()),
        ∃ now, m.realm.arena.get? (Intrinsic.prototype .object).handle = some now
          ∧ o.Becomes (Policy.careful ⟨UInt64.size - 1⟩ fun _ _ => False) now := by
  have hobeys : Program.Obeys (Policy.careful ⟨UInt64.size - 1⟩ fun (_ : Unit) _ => False)
      (.ask (.callMethod (.boolean true) "toString" []) .finish) Handle.Intrinsic :=
    ⟨trivial, fun _ hno => absurd hno List.not_mem_nil, fun _ _ hh => .inr (.inr hh)⟩
  have hholds : Moment.Holds ⟨.begun, Realm.fresh false ()⟩ (Intrinsic.prototype .object).handle :=
    .prototype (Arena.get?_fresh_handle Intrinsic.functionPrototype_mem) rfl
  exact Program.handle_safety (fun _ hno => hno.elim) hobeys List.infix_rfl hholds (by decide)

end ScriptRealm
