import ScriptRealm.Scope

/-!
# Frames — what one step does to the bindings

`Scopes.Change` lists every step that anything in a realm takes on the frames
of bindings, each with the condition under which it is taken. What a step
does to a frame is read off `get?_modify` and `get?_add`, what it does to a
binding off `binding?_bind` and `binding?_unbind`.
-/

namespace ScriptRealm.Scopes

/-- One step on the frames. -/
inductive Change (s : Scopes) : Scopes → Prop
  /-- A frame is made. -/
  | add (parent : Option FrameId) (strict : Bool) : Change s (s.add parent strict).2
  /-- A frame's strictness is set. -/
  | setStrict (f : FrameId) (strict : Bool) :
      Change s (s.modify f fun frame => { frame with strict := strict })
  /-- A name is declared. -/
  | declare (f : FrameId) (name : String) (kind : BindingKind) :
      Change s (s.modify f (·.declare name kind))
  /-- A name is declared and initialized. -/
  | define (f : FrameId) (name : String) (kind : BindingKind) (v : Value) :
      Change s (s.modify f (·.define name kind v))
  /-- A declared name is initialized. -/
  | initializeName {f : FrameId} {name : String} {b : Binding} (v : Value)
      (present : s.binding? f name = some b) :
      Change s (s.modify f (·.bind name { b with value := v, initialized := true }))
  /-- A variable that has been initialized is written. -/
  | assign {f : FrameId} {name : String} {b : Binding} (v : Value)
      (present : s.binding? f name = some b) (ready : b.initialized = true)
      (writable : b.kind = .variable ∨ b.kind = .letVariable) :
      Change s (s.modify f (·.bind name { b with value := v }))
  /-- A name is written that its chain did not declare. -/
  | defineImplicit (f : FrameId) (name : String) (v : Value) :
      Change s (s.modify f (·.defineImplicit name v))
  /-- A binding that can be deleted is removed. -/
  | unbind {f : FrameId} {name : String} {b : Binding} (present : s.binding? f name = some b)
      (deletable : b.deletable = true) : Change s (s.modify f (·.unbind name))

/-- A change of one frame leaves the others alone. -/
theorem get?_modify (s : Scopes) (f g : FrameId) (change : Frame → Frame) :
    (s.modify f change).get? g = if g = f then (s.get? f).map change else s.get? g := by
  obtain ⟨m⟩ := f
  obtain ⟨n⟩ := g
  simp only [modify, get?, Array.getElem?_modify, FrameId.mk.injEq]
  by_cases hn : n = m
  · simp [hn]
  · simp [hn, Ne.symm hn]

/-- A change may look at the frame beforehand. -/
theorem modify_const {s : Scopes} {f : FrameId} {frame : Frame} (h : s.get? f = some frame)
    (change : Frame → Frame) : (s.modify f fun _ => change frame) = s.modify f change := by
  unfold modify
  apply congrArg Scopes.mk
  apply Array.ext_getElem?
  intro i
  rw [Array.getElem?_modify, Array.getElem?_modify]
  split
  · rename_i hi
    rw [← hi, show s.frames[f.index]? = some frame from h]
    rfl
  · rfl

/-- A new frame is empty and comes last. -/
theorem get?_add {s : Scopes} {parent : Option FrameId} {strict : Bool} {f : FrameId}
    {frame : Frame} (h : (s.add parent strict).2.get? f = some frame) :
    frame.bindings = Table.empty ∨ s.get? f = some frame := by
  simp only [add, get?, Array.getElem?_push] at h
  split at h
  · cases h
    exact .inl rfl
  · exact .inr h

/-- A name that is bound is bound in a frame that exists. -/
theorem get?_of_binding? {s : Scopes} {f : FrameId} {name : String} {b : Binding}
    (h : s.binding? f name = some b) :
    ∃ frame, s.get? f = some frame ∧ frame.bindings.find? name = some b :=
  Option.bind_eq_some_iff.mp h

/-- What a change of one frame does to the bindings of all. -/
theorem binding?_modify (s : Scopes) (f g : FrameId) (change : Frame → Frame) (name : String) :
    (s.modify f change).binding? g name
      = if g = f then (s.get? f).bind fun frame => (change frame).bindings.find? name
        else s.binding? g name := by
  unfold binding?
  rw [get?_modify]
  split
  · rw [Option.bind_map]
    rfl
  · rfl

/-- A written binding is found, if its frame exists, and nothing else changes. -/
theorem binding?_bind (s : Scopes) (f g : FrameId) (name other : String) (b : Binding) :
    (s.modify f (·.bind name b)).binding? g other
      = if g = f ∧ other = name then (s.get? f).map fun _ => b else s.binding? g other := by
  rw [binding?_modify]
  by_cases hg : g = f
  · subst hg
    cases hf : s.get? g with
    | none => simp [binding?, hf]
    | some frame => simp [binding?, hf, Frame.bind, Table.find?_insert]
  · simp [hg]

/-- A removed name is not bound, and nothing else changes. -/
theorem binding?_unbind (s : Scopes) (f g : FrameId) (name other : String) :
    (s.modify f (·.unbind name)).binding? g other
      = if g = f ∧ other = name then none else s.binding? g other := by
  rw [binding?_modify]
  by_cases hg : g = f
  · subst hg
    cases hf : s.get? g with
    | none => simp [binding?, hf]
    | some frame => simp [binding?, hf, Frame.unbind, Table.find?_erase]
  · simp [hg]

end ScriptRealm.Scopes
