import ScriptRealm.Table
import ScriptRealm.Value

/-!
# Scope — frames of bindings

A frame declares names and may lie inside another frame. The frames of a
realm are numbered in the order they were made, and the first is the global
one. Looking a name up walks outward; the walk never visits more frames than
there are.
-/

namespace ScriptRealm

/-- How a name was declared. -/
inductive BindingKind where
  | variable
  | letVariable
  | constant
  | readOnly
deriving DecidableEq

/-- What a name stands for in a frame. Only bindings made by assignment to an
undeclared name can be deleted. -/
structure Binding where
  value : Value
  kind : BindingKind
  initialized : Bool
  deletable : Bool
deriving DecidableEq

/-- The number of a frame. -/
structure FrameId where
  index : Nat
deriving DecidableEq, Inhabited

/-- Bindings, the frame around them, and whether their code is strict. -/
structure Frame where
  bindings : Table Binding
  parent : Option FrameId
  strict : Bool

namespace Frame

/-- Writes a binding. -/
def bind (f : Frame) (name : String) (b : Binding) : Frame :=
  { f with bindings := f.bindings.insert name b }

/-- Declares a name. Variables and read-only names begin with `undefined`; the
others stay uninitialized until `initialize`. -/
def declare (f : Frame) (name : String) (kind : BindingKind) : Frame :=
  f.bind name ⟨.undefined, kind, kind == .variable || kind == .readOnly, false⟩

/-- Declares and initializes a name. -/
def define (f : Frame) (name : String) (kind : BindingKind) (v : Value) : Frame :=
  f.bind name ⟨v, kind, true, false⟩

/-- Initializes a name that the frame declares. -/
def initialize? (f : Frame) (name : String) (v : Value) : Option Frame :=
  (f.bindings.find? name).map fun b => f.bind name { b with value := v, initialized := true }

/-- The binding made by assignment to a name that nothing declares. -/
def defineImplicit (f : Frame) (name : String) (v : Value) : Frame :=
  f.bind name ⟨v, .variable, true, true⟩

/-- Removes a name. -/
def unbind (f : Frame) (name : String) : Frame :=
  { f with bindings := f.bindings.erase name }

end Frame

/-- All frames of a realm. -/
structure Scopes where
  frames : Array Frame

namespace Scopes

/-- The global frame. -/
def globalFrame : FrameId := ⟨0⟩

/-- The frame of a number. -/
def get? (s : Scopes) (f : FrameId) : Option Frame := s.frames[f.index]?

/-- The frame runs strict code. -/
def isStrict (s : Scopes) (f : FrameId) : Bool := ((s.get? f).map (·.strict)).getD false

/-- A new frame: inside a given one it takes over its strictness, outside all
others it has the one it is given. -/
def add (s : Scopes) (parent : Option FrameId) (strict : Bool) : FrameId × Scopes :=
  let strict := match parent with
    | some p => s.isStrict p
    | none => strict
  (⟨s.frames.size⟩, ⟨s.frames.push ⟨Table.empty, parent, strict⟩⟩)

/-- Changes a frame. -/
def modify (s : Scopes) (f : FrameId) (change : Frame → Frame) : Scopes :=
  ⟨s.frames.modify f.index change⟩

/-- The binding of a name in one frame. -/
def binding? (s : Scopes) (f : FrameId) (name : String) : Option Binding :=
  (s.get? f).bind (·.bindings.find? name)

/-- The frame declares the name. -/
def declares (s : Scopes) (f : FrameId) (name : String) : Bool := (s.binding? f name).isSome

/-- At most `fuel` frames from one outward. -/
def chainUpTo (s : Scopes) : Nat → FrameId → List FrameId
  | 0, _ => []
  | fuel + 1, f =>
    match s.get? f with
    | none => []
    | some frame =>
      f :: match frame.parent with
        | none => []
        | some p => chainUpTo s fuel p

/-- The frames from one outward. -/
def chain (s : Scopes) (f : FrameId) : List FrameId := s.chainUpTo s.frames.size f

/-- The innermost frame, from the given one outward, that declares the name. -/
def frameOf? (s : Scopes) (f : FrameId) (name : String) : Option FrameId :=
  (s.chain f).find? (s.declares · name)

/-- The last frame outward. -/
def outermost (s : Scopes) (f : FrameId) : FrameId := ((s.chain f).getLast?).getD f

end Scopes

/-- Where a resolved name is kept. -/
inductive ReferenceBase where
  | frame (f : FrameId)
  | value (v : Value)
deriving DecidableEq

/-- A name that has been looked up, to be read, written or deleted later. An
unresolved one remembers the outermost frame of its chain, where a sloppy
write makes the binding. -/
inductive Reference where
  | unresolved (name : String) (strict : Bool) (outermost : FrameId)
  | resolved (base : ReferenceBase) (name : String) (strict : Bool)
deriving DecidableEq

namespace Reference

/-- The reference `base.name`. -/
def property (base : Value) (name : String) (strict : Bool) : Reference :=
  resolved (.value base) name strict

/-- The name. -/
def name : Reference → String
  | unresolved name _ _ | resolved _ name _ => name

/-- No frame declared the name. -/
def isUnresolvable : Reference → Bool
  | unresolved .. => true
  | resolved .. => false

end Reference

/-- Looks a name up from a frame outward. -/
def Scopes.resolve (s : Scopes) (f : FrameId) (name : String) (strict : Bool) : Reference :=
  match s.frameOf? f name with
  | some frame => .resolved (.frame frame) name strict
  | none => .unresolved name strict (s.outermost f)

end ScriptRealm
