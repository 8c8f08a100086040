import ScriptRealm.Object.Basic

/-!
# Arena — where objects live

Objects live in numbered slots, and a handle is a slot number. A slot that
has been released is used again by a later allocation, the last released
first. Handles carry no generation, so a released handle must not be kept;
the one operation that releases sees to that (`ScriptM.autoboxed`).

The chain of an object is the object and the objects reached by following
prototype links. A chain never visits more objects than there are slots.
-/

namespace ScriptRealm

/-- Numbered slots, and the numbers of the empty ones, the last released
first. -/
structure Arena (β : Type) where
  slots : Array (Option (Object β))
  free : List Nat

namespace Arena

variable {β : Type}

/-- The object that a handle stands for. -/
def get? (a : Arena β) (h : Handle) : Option (Object β) := a.slots[h.id]?.join

/-- Puts an object into a slot, which becomes its number. -/
def allocate (a : Arena β) (o : Object β) : Handle × Arena β :=
  match a.free with
  | n :: rest => (⟨n⟩, ⟨a.slots.setIfInBounds n (some { o with id := n }), rest⟩)
  | [] => (⟨a.slots.size⟩, ⟨a.slots.push (some { o with id := a.slots.size }), []⟩)

/-- Empties an occupied slot; an empty or unknown one is left alone. -/
def release (a : Arena β) (h : Handle) : Arena β :=
  match a.get? h with
  | some _ => ⟨a.slots.setIfInBounds h.id none, h.id :: a.free⟩
  | none => a

/-- Changes the object of a handle; without an object nothing happens. -/
def modify (a : Arena β) (h : Handle) (change : Object β → Object β) : Arena β :=
  match a.get? h with
  | some o => { a with slots := a.slots.setIfInBounds h.id (some (change o)) }
  | none => a

/-- The count of objects. -/
def live (a : Arena β) : Nat := a.slots.size - a.free.length

/-! ## Own properties -/

/-- The own property of a handle's object. -/
def getOwn (a : Arena β) (h : Handle) (key : String) : Option Descriptor :=
  (a.get? h).bind (·.getOwn key)

/-- The own keys of a handle's object. -/
def ownKeys (a : Arena β) (h : Handle) : List String :=
  ((a.get? h).map (·.ownKeys)).getD []

/-- The arena after a requested change to one property, or `none` when the
change is refused. -/
def define? (a : Arena β) (h : Handle) (key : String) (d : Descriptor) : Option (Arena β) :=
  ((a.get? h).bind (·.define? key d)).map fun changed => a.modify h fun _ => changed

/-- The handle's object takes new properties. -/
def isExtensible (a : Arena β) (h : Handle) : Bool := ((a.get? h).map (·.extensible)).getD false

/-- The class tag of a handle's object. -/
def tag? (a : Arena β) (h : Handle) : Option ObjectClass := (a.get? h).map (·.tag)

/-- The function of a handle's object. -/
def callable? (a : Arena β) (h : Handle) : Option (Callable β) := (a.get? h).bind (·.callable)

/-! ## Prototype chains -/

/-- The prototype of a handle's object. -/
def prototype? (a : Arena β) (h : Handle) : Option Handle := (a.get? h).bind (·.prototype)

/-- At most `fuel` objects of the chain that starts at a handle. -/
def chainUpTo (a : Arena β) : Nat → Handle → List Handle
  | 0, _ => []
  | fuel + 1, h =>
    match a.get? h with
    | none => []
    | some o =>
      h :: match o.prototype with
        | none => []
        | some p => chainUpTo a fuel p

/-- The objects from a handle along its prototype links. -/
def chain (a : Arena β) (h : Handle) : List Handle := a.chainUpTo a.slots.size h

/-- The first property under a key along the chain. -/
def find? (a : Arena β) (h : Handle) (key : String) : Option Descriptor :=
  (a.chain h).findSome? (a.getOwn · key)

/-- The object `above` is met when following the prototype links of `below`. -/
def isAncestor (a : Arena β) (above below : Handle) : Bool :=
  (a.chain below).tail.contains above

/-- The arena after a change of prototype, or `none` when it is refused. What
already is the prototype is always accepted; else the object must be
extensible, the new prototype must exist, and the object must not lie on its
chain. -/
def setPrototype? (a : Arena β) (h : Handle) (prototype : Option Handle) : Option (Arena β) :=
  match a.get? h with
  | none => none
  | some o =>
    if o.prototype = prototype then some a
    else if !o.extensible then none
    else
      let linked := a.modify h fun o => { o with prototype := prototype }
      match prototype with
      | none => some linked
      | some p =>
        if (a.get? p).isNone || (a.chain p).contains h then none else some linked

end Arena

end ScriptRealm
