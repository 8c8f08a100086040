import ScriptRealm.Realm.Moments

/-!
# Carrier — the handles that data carries

A handle reaches a script inside other data: a value, a descriptor, a
reference, the answer to a request. `Carrier.handles` lists the handles that
a piece of data carries, for every type of data that passes between the
realm, its functions and its host.
-/

namespace ScriptRealm

/-- Data that may carry handles of objects. -/
class Carrier (α : Type) where
  handles : α → List Handle

export Carrier (handles)

/-! ## Data without handles -/

instance : Carrier Unit := ⟨fun _ => []⟩
instance : Carrier Bool := ⟨fun _ => []⟩
instance : Carrier Nat := ⟨fun _ => []⟩
instance : Carrier String := ⟨fun _ => []⟩
instance : Carrier Binary64 := ⟨fun _ => []⟩
instance : Carrier Utf16 := ⟨fun _ => []⟩
instance : Carrier TypeTag := ⟨fun _ => []⟩
instance : Carrier FrameId := ⟨fun _ => []⟩
instance : Carrier Uncaught := ⟨fun _ => []⟩

/-! ## Data with handles -/

instance : Carrier Handle := ⟨fun h => [h]⟩
instance : Carrier Value := ⟨fun v => v.handle?.toList⟩

instance {α : Type} [Carrier α] : Carrier (Option α) where
  handles
    | none => []
    | some a => handles a

instance {α : Type} [Carrier α] : Carrier (List α) := ⟨fun l => l.flatMap handles⟩

instance {ε α : Type} [Carrier ε] [Carrier α] : Carrier (Except ε α) where
  handles
    | .error e => handles e
    | .ok a => handles a

instance : Carrier Completion where
  handles
    | .normal v | .returned v | .thrown v => handles v
    | .broke _ | .continued _ => []

instance : Carrier Descriptor := ⟨fun d => handles d.value ++ handles d.get ++ handles d.set⟩
instance : Carrier Binding := ⟨fun b => handles b.value⟩

instance : Carrier Reference where
  handles
    | .resolved (.value v) _ _ => handles v
    | .resolved (.frame _) _ _ | .unresolved .. => []

instance : Carrier Inspection :=
  ⟨fun i => handles i.prototype ++ handles (i.stored.map (·.2)) ++ handles i.primitive⟩

instance : Carrier RawEdit where
  handles
    | .store _ d => handles d
    | .discard _ | .retag _ => []

/-- The handles of a request: those of all its parts. -/
def Request.parts : Request → List Handle
  | typeOf v | isCallable v | isConstructor v | format v | toObject v | toPrimitive v _
  | toNumber v | toText v | negate v | uncaught v => handles v
  | looselyEquals a b => handles a ++ handles b
  | call f this args => handles f ++ handles this ++ handles args
  | construct f args => handles f ++ handles args
  | callMethod base _ args => handles base ++ handles args
  | getOwn o _ | delete o _ _ | has o _ | ownKeys o | preventExtensions o | isExtensible o
  | prototypeOf o | inspect o | storedValue o _ => handles o
  | getProperty o _ receiver => handles o ++ handles receiver
  | setProperty o _ v receiver _ => handles o ++ handles v ++ handles receiver
  | define o _ d => handles o ++ handles d
  | setPrototype o prototype => handles o ++ handles prototype
  | edit o e => handles o ++ handles e
  | defineName _ _ _ v | initializeName _ _ v => handles v
  | propertyReference base _ => handles base
  | getValue reference | deleteReference reference => handles reference
  | putValue reference v => handles reference ++ handles v
  | newObject | newTarget | liveObjects | newFrame .. | isStrict _ | setStrict .. | declareName ..
  | binding .. | frameOf .. | outermost _ | resolve .. | resolveGlobal _ | createError .. => []

instance : Carrier Request := ⟨Request.parts⟩

/-- Every answer is data of a kind named above. -/
instance (q : Request) : Carrier q.Answer :=
  match q with
  | .typeOf _ => inferInstanceAs (Carrier TypeTag)
  | .isCallable _ | .isConstructor _ | .define .. | .has .. | .preventExtensions _
  | .isExtensible _ | .setPrototype .. | .edit .. | .isStrict _ | .initializeName .. =>
    inferInstanceAs (Carrier Bool)
  | .format _ => inferInstanceAs (Carrier String)
  | .toObject _ => inferInstanceAs (Carrier (Except Value Handle))
  | .toPrimitive .. | .negate _ | .getProperty .. | .getValue _ =>
    inferInstanceAs (Carrier (Except Value Value))
  | .toNumber _ => inferInstanceAs (Carrier (Except Value Binary64))
  | .toText _ => inferInstanceAs (Carrier (Except Value String))
  | .looselyEquals .. | .setProperty .. | .delete .. | .deleteReference _ =>
    inferInstanceAs (Carrier (Except Value Bool))
  | .newObject => inferInstanceAs (Carrier Handle)
  | .call .. | .construct .. | .callMethod .. => inferInstanceAs (Carrier Completion)
  | .newTarget | .storedValue .. => inferInstanceAs (Carrier (Option Value))
  | .getOwn .. => inferInstanceAs (Carrier (Option Descriptor))
  | .ownKeys _ => inferInstanceAs (Carrier (List String))
  | .prototypeOf _ => inferInstanceAs (Carrier (Option Handle))
  | .inspect _ => inferInstanceAs (Carrier (Option Inspection))
  | .liveObjects => inferInstanceAs (Carrier Nat)
  | .newFrame .. | .outermost _ => inferInstanceAs (Carrier FrameId)
  | .setStrict .. | .declareName .. | .defineName .. => inferInstanceAs (Carrier Unit)
  | .binding .. => inferInstanceAs (Carrier (Option Binding))
  | .frameOf .. => inferInstanceAs (Carrier (Option FrameId))
  | .resolve .. | .resolveGlobal _ | .propertyReference .. => inferInstanceAs (Carrier Reference)
  | .putValue .. => inferInstanceAs (Carrier (Except Value Unit))
  | .createError .. => inferInstanceAs (Carrier Value)
  | .uncaught _ => inferInstanceAs (Carrier Uncaught)

instance : Carrier Event where
  handles
    | .begun | .written => []
    | .entered _ this args => handles this ++ handles args
    | .left c => handles c
    | .answered _ a => handles a
    | .made f => handles f

end ScriptRealm
