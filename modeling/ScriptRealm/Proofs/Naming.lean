import ScriptRealm.Proofs.Bookkeeping
import ScriptRealm.Proofs.Declarations
import ScriptRealm.Proofs.Walks

/-!
# Naming — a name is written and read again

Frames are shared: a frame lies inside one other at most, but around any number
of them. `Scopes.Outward` is the walk from a frame to the one that has none
around it, with no bound on its length, and the frame that a name stands for is
the first on that walk which declares it (`Scopes.Innermost`).

`Scopes.Takes` and `Scopes.Refuses` say which frame a write may change and why a
write throws. `Realm.NameWrite` is all that a write to a name does, and
`Realm.name_written` says that it does that: one binding of one frame changes at
most, and every frame whose walk comes to the written one past frames that do not
declare the name reads what has been written.

That there is such a walk from every frame is so whenever the frame around a
frame is one that has been made before (`Program.frames_nested`).
-/

namespace ScriptRealm

theorem FrameId.index_injective : Function.Injective FrameId.index := by
  rintro ⟨m⟩ ⟨n⟩ rfl
  rfl

namespace Scopes

variable {s s' : Scopes} {f g : FrameId} {l inner outer : List FrameId} {name : String}
  {b : Binding}

/-! ## Walks outward -/

/-- What is around a frame that is there. -/
def around? (s : Scopes) (f : FrameId) : Option (Option FrameId) := (s.get? f).map (·.parent)

/-- From a frame outward one passes the listed frames, itself first, the last of which
has none around it. -/
def Outward (s : Scopes) (f : FrameId) (l : List FrameId) : Prop := Walk s.around? f l

theorem lt_size_of_around? (hf : (s.around? f).isSome = true) : f.index < s.frames.size := by
  rw [around?, Option.isSome_map] at hf
  obtain ⟨frame, hframe⟩ := Option.isSome_iff_exists.mp hf
  exact (Array.getElem?_eq_some_iff.mp hframe).1

theorem numbered (s : Scopes) : Numbered s.around? FrameId.index s.frames.size where
  injective := FrameId.index_injective
  lt _ := lt_size_of_around?

/-- The chain of a frame is a climb outward. -/
theorem chain_eq_climb (s : Scopes) (f : FrameId) :
    s.chain f = climb s.around? s.frames.size f := by
  suffices hfuel : ∀ fuel f, s.chainUpTo fuel f = climb s.around? fuel f from hfuel _ f
  intro fuel
  induction fuel with
  | zero => exact fun _ => rfl
  | succ fuel ih =>
    intro f
    rw [chainUpTo, climb, around?]
    cases s.get? f with
    | none => rfl
    | some frame => cases hparent : frame.parent <;> simp [hparent, ih]

/-- The chain of a frame is the whole way outward. -/
theorem Outward.chain_eq (hl : s.Outward f l) : s.chain f = l :=
  (s.chain_eq_climb f).trans (hl.climb_eq s.numbered)

/-! ## The frame that a name stands for -/

/-- No listed frame declares the name. -/
def Undeclared (s : Scopes) (l : List FrameId) (name : String) : Prop :=
  ∀ g ∈ l, s.binding? g name = none

/-- The first of the listed frames that declares the name, and what the name stands for
there. -/
structure Innermost (s : Scopes) (l : List FrameId) (name : String) (f : FrameId)
    (b : Binding) : Prop where
  first : ∃ inner outer, l = inner ++ f :: outer ∧ s.Undeclared inner name
  bound : s.binding? f name = some b

instance : Decidable (s.Undeclared l name) :=
  inferInstanceAs (Decidable (∀ g ∈ l, s.binding? g name = none))

theorem Undeclared.append (hinner : s.Undeclared inner name) (houter : s.Undeclared outer name) :
    s.Undeclared (inner ++ outer) name :=
  fun g hg => (List.mem_append.mp hg).elim (hinner g) (houter g)

theorem innermost_or_undeclared (s : Scopes) (l : List FrameId) (name : String) :
    (∃ f b, s.Innermost l name f b) ∨ s.Undeclared l name := by
  induction l with
  | nil => exact .inr fun g hg => absurd hg List.not_mem_nil
  | cons f l ih =>
    cases hf : s.binding? f name with
    | some b => exact .inl ⟨f, b, ⟨[], l, rfl, fun g hg => absurd hg List.not_mem_nil⟩, hf⟩
    | none =>
      have hhead : s.Undeclared [f] name := fun g hg => List.mem_singleton.mp hg ▸ hf
      rcases ih with ⟨g, b, ⟨inner, outer, rfl, hinner⟩, hb⟩ | hnone
      · exact .inl ⟨g, b, ⟨f :: inner, outer, rfl, hhead.append hinner⟩, hb⟩
      · exact .inr (hhead.append hnone)

theorem Undeclared.find? (hnone : s.Undeclared l name) : l.find? (s.declares · name) = none :=
  List.find?_eq_none.mpr fun g hg => by simp [declares, hnone g hg]

theorem Innermost.find? (hfirst : s.Innermost l name f b) :
    l.find? (s.declares · name) = some f := by
  obtain ⟨⟨inner, outer, rfl, hinner⟩, hb⟩ := hfirst
  rw [List.find?_append, Undeclared.find? hinner, Option.none_or, List.find?_cons_of_pos]
  simp [declares, hb]

theorem Innermost.not_undeclared (hfirst : s.Innermost l name f b) : ¬ s.Undeclared l name := by
  intro hnone
  have hfind := hfirst.find?
  rw [hnone.find?] at hfind
  cases hfind

/-- A name stands for one frame and one binding. -/
theorem Innermost.unique {c : Binding} (hfirst : s.Innermost l name f b)
    (hfirst' : s.Innermost l name g c) : f = g ∧ b = c := by
  obtain rfl : f = g := Option.some.inj (hfirst.find?.symm.trans hfirst'.find?)
  exact ⟨rfl, Option.some.inj (hfirst.bound.symm.trans hfirst'.bound)⟩

/-- A name that a chain declares is resolved to the first frame that does. -/
theorem Innermost.resolve_eq (hfirst : s.Innermost l name f b) (hl : s.Outward g l)
    (strict : Bool) : s.resolve g name strict = .resolved (.frame f) name strict := by
  rw [resolve, frameOf?, hl.chain_eq, hfirst.find?]

/-- A name that a chain does not declare is remembered with the last frame of the
chain. -/
theorem Undeclared.resolve_eq (hnone : s.Undeclared (inner ++ [f]) name)
    (hl : s.Outward g (inner ++ [f])) (strict : Bool) :
    s.resolve g name strict = .unresolved name strict f := by
  rw [resolve, frameOf?, hl.chain_eq, hnone.find?, outermost, hl.chain_eq,
    List.getLast?_append]
  rfl

/-! ## Which frame takes a write, and why a write throws -/

/-- The frame whose binding a write to the name may change: the innermost that declares
it, or the last when none does and the code is sloppy. -/
inductive Takes (s : Scopes) (l : List FrameId) (name : String) (strict : Bool) :
    FrameId → Prop
  | innermost {f : FrameId} {b : Binding} (first : s.Innermost l name f b) : Takes s l name strict f
  | outermost {f : FrameId} (undeclared : s.Undeclared l name) (sloppy : strict = false)
      (last : l.getLast? = some f) : Takes s l name strict f

/-- The cause for which a write to the name throws, and the kind of error. -/
inductive Refuses (s : Scopes) (l : List FrameId) (name : String) (strict : Bool) :
    ErrorKind → Fault → Prop
  | undeclared (undeclared : s.Undeclared l name) (isStrict : strict = true) :
      Refuses s l name strict .referenceError (.notDefined name)
  | uninitialized {f : FrameId} {b : Binding} (first : s.Innermost l name f b)
      (unready : b.initialized = false) :
      Refuses s l name strict .referenceError (.uninitialized name)
  | constant {f : FrameId} {b : Binding} (first : s.Innermost l name f b)
      (ready : b.initialized = true) (kind : b.kind = .constant) :
      Refuses s l name strict .referenceError (.constantAssigned name)
  | readOnly {f : FrameId} {b : Binding} (first : s.Innermost l name f b)
      (ready : b.initialized = true) (kind : b.kind = .readOnly) (isStrict : strict = true) :
      Refuses s l name strict .typeError (.readOnlyName name)

/-- A write to a name that nothing declares throws in strict code only. -/
theorem Refuses.strict_of_undeclared {strict : Bool} {kind : ErrorKind} {why : Fault}
    (hwhy : s.Refuses l name strict kind why) (hnone : s.Undeclared l name) : strict = true := by
  cases hwhy with
  | undeclared _ isStrict => exact isStrict
  | uninitialized first | constant first | readOnly first => exact absurd hnone first.not_undeclared

/-! ## The frames after a write -/

/-- What a change of one frame leaves as it is of that frame, it leaves of all. -/
theorem map_get?_modify {γ : Type} (s : Scopes) (f : FrameId) (change : Frame → Frame)
    (part : Frame → γ) (hkept : ∀ frame, part (change frame) = part frame) (g : FrameId) :
    ((s.modify f change).get? g).map part = (s.get? g).map part := by
  rw [get?_modify]
  split
  · rename_i hg
    rw [hg, Option.map_map, show part ∘ change = part from funext hkept]
  · rfl

theorem around?_modify (s : Scopes) (f : FrameId) (change : Frame → Frame)
    (hkept : ∀ frame, (change frame).parent = frame.parent) :
    (s.modify f change).around? = s.around? :=
  funext (s.map_get?_modify f change (·.parent) hkept)

theorem around?_bind (s : Scopes) (f : FrameId) (name : String) (b : Binding) :
    (s.modify f (·.bind name b)).around? = s.around? :=
  s.around?_modify f _ fun _ => rfl

theorem isStrict_bind (s : Scopes) (f : FrameId) (name : String) (b : Binding) :
    (s.modify f (·.bind name b)).isStrict = s.isStrict := by
  funext g
  exact congrArg (Option.getD · false)
    (s.map_get?_modify f (·.bind name b) (·.strict) (fun _ => rfl) g)

/-- A binding that is written in the first frame that may declare it is the innermost. -/
theorem innermost_bind (hinner : s.Undeclared inner name) (hf : f ∉ inner)
    (hthere : (s.around? f).isSome = true) (outer : List FrameId) (b : Binding) :
    (s.modify f (·.bind name b)).Innermost (inner ++ f :: outer) name f b where
  first := by
    refine ⟨inner, outer, rfl, fun g hg => ?_⟩
    rw [binding?_bind, if_neg, hinner g hg]
    rintro ⟨rfl, -⟩
    exact hf hg
  bound := by
    rw [around?, Option.isSome_map] at hthere
    obtain ⟨frame, hframe⟩ := Option.isSome_iff_exists.mp hthere
    rw [binding?_bind, if_pos ⟨rfl, rfl⟩, hframe]
    rfl

end Scopes

variable {σ : Type} {runner : Runner σ} {r r' : Realm σ} {env f : FrameId} {l : List FrameId}
  {name : String} {strict : Bool} {v : Value} {b : Binding}

/-! ## Every walk outward ends -/

namespace Scopes

variable {s s' : Scopes}

/-- The frame around a frame has been made before it. -/
def Nested (s : Scopes) : Prop := ∀ f g, Links s.around? f g → g.index < f.index

/-- What is around a frame is one that is there, and another one. -/
def Around (s : Scopes) : Prop :=
  ∀ f g, Links s.around? f g → (s.around? g).isSome = true ∧ g ≠ f

theorem around?_add (s : Scopes) (parent : Option FrameId) (strict : Bool) (f : FrameId) :
    (s.add parent strict).2.around? f
      = if f.index = s.frames.size then some parent else s.around? f := by
  simp only [around?, get?, add, Array.getElem?_push]
  split <;> rfl

/-- A frame that is made inside one that is there and another is made after it. -/
theorem Change.nested (change : s.Change s') (hthere : s'.Around) (hs : s.Nested) : s'.Nested := by
  have hsame : s'.around? = s.around? → s'.Nested := by
    intro haround f g hlink
    rw [Links, haround] at hlink
    exact hs f g hlink
  cases change with
  | add parent strict =>
    intro f g hlink
    obtain ⟨hg, hne⟩ := hthere f g hlink
    rw [Links, around?_add] at hlink
    split at hlink
    · rename_i hf
      have hlt : g.index < s.frames.size + 1 := by simpa [Scopes.add] using lt_size_of_around? hg
      have hindex : g.index ≠ f.index := fun heq => hne (FrameId.index_injective heq)
      omega
    · exact hs f g hlink
  | setStrict f strict => exact hsame (s.around?_modify f _ fun _ => rfl)
  | declare f name kind => exact hsame (s.around?_bind ..)
  | define f name kind v => exact hsame (s.around?_bind ..)
  | initializeName v present => exact hsame (s.around?_bind ..)
  | assign v present ready writable => exact hsame (s.around?_bind ..)
  | defineImplicit f name v => exact hsame (s.around?_bind ..)
  | unbind present deletable => exact hsame (s.around?_modify _ _ fun _ => rfl)

theorem nested_fresh (strict : Bool) (host : σ) : (Realm.fresh strict host).scopes.Nested := by
  intro f g hlink
  obtain ⟨frame, hframe, hparent⟩ := Option.map_eq_some_iff.mp hlink
  obtain ⟨hlt, rfl⟩ := Array.getElem?_eq_some_iff.mp hframe
  have hzero : f.index = 0 := by simpa [Realm.fresh] using hlt
  simp [Realm.fresh, hzero] at hparent

end Scopes

/-- As long as frames are made inside frames that are there, there is a walk outward from
every frame at every moment of a run. -/
theorem Program.frames_nested [Printer] {host : σ} {p : Program σ} {allowance : Nat}
    (hthere : ∀ m ∈ p.history allowance (Realm.fresh strict host), m.realm.scopes.Around)
    {m : Moment σ} (hm : m ∈ p.history allowance (Realm.fresh strict host))
    (hf : (m.realm.scopes.around? f).isSome = true) : ∃ l, m.realm.scopes.Outward f l := by
  obtain ⟨w', hcourse⟩ := Program.history_course (p.obeys_free _) (fun _ hheld => hheld.elim)
    allowance
  have hnested := hcourse.scopes (fun _ _ hchange => hchange.nested) hthere
    (Scopes.nested_fresh strict host) m hm
  exact Walk.exists_of_descending FrameId.index
    (fun g h hlink => ⟨(hthere m hm g h hlink).1, hnested g h hlink⟩) hf

/-! ## All that a write to a name does -/

/-- Looked up from a frame again, by strict or sloppy code, and read, the name gives the
value, and nothing changes. -/
def Realm.Reads [Printer] (r : Realm σ) (env : FrameId) (name : String) (v : Value) : Prop :=
  ∀ (runner : Runner σ) (strict : Bool),
    (Request.getValue (r.scopes.resolve env name strict)).perform.run runner r = some (.ok v, r)

/-- Every frame whose walk comes to the chain past frames that do not declare the name
reads the value. -/
def Realm.ReadFromWithin [Printer] (before r : Realm σ) (l : List FrameId) (name : String)
    (v : Value) :
    Prop :=
  ∀ inner env, before.scopes.Outward env (inner ++ l) → before.scopes.Undeclared inner name →
    r.Reads env name v

/-- All that a write to a name does that has been looked up along a chain. -/
structure Realm.NameWrite [Printer] (r : Realm σ) (l : List FrameId) (name : String) (strict : Bool)
    (v : Value) (result : Except Value Unit) (r' : Realm σ) : Prop where
  /-- It throws exactly when there is a cause. -/
  throws_iff : (∃ e, result = .error e) ↔ ∃ kind why, r.scopes.Refuses l name strict kind why
  /-- What is thrown is a new error that tells the cause, and no binding changes. -/
  thrown : ∀ e, result = .error e → ∃ kind why h, r.scopes.Refuses l name strict kind why
    ∧ e = .object h ∧ r.Gains why.toError h r' ∧ r'.error? h = some ⟨kind, why.message⟩
    ∧ r'.scopes = r.scopes
  /-- Otherwise only frames change. -/
  silent : result = .ok () → r' = { r with scopes := r'.scopes }
  /-- No other binding of any frame changes. -/
  elsewhere : ∀ f other, ¬ (r.scopes.Takes l name strict f ∧ other = name) →
    r'.scopes.binding? f other = r.scopes.binding? f other
  /-- The frames stay as they are but for that. -/
  around : r'.scopes.around? = r.scopes.around?
  strictness : r'.scopes.isStrict = r.scopes.isStrict
  /-- What has been written is read. -/
  read : result = .ok () → (∀ f b, r.scopes.Innermost l name f b → b.kind ≠ .readOnly) →
    r.ReadFromWithin r' l name v
  /-- A read-only name stays as it was. -/
  readOnly : ∀ f b, r.scopes.Innermost l name f b → b.kind = .readOnly →
    r'.scopes = r.scopes
      ∧ (result = .ok () ∨ b.initialized = true → r.ReadFromWithin r' l name b.value)

/-- A name that is declared and initialized is read. -/
theorem Realm.reads_of_innermost [Printer] (hl : r.scopes.Outward env l)
    (hfirst : r.scopes.Innermost l name f b) (hready : b.initialized = true) :
    r.Reads env name b.value := by
  intro runner strict
  rw [hfirst.resolve_eq hl]
  show (ScriptM.getValue _).attempt.run runner r = _
  rw [ScriptM.getValue, ScriptM.run_realm_bind, hfirst.bound]
  simp only [hready, if_true]
  rfl

/-- From a frame within, past frames that do not declare the name, the same binding is
the innermost. -/
theorem Scopes.Innermost.within {s : Scopes} (hfirst : s.Innermost l name f b)
    {inner : List FrameId} (hinner : s.Undeclared inner name) :
    s.Innermost (inner ++ l) name f b := by
  obtain ⟨⟨before, after, rfl, hbefore⟩, hb⟩ := hfirst
  exact ⟨⟨inner ++ before, after, (List.append_assoc ..).symm, hinner.append hbefore⟩, hb⟩

namespace Realm.NameWrite

/-- A write that throws. -/
theorem refused [Printer] (wf : r.arena.WellFormed) {kind : ErrorKind} {why : Fault}
    (hwhy : r.scopes.Refuses l name strict kind why) (hkind : why.kind = kind) :
    r.NameWrite l name strict v (.error (.object r.arena.upcoming))
      { r with arena := (r.arena.allocate why.toError).2 } where
  throws_iff := ⟨fun _ => ⟨kind, why, hwhy⟩, fun _ => ⟨_, rfl⟩⟩
  thrown := by
    rintro e ⟨⟩
    have hgains := Realm.gains_allocate wf (why.toError (β := Behavior σ))
    refine ⟨kind, why, _, hwhy, rfl, hgains, ?_, rfl⟩
    rw [Realm.error?, hgains.object, ← hkind]
    rfl
  silent := nofun
  elsewhere _ _ _ := rfl
  around := rfl
  strictness := rfl
  read := nofun
  readOnly f b hfirst _ := by
    refine ⟨rfl, fun hready inner env hl hinner => ?_⟩
    exact Realm.reads_of_innermost hl (hfirst.within hinner) (hready.resolve_left nofun)

/-- A sloppy write to a read-only name. -/
theorem ignored [Printer] (hfirst : r.scopes.Innermost l name f b) (hready : b.initialized = true)
    (hkind : b.kind = .readOnly) (hsloppy : strict = false) :
    r.NameWrite l name strict v (.ok ()) r where
  throws_iff := by
    refine ⟨fun ⟨_, he⟩ => (nomatch he), ?_⟩
    rintro ⟨_, _, hundeclared | ⟨hother, hunready⟩ | ⟨hother, -, hconstant⟩ | ⟨-, -, -, hstrict⟩⟩
    · exact absurd hundeclared hfirst.not_undeclared
    · rw [← (hfirst.unique hother).2, hready] at hunready
      cases hunready
    · rw [← (hfirst.unique hother).2, hkind] at hconstant
      cases hconstant
    · rw [hsloppy] at hstrict
      cases hstrict
  thrown := nofun
  silent _ := rfl
  elsewhere _ _ _ := rfl
  around := rfl
  strictness := rfl
  read _ hnot := absurd hkind (hnot f b hfirst)
  readOnly g c hother _ := by
    obtain ⟨rfl, rfl⟩ := hfirst.unique hother
    refine ⟨rfl, fun _ inner env hl hinner => ?_⟩
    exact Realm.reads_of_innermost hl (hfirst.within hinner) hready

/-- A write that is made, in the first frame that may declare the name. -/
theorem made [Printer] {inner outer : List FrameId}
    (hl : r.scopes.Outward env (inner ++ f :: outer)) (hinner : r.scopes.Undeclared inner name)
    (htakes : r.scopes.Takes (inner ++ f :: outer) name strict f)
    (hno : ∀ kind why, ¬ r.scopes.Refuses (inner ++ f :: outer) name strict kind why)
    (hwritable : ∀ g c, r.scopes.Innermost (inner ++ f :: outer) name g c → c.kind ≠ .readOnly)
    (hvalue : b.value = v) (hready : b.initialized = true) :
    r.NameWrite (inner ++ f :: outer) name strict v (.ok ()) (r.withFrame f (·.bind name b)) where
  throws_iff := ⟨fun ⟨_, he⟩ => (nomatch he), fun ⟨_, _, hwhy⟩ => absurd hwhy (hno _ _)⟩
  thrown := nofun
  silent _ := rfl
  elsewhere g other hother := by
    rw [Realm.withFrame, Scopes.binding?_bind, if_neg]
    rintro ⟨rfl, rfl⟩
    exact hother ⟨htakes, rfl⟩
  around := Scopes.around?_bind ..
  strictness := Scopes.isStrict_bind ..
  read _ _ within env hwithin hnone := by
    have hthere := hl.present f (List.mem_append_right _ List.mem_cons_self)
    have hwalk : (r.scopes.modify f (·.bind name b)).Outward env
        (within ++ (inner ++ f :: outer)) :=
      hwithin.transport fun g _ => by rw [Scopes.around?_bind]
    have hpast : f ∉ within ++ inner := by
      have hnodup := hwithin.nodup
      rw [← List.append_assoc] at hnodup
      exact fun hmem => (List.nodup_append.mp hnodup).2.2 f hmem f List.mem_cons_self rfl
    rw [← List.append_assoc] at hwalk
    rw [← hvalue]
    exact Realm.reads_of_innermost hwalk
      (Scopes.innermost_bind (hnone.append hinner) hpast hthere outer b) hready
  readOnly g c hfirst hkind := absurd hkind (hwritable g c hfirst)

end Realm.NameWrite

/-- A name that nothing declares throws in strict code, and is otherwise bound in the
last frame of the chain. -/
theorem Scopes.Undeclared.written [Printer] (hnone : r.scopes.Undeclared l name)
    (hreach : r.Reachable) (hl : r.scopes.Outward env l) (strict : Bool) (v : Value) :
    ∃ result r', (∀ runner : Runner σ,
        (Request.putValue (r.scopes.resolve env name strict) v).perform.run runner r
          = some (result, r'))
      ∧ r.NameWrite l name strict v result r' := by
  obtain ⟨inner, f, rfl⟩ : ∃ inner f, l = inner ++ [f] :=
    (List.eq_nil_or_concat' l).resolve_left (List.ne_nil_of_mem hl.head_mem)
  rw [hnone.resolve_eq hl]
  cases strict with
  | true =>
    exact ⟨_, _, fun runner => ScriptM.run_raise (.notDefined name) r,
      .refused hreach.wellFormed (.undeclared hnone rfl) rfl⟩
  | false =>
    refine ⟨_, _, fun runner => rfl, .made (b := ⟨v, .variable, true, true⟩) hl
      (fun g hg => hnone g (List.mem_append_left _ hg)) (.outermost hnone rfl ?_) ?_ ?_ rfl rfl⟩
    · rw [List.getLast?_append]
      rfl
    · exact fun kind why hwhy => absurd (hwhy.strict_of_undeclared hnone) nofun
    · exact fun g c hfirst => absurd hnone hfirst.not_undeclared

/-- A variable that has been initialized is written. -/
theorem Scopes.Innermost.assigned [Printer] (hfirst : r.scopes.Innermost l name f b)
    (hl : r.scopes.Outward env l) (hready : b.initialized = true) (hconstant : b.kind ≠ .constant)
    (hreadOnly : b.kind ≠ .readOnly) (strict : Bool) (v : Value) :
    r.NameWrite l name strict v (.ok ()) (r.withFrame f (·.bind name { b with value := v })) := by
  obtain ⟨inner, outer, rfl, hinner⟩ := hfirst.first
  have hsame : ∀ g c, r.scopes.Innermost (inner ++ f :: outer) name g c → b = c :=
    fun g c hother => (hfirst.unique hother).2
  refine .made hl hinner (.innermost hfirst) ?_ (fun g c hother => hsame g c hother ▸ hreadOnly)
    rfl hready
  rintro _ _ (⟨hnone, -⟩ | ⟨hother, hunready⟩ | ⟨hother, -, hkind⟩ | ⟨hother, -, hkind, -⟩)
  · exact hfirst.not_undeclared hnone
  · rw [← hsame _ _ hother, hready] at hunready
    cases hunready
  · exact hconstant (hsame _ _ hother ▸ hkind)
  · exact hreadOnly (hsame _ _ hother ▸ hkind)

/-- A name that is declared is written in the first frame that declares it, if its
binding lets it be. -/
theorem Scopes.Innermost.written [Printer] (hfirst : r.scopes.Innermost l name f b)
    (hreach : r.Reachable) (hl : r.scopes.Outward env l) (strict : Bool) (v : Value) :
    ∃ result r', (∀ runner : Runner σ,
        (Request.putValue (r.scopes.resolve env name strict) v).perform.run runner r
          = some (result, r'))
      ∧ r.NameWrite l name strict v result r' := by
  have wf := hreach.wellFormed
  have hrun : ∀ runner : Runner σ, ∀ ended,
      (ScriptM.putValue v (.resolved (.frame f) name strict)).attempt.run runner r = ended →
      (Request.putValue (r.scopes.resolve env name strict) v).perform.run runner r = ended := by
    rintro runner _ rfl
    rw [hfirst.resolve_eq hl]
    rfl
  have hbound := hfirst.bound
  obtain ⟨value, kind, initialized, deletable⟩ := b
  cases initialized with
  | false =>
    refine ⟨_, _, fun runner => hrun runner _ ?_, .refused wf (.uninitialized hfirst rfl) rfl⟩
    simp only [ScriptM.putValue, ScriptM.run_realm_bind, hbound]
    exact ScriptM.run_raise (.uninitialized name) r
  | true =>
    cases kind with
    | constant =>
      refine ⟨_, _, fun runner => hrun runner _ ?_, .refused wf (.constant hfirst rfl rfl) rfl⟩
      simp only [ScriptM.putValue, ScriptM.run_realm_bind, hbound]
      exact ScriptM.run_raise (.constantAssigned name) r
    | readOnly =>
      cases strict with
      | true =>
        refine ⟨_, _, fun runner => hrun runner _ ?_,
          .refused wf (.readOnly hfirst rfl rfl rfl) rfl⟩
        simp only [ScriptM.putValue, ScriptM.run_realm_bind, hbound]
        exact ScriptM.run_raise (.readOnlyName name) r
      | false =>
        refine ⟨_, _, fun runner => hrun runner _ ?_, .ignored hfirst rfl rfl rfl⟩
        simp only [ScriptM.putValue, ScriptM.run_realm_bind, hbound]
        rfl
    | _ =>
      refine ⟨_, _, fun runner => hrun runner _ ?_, hfirst.assigned hl rfl nofun nofun strict v⟩
      simp only [ScriptM.putValue, ScriptM.run_realm_bind, hbound]
      rfl

/-- A name that is looked up from a frame and written through what the lookup gave is
written as `Realm.NameWrite` says; the lookup fails exactly when no frame outward
declares the name. -/
theorem Realm.name_written [Printer] (hreach : r.Reachable) (hl : r.scopes.Outward env l)
    (name : String) (strict : Bool) (v : Value) :
    ((r.scopes.resolve env name strict).isUnresolvable = true ↔ r.scopes.Undeclared l name)
      ∧ ∃ result r', (∀ runner : Runner σ,
          (Request.putValue (r.scopes.resolve env name strict) v).perform.run runner r
            = some (result, r'))
        ∧ r.NameWrite l name strict v result r' := by
  rcases r.scopes.innermost_or_undeclared l name with ⟨f, b, hfirst⟩ | hnone
  · refine ⟨?_, hfirst.written hreach hl strict v⟩
    rw [hfirst.resolve_eq hl]
    exact ⟨fun hno => (nomatch hno), fun hnone => absurd hnone hfirst.not_undeclared⟩
  · refine ⟨⟨fun _ => hnone, fun _ => ?_⟩, hnone.written hreach hl strict v⟩
    rw [Scopes.resolve, Scopes.frameOf?, hl.chain_eq, hnone.find?]
    rfl

/-- Frames for code that has names of its own: one outside all others, one inside it, and
one inside that. -/
def Program.ownFrames : Program Unit :=
  .ask (.newFrame none false) fun outer =>
    .ask (.newFrame (some outer) false) fun middle =>
      .ask (.newFrame (some middle) false) fun _ => .finish (.normal .undefined)

/-- A name that is written from the middle frame is read from the inner one, and has not
become a global one. -/
theorem Realm.name_written_ownFrames :
    ∃ r r' : Realm Unit, r.Reachable ∧ r.scopes.Outward ⟨2⟩ [⟨2⟩, ⟨1⟩]
      ∧ (∀ runner, (Request.putValue (r.scopes.resolve ⟨2⟩ "k" false) .null).perform.run runner r
        = some (.ok (), r'))
      ∧ r'.Reads ⟨3⟩ "k" .null ∧ r'.scopes.binding? Scopes.globalFrame "k" = none := by
  obtain ⟨x, hx, hinner, hl, hnone, hglobal⟩ : ∃ x,
      (Program.ownFrames.history 0 (Realm.fresh false ())).getLast? = some x
        ∧ x.realm.scopes.around? ⟨3⟩ = some (some ⟨2⟩)
        ∧ x.realm.scopes.Outward ⟨2⟩ [⟨2⟩, ⟨1⟩]
        ∧ x.realm.scopes.Undeclared [⟨3⟩, ⟨2⟩, ⟨1⟩] "k"
        ∧ x.realm.scopes.binding? Scopes.globalFrame "k" = none :=
    ⟨_, rfl, rfl, .step rfl (.last rfl), by decide +kernel, by decide +kernel⟩
  have hreach : x.realm.Reachable := .program (.fresh false ()) _ 0 (List.mem_of_getLast? hx)
  obtain ⟨-, result, r', hrun, hwrite⟩ := Realm.name_written hreach hl "k" false .null
  have hchain : x.realm.scopes.Undeclared [⟨2⟩, ⟨1⟩] "k" := fun g hg => hnone g (.tail _ hg)
  cases result with
  | error e =>
    obtain ⟨kind, why, hwhy⟩ := hwrite.throws_iff.mp ⟨e, rfl⟩
    cases hwhy.strict_of_undeclared hchain
  | ok =>
    refine ⟨x.realm, r', hreach, hl, hrun, ?_, ?_⟩
    · refine hwrite.read rfl (fun f b hfirst => absurd hchain hfirst.not_undeclared) [⟨3⟩] ⟨3⟩
        (.step hinner hl) fun g hg => ?_
      rw [List.mem_singleton.mp hg]
      exact hnone _ List.mem_cons_self
    · rw [hwrite.elsewhere _ _ ?_, hglobal]
      rintro ⟨⟨hfirst⟩ | ⟨-, -, hlast⟩, -⟩
      · exact hfirst.not_undeclared hchain
      · cases hlast

end ScriptRealm
