import ScriptRealm.Proofs.Ancestry
import ScriptRealm.Proofs.StoredDescriptors
import ScriptRealm.Proofs.Validation

/-!
# Assignment — what writing a property comes to

The language defines writing a property by recursion along the prototype links
(OrdinarySet): the first object that has the property decides, and the receiver
is written only when that property is a data property that can be written, or
when there is none. `OrdinarySet` is that recursion, with no bound on its length,
and an `Assignment` is what it comes to: a refusal, a property to define on the
receiver, or a setter to call.

The realm searches first and writes after. On a property of one kind that is the
same, for the prototype links lead to an end and the bounded search finds what the
recursion finds (`OrdinarySet.of_ancestry`). They differ on a property that is data
and accessor at once: the language asks first whether it is a data property, the
realm whether it is an accessor. `Realm.Assigned` is all that an assignment leaves
that calls no function. `Program.assignment_follows` puts these together for every
moment of a run.
-/

namespace ScriptRealm

/-- What writing a property comes to. -/
inductive Assignment where
  /-- Nothing is done. -/
  | refused (why : Fault)
  /-- A property of an object is defined. -/
  | defining (target : Handle) (d : Descriptor)
  /-- A function is called, with the receiver and the value. -/
  | calling (setter : Value)

namespace Assignment

section Rule

variable {β : Type} (a : Arena β) (key : String) (v receiver : Value)

/-- Nothing is in the way, and what the receiver itself has under the key decides. -/
def ofReceiver : Assignment :=
  match receiver.handle? with
  | none => refused (.primitiveReceiver key receiver)
  | some target =>
    match a.getOwn target key with
    | none => defining target (.plain v)
    | some own =>
      if own.isAccessor then refused (.notExtensible key)
      else if own.writable == some false then refused (.notExtensible key)
      else defining target { value := some v }

/-- An accessor has been found. -/
def ofAccessor (d : Descriptor) : Assignment :=
  if (d.set.getD .undefined).isUndefined then refused (.getterOnly key receiver)
  else calling (d.set.getD .undefined)

/-- A property has been found. The language asks first whether it is a data
property. -/
def ofFound (d : Descriptor) : Assignment :=
  if d.isData then
    if d.writable == some false then refused (.readOnlyProperty key receiver)
    else ofReceiver a key v receiver
  else ofAccessor key receiver d

end Rule

end Assignment

/-- Writing a property, by recursion along the prototype links: the own property
decides, else the prototype does, and at the end of the links an ordinary data
property that is not there yet. -/
inductive OrdinarySet {β : Type} (a : Arena β) (key : String) (v receiver : Value) :
    Handle → Assignment → Prop
  | own {h : Handle} {d : Descriptor} (found : a.getOwn h key = some d) :
      OrdinarySet a key v receiver h (.ofFound a key v receiver d)
  | inherited {h p : Handle} {o : Object β} {outcome : Assignment} (object : a.get? h = some o)
      (missing : o.getOwn key = none) (link : o.prototype = some p)
      (rest : OrdinarySet a key v receiver p outcome) : OrdinarySet a key v receiver h outcome
  | fresh {h : Handle} {o : Object β} (object : a.get? h = some o) (missing : o.getOwn key = none)
      (link : o.prototype = none) :
      OrdinarySet a key v receiver h (.ofFound a key v receiver (.plain .undefined))

namespace OrdinarySet

variable {β : Type} {a : Arena β} {key : String} {v receiver : Value} {h : Handle}

/-- Writing a property comes to one thing. -/
theorem unique {outcome outcome' : Assignment} (hset : OrdinarySet a key v receiver h outcome)
    (hset' : OrdinarySet a key v receiver h outcome') : outcome = outcome' := by
  induction hset with
  | own found =>
    cases hset' with
    | own found' =>
      rw [found] at found'
      cases found'
      rfl
    | inherited object missing | fresh object missing =>
      rw [Arena.getOwn_of_get? object, missing] at found
      cases found
  | inherited object missing link rest ih =>
    cases hset' with
    | own found =>
      rw [Arena.getOwn_of_get? object, missing] at found
      cases found
    | inherited object' _ link' rest' =>
      rw [object] at object'
      cases object'
      rw [link] at link'
      cases link'
      exact ih rest'
    | fresh object' _ link' =>
      rw [object] at object'
      cases object'
      rw [link] at link'
      cases link'
  | fresh object missing link =>
    cases hset' with
    | own found =>
      rw [Arena.getOwn_of_get? object, missing] at found
      cases found
    | inherited object' _ link' =>
      rw [object] at object'
      cases object'
      rw [link] at link'
      cases link'
    | fresh => rfl

/-- Where the way along the links ends, so does the recursion, and the first
property on the way decides. -/
theorem of_ancestry {l : List Handle} (hl : a.Ancestry h l) :
    OrdinarySet a key v receiver h
      (.ofFound a key v receiver ((l.findSome? (a.getOwn · key)).getD (.plain .undefined))) := by
  induction hl with
  | @root h o object link =>
    rw [List.findSome?_cons]
    cases hown : a.getOwn h key with
    | some d => exact .own hown
    | none =>
      rw [Arena.getOwn_of_get? object] at hown
      exact .fresh object hown link
  | @step h p o l object link rest ih =>
    rw [List.findSome?_cons]
    cases hown : a.getOwn h key with
    | some d => exact .own hown
    | none =>
      rw [Arena.getOwn_of_get? object] at hown
      exact .inherited object hown link ih

end OrdinarySet

/-! ## Carrying out -/

variable {σ α : Type} {runner : Runner σ}

/-- Two computations do the same in a realm. -/
structure RealmM.Alike (r : Realm σ) (m m' : RealmM σ α) : Prop where
  run : ∀ runner, m.run runner r = m'.run runner r
  moments : ∀ runner watch, m.moments runner watch r = m'.moments runner watch r

namespace Assignment

/-- Carries out an assignment. -/
def perform [Printer] (key : String) (v receiver : Value) (strict : Bool) :
    Assignment → ScriptM σ Bool
  | refused why => .refuse strict why
  | defining target d => do
    if ← ScriptM.lift (RealmM.define target key d) then pure true
    else .refuse strict (.notExtensible key)
  | calling setter => do
    let _ ← ScriptM.callForValue setter receiver [v]
    pure true

/-- What writing a property comes to when it is asked first whether the property
found is an accessor. -/
def ofFoundAccessorFirst {β : Type} (a : Arena β) (key : String) (v receiver : Value)
    (d : Descriptor) : Assignment :=
  if d.isAccessor then ofAccessor key receiver d
  else if d.writable == some false then refused (.readOnlyProperty key receiver)
  else ofReceiver a key v receiver

end Assignment

theorem RealmM.Alike.refl (r : Realm σ) (m : RealmM σ α) : Alike r m m :=
  ⟨fun _ => rfl, fun _ _ => rfl⟩

theorem RealmM.Alike.trans {r : Realm σ} {m m' m'' : RealmM σ α} (h : Alike r m m')
    (h' : Alike r m' m'') : Alike r m m'' :=
  ⟨fun runner => (h.run runner).trans (h'.run runner),
    fun runner watch => (h.moments runner watch).trans (h'.moments runner watch)⟩

theorem RealmM.Alike.symm {r : Realm σ} {m m' : RealmM σ α} (h : Alike r m m') : Alike r m' m :=
  ⟨fun runner => (h.run runner).symm, fun runner watch => (h.moments runner watch).symm⟩

/-- A computation goes on in two ways, which do the same wherever it may end. -/
theorem RealmM.Alike.bind {β : Type} {r : Realm σ} {m : RealmM σ α} {k k' : α → RealmM σ β}
    (h : ∀ (runner : Runner σ) a r', m.run runner r = some (a, r') → Alike r' (k a) (k' a)) :
    Alike r (m >>= k) (m >>= k') := by
  constructor
  · intro runner
    rw [run_bind, run_bind]
    exact Option.bind_congr fun ended hended => (h runner _ _ hended).run runner
  · intro runner watch
    rw [moments_bind, moments_bind]
    congr 1
    cases hended : m.run runner r with
    | none => rfl
    | some ended => exact (h runner _ _ hended).moments runner watch

namespace ScriptM

variable {β : Type} {r : Realm σ} {key : String} {v receiver : Value} {strict : Bool}

/-- The realm is read first. -/
theorem realm_bind_alike (r : Realm σ) (k : Realm σ → ScriptM σ α) :
    RealmM.Alike r (realm >>= k).attempt (k r).attempt :=
  ⟨fun _ => rfl, fun _ _ => rfl⟩

/-- The realm is read first, and more follows. -/
theorem realm_bind_bind_alike (r : Realm σ) (k : Realm σ → ScriptM σ β) (f : β → ScriptM σ α) :
    RealmM.Alike r ((realm >>= k) >>= f).attempt (k r >>= f).attempt :=
  ⟨fun _ => rfl, fun _ _ => rfl⟩

theorem writeReceiver_alike [Printer]
    (hreceiver : ∀ t, receiver.handle? = some t → (r.arena.get? t).isSome = true) :
    RealmM.Alike r (writeReceiver key v receiver strict).attempt
      ((Assignment.ofReceiver r.arena key v receiver).perform key v receiver strict).attempt := by
  unfold writeReceiver Assignment.ofReceiver
  cases htarget : receiver.handle? with
  | none => exact .refl r _
  | some t =>
    obtain ⟨object, hobject⟩ := Option.isSome_iff_exists.mp (hreceiver t htarget)
    refine (realm_bind_alike r _).trans ?_
    simp only [hobject, Option.isNone_some, Bool.false_eq_true, if_false]
    refine (realm_bind_bind_alike r _ _).trans ?_
    cases hown : r.arena.getOwn t key with
    | none => exact .refl r _
    | some own =>
      cases haccessor : own.isAccessor with
      | true =>
        simp only [haccessor, Bool.true_or, if_true]
        exact .refl r _
      | false =>
        simp only [haccessor, Bool.false_or, Bool.false_eq_true, if_false]
        cases hwritable : own.writable == some false with
        | true => exact .refl r _
        | false => exact .refl r _

/-- Writing a property carries out what it comes to when accessors are asked for
first. -/
theorem setProperty_alike [Printer]
    (hreceiver : ∀ t, receiver.handle? = some t → (r.arena.get? t).isSome = true) (o : Handle)
    (key : String) (v : Value) (strict : Bool) :
    RealmM.Alike r (setProperty o key v receiver strict).attempt
      ((Assignment.ofFoundAccessorFirst r.arena key v receiver
        ((r.arena.find? o key).getD (.plain .undefined))).perform key v receiver strict).attempt := by
  refine (realm_bind_alike r _).trans ?_
  unfold Assignment.ofFoundAccessorFirst
  cases hfind : r.arena.find? o key with
  | none => exact writeReceiver_alike hreceiver
  | some d =>
    simp only [Option.getD_some]
    cases haccessor : d.isAccessor with
    | true =>
      unfold Assignment.ofAccessor
      simp only [if_true]
      cases (d.set.getD .undefined).isUndefined <;> exact .refl r _
    | false =>
      simp only [Bool.false_eq_true, if_false]
      by_cases hfixed : (d.writable == some false) = true
      · simp only [if_pos hfixed]
        exact .refl r _
      · simp only [if_neg hfixed]
        exact writeReceiver_alike hreceiver

end ScriptM

/-! ## What is written -/

namespace Object

variable {β : Type} {o o' : Object β} {key : String} {v : Value} {d : Descriptor}

/-- The value has been written under the key, and nothing else has changed: a new
property is an ordinary one and listed last, and one that was there keeps its
attributes and its place. -/
def WrittenAt (key : String) (v : Value) (o o' : Object β) : Prop :=
  match o.getOwn key with
  | none => o.ChangedAt key (.plain v) o' ∧ o'.ownKeys = o.ownKeys ++ [key]
  | some d => o.ChangedAt key { d with value := some v } o' ∧ o'.ownKeys = o.ownKeys

/-- A new property can be written when the object takes new ones. -/
theorem writtenAt_of_getOwn_eq_none (hown : o.getOwn key = none)
    (accepted : o.define? key (.plain v) = some o') : o.WrittenAt key v o' := by
  rcases define?_cases accepted with ⟨-, -, rfl⟩ | ⟨current, hcurrent, -⟩
  · have hstored : o.properties.contains key = false := by
      rw [← Bool.not_eq_true, ← Table.mem_names_iff]
      intro hmem
      have hlisted : key ∈ o.ownKeys := List.mem_append_right _ hmem
      rw [mem_ownKeys_iff, hown] at hlisted
      cases hlisted
    unfold WrittenAt
    rw [hown]
    refine ⟨o.changedAt_store key (.plain v), ?_⟩
    rw [ownKeys_eq, ownKeys_eq, List.append_assoc]
    exact congrArg (o.madeUpKeys ++ ·) (Table.names_insert_of_not_contains _ hstored)
  · rw [hown] at hcurrent
    cases hcurrent

/-- A data property that can be written takes any value. -/
theorem define?_value (ho : o.Filled) (hown : o.getOwn key = some d)
    (haccessor : d.isAccessor = false) (hwritable : d.writable ≠ some false) :
    o.define? key { value := some v } = some (o.store key { d with value := some v }) := by
  have hwhole : d.Whole := (ho.getOwn hown).kind.resolve_right fun hmixed => by
    rw [hmixed.2] at haccessor
    cases haccessor
  cases hwhole with
  | accessor => cases haccessor
  | data w writable enumerable configurable =>
    have hallowed : (Descriptor.data w writable enumerable configurable).allows
        { value := some v } = true := by
      cases writable with
      | false => exact absurd rfl hwritable
      | true => cases configurable <;> rfl
    rw [define?, hown]
    simp only [hallowed, if_true]
    rw [Descriptor.merge_data rfl]
    rfl

/-- A data property that can be written is stored. -/
theorem writtenAt_store (hown : o.getOwn key = some d) (hwritable : d.writable ≠ some false) :
    o.WrittenAt key v (o.store key { d with value := some v }) := by
  have hstored : o.properties.contains key = true := by
    rcases getOwn_cases hown with hentry | ⟨w, enumerable, -, rfl⟩
    · exact (Table.mem_names_iff _ _).mp (List.mem_map_of_mem hentry)
    · exact absurd rfl hwritable
  unfold WrittenAt
  rw [hown]
  refine ⟨o.changedAt_store key _, ?_⟩
  rw [ownKeys_eq, ownKeys_eq]
  exact congrArg (o.madeUpKeys ++ ·) (Table.names_insert_of_contains _ hstored)

/-- What has been written is a data property with that value, unless an accessor was
there. -/
theorem WrittenAt.read (h : o.WrittenAt key v o')
    (hdata : ∀ e, o.getOwn key = some e → e.isAccessor = false) :
    ∃ d', o'.getOwn key = some d' ∧ d'.isAccessor = false ∧ d'.value = some v := by
  unfold WrittenAt at h
  split at h
  · exact ⟨_, h.1.own, rfl, rfl⟩
  · rename_i d hown
    exact ⟨_, h.1.own, hdata d hown, rfl⟩

end Object

/-- The property that an object has itself is the one that is found. -/
theorem Arena.find?_of_getOwn {β : Type} {a : Arena β} {h : Handle} {key : String}
    {d : Descriptor} (hown : a.getOwn h key = some d) : a.find? h key = some d := by
  obtain ⟨o, ho, -⟩ := Option.bind_eq_some_iff.mp hown
  obtain ⟨n, hn⟩ := Nat.exists_eq_succ_of_ne_zero (Nat.ne_zero_of_lt (lt_size_of_get? ho))
  rw [find?, chain, hn]
  simp only [chainUpTo, ho, List.findSome?_cons, hown]

/-- What is found is the own property of an object. -/
theorem Arena.exists_of_find? {β : Type} {a : Arena β} {h : Handle} {key : String}
    {d : Descriptor} (hfind : a.find? h key = some d) :
    ∃ g o, a.get? g = some o ∧ o.getOwn key = some d := by
  obtain ⟨g, -, hown⟩ := List.exists_of_findSome?_eq_some hfind
  obtain ⟨o, ho, hown⟩ := Option.bind_eq_some_iff.mp hown
  exact ⟨g, o, ho, hown⟩

/-- What an assignment that calls no function leaves. -/
structure Realm.Assigned [Printer] (r : Realm σ) (key : String) (v receiver : Value) (strict : Bool)
    (result : Except Value Bool) (r' : Realm σ) : Prop where
  /-- Nothing but objects changes. -/
  realm : r' = { r with arena := r'.arena }
  /-- An object other than the receiver is as it was. -/
  others : ∀ h o, r.arena.get? h = some o → receiver.handle? ≠ some h → r'.arena.get? h = some o
  /-- The receiver is as it was, unless the assignment is accepted: then the value has
  been written. -/
  target : ∀ h o, r.arena.get? h = some o → receiver.handle? = some h →
    ∃ o', r'.arena.get? h = some o' ∧ (result = .ok true → o.WrittenAt key v o')
      ∧ (result ≠ .ok true → o' = o)
  /-- A value that was accepted is read back. -/
  accepted : result = .ok true → ∃ h, receiver.handle? = some h ∧ ∀ runner : Runner σ,
    (ScriptM.getProperty h key receiver).attempt.run runner r' = some (.ok v, r')
  /-- Sloppy code is told that nothing was done. -/
  refused : result = .ok false → strict = false ∧ r' = r
  /-- Strict code gets a new error. -/
  thrown : ∀ e, result = .error e → strict = true ∧ ∃ h message, e = .object h
    ∧ r.arena.get? h = none ∧ r'.error? h = some ⟨.typeError, message⟩

namespace Assignment

variable {r : Realm σ} {key : String} {v receiver : Value} {strict : Bool}

/-- What is refused leaves everything as it was, a new error apart. -/
theorem refused_assigned [Printer] (wf : r.arena.WellFormed) {why : Fault}
    (hkind : why.kind = .typeError) :
    ∃ result r', (ScriptM.refuse strict why : ScriptM σ Bool).attempt.run runner r
        = some (result, r') ∧ r.Assigned key v receiver strict result r' := by
  cases strict with
  | false =>
    refine ⟨.ok false, r, rfl, ?_⟩
    exact {
      realm := rfl
      others := fun h o ho _ => ho
      target := fun h o ho _ => ⟨o, ho, nofun, fun _ => rfl⟩
      accepted := nofun
      refused := fun _ => ⟨rfl, rfl⟩
      thrown := nofun }
  | true =>
    let error : Object (Behavior σ) :=
      .ofError (Intrinsic.prototype (.error why.kind)).handle why.kind why.message
    refine ⟨.error (.object (r.arena.allocate error).1),
      { r with arena := (r.arena.allocate error).2 }, rfl, ?_⟩
    exact {
      realm := rfl
      others := fun h o ho _ => Arena.get?_allocate_of_get? wf error ho
      target := fun h o ho _ =>
        ⟨o, Arena.get?_allocate_of_get? wf error ho, nofun, fun _ => rfl⟩
      accepted := nofun
      refused := nofun
      thrown := by
        rintro e he
        cases he
        refine ⟨rfl, _, why.message, rfl, ?_, ?_⟩
        · rw [Arena.allocate_fst, Arena.get?_upcoming wf]
        · rw [Realm.error?, Arena.allocate_fst, Arena.get?_allocate wf, if_pos rfl, ← hkind]
          rfl }

/-- A property is defined on the receiver, when it is accepted, and otherwise that is
refused. -/
theorem defining_assigned [Printer] (wf : r.arena.WellFormed) {t : Handle}
    (htarget : receiver.handle? = some t) {o : Object (Behavior σ)}
    (ho : r.arena.get? t = some o) {d : Descriptor}
    (hdata : ∀ e, o.getOwn key = some e → e.isAccessor = false)
    (hwritten : ∀ o', o.define? key d = some o' → o.WrittenAt key v o') :
    ∃ result r', ((defining t d).perform key v receiver strict).attempt.run runner r
        = some (result, r') ∧ r.Assigned key v receiver strict result r' := by
  unfold perform
  cases haccepted : o.define? key d with
  | none =>
    have hdefine : (ScriptM.lift (RealmM.define t key d)).attempt.run runner r
        = some (.ok false, r) := by
      rw [ScriptM.run_lift, RealmM.run_define ho, haccepted]
      rfl
    rw [ScriptM.run_bind_of_ok hdefine]
    exact refused_assigned wf rfl
  | some o' =>
    have hdefine : (ScriptM.lift (RealmM.define t key d)).attempt.run runner r
        = some (.ok true, r.withArena (·.modify t fun _ => o')) := by
      rw [ScriptM.run_lift, RealmM.run_define ho, haccepted]
      rfl
    rw [ScriptM.run_bind_of_ok hdefine]
    have hnow : (r.arena.modify t fun _ => o').get? t = some o' := by
      rw [Arena.get?_modify, if_pos rfl, ho, Option.map_some]
    refine ⟨.ok true, _, rfl, ?_⟩
    exact {
      realm := rfl
      others := by
        intro h p hp hne
        refine Arena.get?_modify_of_ne ?_ hp
        rintro rfl
        exact hne htarget
      target := by
        intro h p hp hh
        rw [htarget] at hh
        cases hh
        rw [ho] at hp
        cases hp
        exact ⟨o', hnow, fun _ => hwritten o' haccepted, fun hno => absurd rfl hno⟩
      accepted := by
        intro _
        refine ⟨t, htarget, fun runner => ?_⟩
        obtain ⟨d', hown, hdata, hvalue⟩ := (hwritten o' haccepted).read hdata
        have hfind : (r.arena.modify t fun _ => o').find? t key = some d' := by
          refine Arena.find?_of_getOwn ?_
          rw [Arena.getOwn_of_get? hnow, hown]
        show (ScriptM.realm >>= _).attempt.run runner _ = _
        rw [ScriptM.run_realm_bind]
        simp only [Realm.withArena, hfind, hdata, hvalue]
        rfl
      refused := nofun
      thrown := nofun }

/-- Writing on the receiver. -/
theorem ofReceiver_assigned [Printer] (wf : r.arena.WellFormed)
    (hfilled : ∀ h o, r.arena.get? h = some o → o.Filled)
    (hreceiver : ∀ t, receiver.handle? = some t → (r.arena.get? t).isSome = true) :
    ∃ result r', ((ofReceiver r.arena key v receiver).perform key v receiver strict).attempt.run
        runner r = some (result, r') ∧ r.Assigned key v receiver strict result r' := by
  unfold ofReceiver
  cases htarget : receiver.handle? with
  | none => exact refused_assigned wf rfl
  | some t =>
    obtain ⟨o, ho⟩ := Option.isSome_iff_exists.mp (hreceiver t htarget)
    simp only [Arena.getOwn_of_get? ho]
    cases hown : o.getOwn key with
    | none =>
      refine defining_assigned wf htarget ho (fun e he => ?_) fun o' haccepted => ?_
      · rw [hown] at he
        cases he
      · exact Object.writtenAt_of_getOwn_eq_none hown haccepted
    | some d =>
      simp only
      cases haccessor : d.isAccessor with
      | true => exact refused_assigned wf rfl
      | false =>
        simp only [Bool.false_eq_true, if_false]
        by_cases hwritable : d.writable = some false
        · rw [if_pos (beq_iff_eq.mpr hwritable)]
          exact refused_assigned wf rfl
        · rw [if_neg (mt beq_iff_eq.mp hwritable)]
          have hdefine := Object.define?_value (v := v) (hfilled t o ho) hown haccessor hwritable
          refine defining_assigned wf htarget ho (fun e he => ?_) fun o' haccepted => ?_
          · rw [hown] at he
            cases he
            exact haccessor
          · rw [hdefine] at haccepted
            cases haccepted
            exact Object.writtenAt_store hown hwritable

/-- Whatever has been found, the assignment has an end unless it is to call a function. -/
theorem ofFoundAccessorFirst_assigned [Printer] (wf : r.arena.WellFormed)
    (hfilled : ∀ h o, r.arena.get? h = some o → o.Filled)
    (hreceiver : ∀ t, receiver.handle? = some t → (r.arena.get? t).isSome = true)
    {d : Descriptor}
    (hcalling : ∀ setter, ofFoundAccessorFirst r.arena key v receiver d ≠ calling setter) :
    ∃ result r', ((ofFoundAccessorFirst r.arena key v receiver d).perform key v receiver
        strict).attempt.run runner r = some (result, r')
      ∧ r.Assigned key v receiver strict result r' := by
  unfold ofFoundAccessorFirst ofAccessor at hcalling ⊢
  cases haccessor : d.isAccessor with
  | true =>
    simp only [haccessor, if_true] at hcalling ⊢
    cases hundefined : (d.set.getD .undefined).isUndefined with
    | true => exact refused_assigned wf rfl
    | false => exact absurd (by rw [hundefined]; rfl) (hcalling (d.set.getD .undefined))
  | false =>
    simp only [Bool.false_eq_true, if_false]
    by_cases hwritable : (d.writable == some false) = true
    · rw [if_pos hwritable]
      exact refused_assigned wf rfl
    · rw [if_neg hwritable]
      exact ofReceiver_assigned wf hfilled hreceiver

/-- The two orders of asking agree on properties of one kind. -/
theorem ofFoundAccessorFirst_eq {β : Type} (a : Arena β) {d : Descriptor} (hd : d.Whole) :
    ofFoundAccessorFirst a key v receiver d = ofFound a key v receiver d := by
  cases hd with
  | data => rfl
  | accessor => rfl

/-- Calling the setter is all that is done, and its result is thrown away. -/
theorem attempt_calling [Printer] (setter : Value) :
    ((calling setter).perform key v receiver strict : ScriptM σ Bool).attempt
      = Except.map (fun _ => true) <$> Completion.result <$> RealmM.call setter receiver [v] := by
  refine congrArg (Completion.result <$> RealmM.call setter receiver [v] >>= ·) (funext fun c => ?_)
  cases c with
  | error e => rfl
  | ok result => rfl

end Assignment

/-- A computation that only hands its result on has the moments of what comes first. -/
theorem RealmM.moments_map {β : Type} (f : α → β) (m : RealmM σ α) (runner : Runner σ)
    (watch : Watch σ) (r : Realm σ) :
    (f <$> m).moments runner watch r = m.moments runner watch r := by
  refine (moments_bind watch m (pure ∘ f) r).trans ?_
  cases m.run runner r with
  | none => exact List.append_nil _
  | some ended => exact List.append_nil _

/-- A computation carries out an assignment in a realm. -/
structure Realm.CarriesOut [Printer] (r : Realm σ) (key : String) (v receiver : Value)
    (strict : Bool) (done : Assignment) (m : RealmM σ (Except Value Bool)) : Prop where
  alike : RealmM.Alike r m (done.perform key v receiver strict).attempt
  /-- When no function is called, the computation has an end. -/
  writes : (∀ setter, done ≠ .calling setter) → ∀ runner, ∃ result r',
    m.run runner r = some (result, r') ∧ r.Assigned key v receiver strict result r'
  /-- When a function is called, nothing else is done. -/
  calls : ∀ setter, done = .calling setter → ∀ runner watch,
    m.moments runner watch r = (RealmM.call setter receiver [v]).moments runner watch r
      ∧ m.run runner r = ((RealmM.call setter receiver [v]).run runner r).map fun ended =>
        (ended.1.result.map fun _ => true, ended.2)

/-- Writing a property carries out what it comes to when accessors are asked for
first. -/
theorem Realm.carriesOut_setProperty [Printer] {r : Realm σ} (wf : r.arena.WellFormed)
    (hfilled : ∀ h o, r.arena.get? h = some o → o.Filled) {receiver : Value}
    (hreceiver : ∀ t, receiver.handle? = some t → (r.arena.get? t).isSome = true)
    (o : Handle) (key : String) (v : Value) (strict : Bool) :
    r.CarriesOut key v receiver strict
      (.ofFoundAccessorFirst r.arena key v receiver
        ((r.arena.find? o key).getD (.plain .undefined)))
      (ScriptM.setProperty o key v receiver strict).attempt := by
  have halike := ScriptM.setProperty_alike hreceiver o key v strict
  refine ⟨halike, fun hcalling runner => ?_, fun setter hsetter runner watch => ?_⟩
  · rw [halike.run runner]
    exact Assignment.ofFoundAccessorFirst_assigned wf hfilled hreceiver hcalling
  · rw [halike.run runner, halike.moments runner watch, hsetter, Assignment.attempt_calling,
      RealmM.moments_map, RealmM.moments_map, RealmM.run_map, RealmM.run_map, Option.map_map]
    exact ⟨rfl, rfl⟩

/-! ## In every run -/

/-- Handles that stand for nothing in a fresh realm are guarded there. -/
theorem World.guarded_fresh {π : Policy σ} {strict : Bool} {host : σ}
    (hnone : ∀ h, π.foreign h → (Realm.fresh strict host).arena.get? h = none) :
    (World.fresh strict host).Guarded π := by
  intro h hh
  refine ⟨hnone h hh, ?_⟩
  rintro ⟨i, hi, rfl⟩
  have hobject : (Realm.fresh strict host).arena.get? i.handle = some i.placed :=
    Arena.get?_fresh_handle hi
  rw [hnone _ hh] at hobject
  cases hobject

/-- Along a course that starts in a fresh realm every walk ends. -/
theorem Course.rooted_fresh [Printer] {π : Policy σ} {strict : Bool} {host : σ}
    (hhost : ∀ h, π.held host h → π.foreign h ∨ h.Intrinsic) {ms : List (Moment σ)} {w : World σ}
    (hcourse : Course π (World.fresh strict host) ms w) {why : Event}
    (hbegun : ⟨why, Realm.fresh strict host⟩ ∈ ms)
    (hforeign : ∀ m ∈ ms, ∀ h, π.foreign h → m.realm.arena.get? h = none) :
    ∀ m ∈ ms, m.realm.arena.Rooted :=
  hcourse.rooted (World.sound_fresh strict hhost) (World.guarded_fresh (hforeign _ hbegun))
    (World.rooted_fresh strict host) hforeign

/-- Without raw edits every stored property is filled. -/
theorem Program.history_filled [Printer] {strict : Bool} {host : σ} {p : Program σ}
    (hp : p.Obeys Policy.unedited Handle.Intrinsic) {allowance : Nat} {m : Moment σ}
    (hm : m ∈ p.history allowance (Realm.fresh strict host)) {h : Handle}
    {o : Object (Behavior σ)} (ho : m.realm.arena.get? h = some o) : o.Filled := by
  obtain ⟨birth, hborn, hbecomes⟩ := Program.history_grown hp (fun _ _ => .inl trivial) hm ho
  exact hbecomes.filled hborn.whole.filled

/-- Writing a property of an object, at any moment of a run without raw edits, for a
receiver that is a primitive or an object, comes to what the language says. When a
function is called, nothing else is done, and when none is called, at most that
property of the receiver is written. The exception is a property that is data and
accessor at once, which is taken for an accessor: a program that describes no
property so never meets it. -/
theorem Program.assignment_follows [Printer] {π : Policy σ} (hraw : ∀ h e, ¬ π.raw h e)
    {strict : Bool}
    {host : σ} (hhost : ∀ h, π.held host h → π.foreign h ∨ h.Intrinsic) {p : Program σ}
    (hp : p.Obeys π Handle.Intrinsic) {allowance : Nat}
    (hforeign : ∀ m ∈ p.history allowance (Realm.fresh strict host), ∀ h, π.foreign h →
      m.realm.arena.get? h = none)
    {m : Moment σ} (hm : m ∈ p.history allowance (Realm.fresh strict host)) {o : Handle}
    (ho : (m.realm.arena.get? o).isSome = true) {receiver : Value}
    (hreceiver : ∀ t, receiver.handle? = some t → (m.realm.arena.get? t).isSome = true)
    (key : String) (v : Value) (strictly : Bool) :
    ∃ found asked done,
      m.realm.arena.Search (m.realm.arena.getOwn · key) (some o) found
        ∧ OrdinarySet m.realm.arena key v receiver o asked
        ∧ ((∀ d, found = some d → ¬ d.Mixed) → done = asked)
        ∧ (∀ d, found = some d → d.Mixed → done = .ofAccessor key receiver d)
        ∧ (¬ π.mixed → done = asked)
        ∧ m.realm.CarriesOut key v receiver strictly done
          (ScriptM.setProperty o key v receiver strictly).attempt := by
  obtain ⟨w, hw, hrealm⟩ := Program.history_sound hp hhost hm
  have wf : m.realm.arena.WellFormed := hrealm ▸ hw.arena
  have hrooted : m.realm.arena.Rooted := by
    obtain ⟨w', hcourse⟩ := Program.history_course hp hhost allowance
    exact hcourse.rooted (World.sound_fresh strict hhost)
      (World.guarded_fresh (hforeign _ List.mem_cons_self)) (World.rooted_fresh strict host)
      hforeign m hm
  have hunedited : p.Obeys Policy.unedited Handle.Intrinsic :=
    hp.relax (fun _ => trivial) (fun h e => hraw h e) fun _ => trivial
  have hfilled : ∀ h o, m.realm.arena.get? h = some o → o.Filled :=
    fun h o ho => Program.history_filled hunedited hm ho
  have hagree : (∀ d, m.realm.arena.find? o key = some d → ¬ d.Mixed) →
      Assignment.ofFoundAccessorFirst m.realm.arena key v receiver
          ((m.realm.arena.find? o key).getD (.plain .undefined))
        = .ofFound m.realm.arena key v receiver
          ((m.realm.arena.find? o key).getD (.plain .undefined)) := by
    intro hunmixed
    cases hfind : m.realm.arena.find? o key with
    | none => rfl
    | some d =>
      obtain ⟨h, object, hobject, hown⟩ := Arena.exists_of_find? hfind
      have hkind := ((hfilled h object hobject).getOwn hown).kind
      exact Assignment.ofFoundAccessorFirst_eq _ (hkind.resolve_right (hunmixed d hfind))
  obtain ⟨object, hobject⟩ := Option.isSome_iff_exists.mp ho
  refine ⟨m.realm.arena.find? o key, _, _, hrooted.find o key,
    .of_ancestry (hrooted.ends o object hobject), hagree, ?_, ?_,
    Realm.carriesOut_setProperty wf hfilled hreceiver o key v strictly⟩
  · intro d hd hmixed
    rw [hd, Option.getD_some, Assignment.ofFoundAccessorFirst, if_pos hmixed.2]
  · intro hkinds
    refine hagree fun d hd => ?_
    obtain ⟨h, object, hobject, hown⟩ := Arena.exists_of_find? hd
    have hregular : p.Obeys Policy.regular Handle.Intrinsic :=
      hp.relax (fun _ => trivial) (fun h e => hraw h e) hkinds
    obtain ⟨birth, hborn, hbecomes⟩ :=
      Program.history_grown hregular (fun _ _ => .inl trivial) hm hobject
    exact ((hbecomes.keeps hborn.whole).2.getOwn hown).not_mixed

/-- The policy that handles must have been handed out and no raw edit is made. -/
def Policy.orderly : Policy σ := ⟨fun _ => False, fun _ _ => False, fun _ _ => False, True⟩

/-- A request that names a value and a setter. -/
def Descriptor.valueAndSetter : Descriptor :=
  { value := some .null, set := some (.object (Intrinsic.function .objectValueOf).handle) }

/-- On the prototype of all objects it is granted, and writing the property calls the
setter, though the language says that a value that cannot be written stays. -/
theorem Program.assignment_follows_objectPrototype :
    (Program.defining (.prototype .object) "k" Descriptor.valueAndSetter).Obeys Policy.orderly
        Handle.Intrinsic
      ∧ ∃ m ∈ (Program.defining (.prototype .object) "k" Descriptor.valueAndSetter).history 0
          (Realm.fresh false ()),
        OrdinarySet m.realm.arena "k" .undefined .null (Intrinsic.prototype .object).handle
            (.refused (.readOnlyProperty "k" .null))
          ∧ m.realm.CarriesOut "k" .undefined .null false
            (.calling (.object (Intrinsic.function .objectValueOf).handle))
            (ScriptM.setProperty (Intrinsic.prototype .object).handle "k" .undefined .null
              false).attempt := by
  have hobeys : (Program.defining (.prototype .object) "k" Descriptor.valueAndSetter).Obeys
      Policy.orderly Handle.Intrinsic := by
    refine ⟨.inl trivial, fun h hh => .inr ?_, fun _ _ hno => absurd hno List.not_mem_nil⟩
    rcases List.mem_cons.mp hh with rfl | hh
    · exact ⟨_, Intrinsic.prototype_mem _, rfl⟩
    · rw [List.mem_singleton.mp hh]
      exact ⟨_, Intrinsic.function_mem (by decide), rfl⟩
  refine ⟨hobeys, ?_⟩
  obtain ⟨o, haccepted, hown⟩ : ∃ o : Object (Behavior Unit),
      (Intrinsic.prototype .object).placed.define? "k" Descriptor.valueAndSetter = some o
        ∧ o.getOwn "k" = some Descriptor.valueAndSetter.complete := by
    refine ⟨_, rfl, ?_⟩
    decide +kernel
  obtain ⟨m, hm, hnow⟩ := Program.defining_moment (Intrinsic.prototype_mem .object) haccepted
  have hfound : m.realm.arena.getOwn (Intrinsic.prototype .object).handle "k"
      = some Descriptor.valueAndSetter.complete := by
    rw [Arena.getOwn_of_get? hnow, hown]
  have hprimitive : ∀ t, Value.null.handle? = some t → (m.realm.arena.get? t).isSome = true :=
    nofun
  obtain ⟨found, asked, done, hsearch, hasked, -, hmixed, -, hcarries⟩ :=
    Program.assignment_follows (π := Policy.orderly) (fun _ _ hno => hno)
      (fun _ hno => hno.elim) hobeys (fun _ _ _ hno => hno.elim) hm (by rw [hnow]; rfl)
      hprimitive "k" .undefined false
  have hanswer : found = some Descriptor.valueAndSetter.complete := by
    cases hsearch with
    | missing object =>
      rw [hnow] at object
      cases object
    | answered object answers => rw [← answers, hfound]
    | onward object silent rest =>
      rw [hfound] at silent
      cases silent
  have hrefused : asked = .refused (.readOnlyProperty "k" .null) := hasked.unique (.own hfound)
  refine ⟨m, hm, hrefused ▸ hasked, ?_⟩
  have hcalls := hmixed _ hanswer ⟨rfl, rfl⟩
  rw [hcalls] at hcarries
  exact hcarries

end ScriptRealm
