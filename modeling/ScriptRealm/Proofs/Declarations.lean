import ScriptRealm.Number.Shortest
import ScriptRealm.Proofs.Genesis

/-!
# Declarations — what writing and deleting through references leaves alone

A reference is used long after it was made, against frames that have changed
since. `Binding.Intact` says what using one must not do to a binding:
overwrite a constant or a read-only name, change how a name is declared,
initialize it, or remove or make deletable what was declared.

`RealmM.Writes` is about the writes that a computation makes itself; the
functions it enters answer for theirs. Deleting never does harm. Writing does
in one case only (`Reference.Overwrites`): sloppy code writes through a
reference that leads to no binding, and the outermost frame has come to
declare the name in the meantime. `Program.declarations_intact_iff` is that
equivalence, in every realm that any run passes through.
-/

namespace ScriptRealm

variable {σ α β : Type}

/-! ## Writes of a computation -/

namespace RealmM

/-- Every write that the computation makes itself relates the realm before it to
the realm after it, whatever the functions do that it enters. -/
def Writes (P : Realm σ → Realm σ → Prop) : RealmM σ α → Realm σ → Prop
  | done _, _ => True
  | read next, r => (next r).Writes P r
  | write r' next, r => P r r' ∧ next.Writes P r'
  | enter _ _ _ _ next, _ => ∀ c r', (next c).Writes P r'

theorem Writes.mono {P Q : Realm σ → Realm σ → Prop} (himp : ∀ r r', P r r' → Q r r')
    {m : RealmM σ α} {r : Realm σ} (h : m.Writes P r) : m.Writes Q r := by
  induction m generalizing r with
  | done a => trivial
  | read next ih => exact ih r h
  | write r' next ih => exact ⟨himp r r' h.1, ih h.2⟩
  | enter why b this args next ih =>
    intro c r'
    exact ih c (h c r')

theorem Writes.bind {P : Realm σ → Realm σ → Prop} {m : RealmM σ α} {k : α → RealmM σ β}
    {r : Realm σ} (hm : m.Writes P r) (hk : ∀ a r', (k a).Writes P r') :
    (m >>= k).Writes P r := by
  induction m generalizing r with
  | done a => exact hk a r
  | read next ih => exact ih r hm
  | write r' next ih => exact ⟨hm.1, ih hm.2⟩
  | enter why b this args next ih =>
    intro c r'
    exact ih c (hm c r')

/-- The computation does not itself write to frames. -/
structure LeavesFrames (m : RealmM σ α) : Prop where
  writes : ∀ r, m.Writes (fun r r' => r'.scopes = r.scopes) r

namespace LeavesFrames

theorem pure (a : α) : LeavesFrames (Pure.pure a : RealmM σ α) := ⟨fun _ => trivial⟩

theorem bind {m : RealmM σ α} {k : α → RealmM σ β} (hm : m.LeavesFrames)
    (hk : ∀ a, (k a).LeavesFrames) : (m >>= k).LeavesFrames :=
  ⟨fun r => (hm.writes r).bind fun a r' => (hk a).writes r'⟩

theorem map {m : RealmM σ α} {f : α → β} (hm : m.LeavesFrames) : (f <$> m).LeavesFrames :=
  ⟨fun r => (hm.writes r).bind fun _ _ => trivial⟩

theorem get_bind {k : Realm σ → RealmM σ α} (hk : ∀ r, (k r).LeavesFrames) :
    LeavesFrames (get >>= k) :=
  ⟨fun r => (hk r).writes r⟩

theorem modify {f : Realm σ → Realm σ} (hf : ∀ r, (f r).scopes = r.scopes) :
    LeavesFrames (modify f : RealmM σ Unit) :=
  ⟨fun r => ⟨hf r, trivial⟩⟩

theorem modifyGet {f : Realm σ → α × Realm σ} (hf : ∀ r, (f r).2.scopes = r.scopes) :
    LeavesFrames (modifyGet f : RealmM σ α) :=
  ⟨fun r => ⟨hf r, trivial⟩⟩

theorem allocate (o : Object (Behavior σ)) : (allocate o).LeavesFrames := modifyGet fun _ => rfl

theorem newError (kind : ErrorKind) (message : String) :
    (newError kind message : RealmM σ Value).LeavesFrames :=
  map (allocate _)

theorem define (o : Handle) (key : String) (d : Descriptor) :
    (define o key d : RealmM σ Bool).LeavesFrames := by
  refine modifyGet ?_
  intro r
  cases r.arena.define? o key d <;> rfl

theorem call [Printer] (f this : Value) (args : List Value) :
    (call f this args : RealmM σ Completion).LeavesFrames := by
  refine get_bind ?_
  intro r
  split
  · exact map (newError _ _)
  · refine get_bind fun r => bind (modify fun _ => rfl) ?_
    intro _
    exact bind ⟨fun _ _ _ => trivial⟩ fun c => bind (modify fun _ => rfl) fun _ => pure c

end LeavesFrames

end RealmM

/-- The computation does not itself write to frames, whether it throws or not. -/
structure ScriptM.LeavesFrames (m : ScriptM σ α) : Prop where
  attempt : m.attempt.LeavesFrames

namespace ScriptM.LeavesFrames

theorem ofExcept (r : Except Value α) : LeavesFrames (ScriptM.ofExcept r : ScriptM σ α) :=
  ⟨.pure r⟩

theorem pure (a : α) : LeavesFrames (Pure.pure a : ScriptM σ α) :=
  ⟨.pure (Except.ok a)⟩

theorem lift {m : RealmM σ α} (hm : m.LeavesFrames) : (lift m).LeavesFrames := ⟨.map hm⟩

theorem bind {m : ScriptM σ α} {k : α → ScriptM σ β} (hm : m.LeavesFrames)
    (hk : ∀ a, (k a).LeavesFrames) : (m >>= k).LeavesFrames := by
  refine ⟨.bind hm.attempt ?_⟩
  intro r
  cases r with
  | error e => exact .pure _
  | ok a => exact (hk a).attempt

theorem realm_bind {k : Realm σ → ScriptM σ α} (hk : ∀ r, (k r).LeavesFrames) :
    LeavesFrames (realm >>= k) :=
  ⟨⟨fun r => (hk r).attempt.writes r⟩⟩

theorem raise [Printer] (f : Fault) : (ScriptM.raise f : ScriptM σ α).LeavesFrames :=
  bind (lift (.newError _ _)) fun e => ⟨.pure (Except.error e)⟩

theorem refuse [Printer] (strict : Bool) (f : Fault) :
    (ScriptM.refuse strict f : ScriptM σ Bool).LeavesFrames := by
  unfold ScriptM.refuse
  split
  · exact raise f
  · exact pure false

theorem writeReceiver [Printer] (key : String) (v receiver : Value) (strict : Bool) :
    (ScriptM.writeReceiver key v receiver strict : ScriptM σ Bool).LeavesFrames := by
  unfold ScriptM.writeReceiver
  split
  · exact refuse strict _
  · refine realm_bind ?_
    intro r
    split
    · exact pure false
    · refine bind (realm_bind fun r => ?_) fun accepted => ?_
      · split
        · exact lift (.define _ _ _)
        · split
          · exact pure false
          · exact lift (.define _ _ _)
      · split
        · exact pure true
        · exact refuse strict _

theorem setProperty [Printer] (o : Handle) (key : String) (v receiver : Value) (strict : Bool) :
    (ScriptM.setProperty o key v receiver strict : ScriptM σ Bool).LeavesFrames := by
  unfold ScriptM.setProperty
  refine realm_bind ?_
  intro r
  split
  · exact writeReceiver key v receiver strict
  · split
    · dsimp only
      split
      · exact refuse strict _
      · exact bind ⟨.map (.call _ _ _)⟩ fun _ => pure true
    · split
      · exact refuse strict _
      · exact writeReceiver key v receiver strict

theorem deleteProperty [Printer] (o : Handle) (key : String) (strict : Bool) :
    (ScriptM.deleteProperty o key strict : ScriptM σ Bool).LeavesFrames := by
  unfold ScriptM.deleteProperty
  refine realm_bind ?_
  intro r
  split
  · exact pure true
  · split
    · exact pure true
    · split
      · exact bind (lift (.modify fun _ => rfl)) fun _ => pure true
      · exact refuse strict _

theorem autoboxed [Printer] (base : Value) {use : Handle → ScriptM σ α}
    (huse : ∀ o, (use o).LeavesFrames) :
    (ScriptM.autoboxed base use).LeavesFrames := by
  unfold ScriptM.autoboxed
  split
  · exact huse _
  · refine bind ?_ fun wrapper => bind (lift (huse wrapper).attempt) fun outcome =>
      bind (lift (.modify fun _ => rfl)) fun _ => ofExcept outcome
    unfold ScriptM.toObject
    split
    · exact pure _
    · exact lift (.allocate _)
    · exact raise _

end ScriptM.LeavesFrames

/-! ## Bindings -/

/-- What using a reference may leave of a binding: all of it but the value of a
variable, or nothing if it could be deleted. -/
def Binding.Intact (b : Binding) : Option Binding → Prop
  | none => b.deletable = true
  | some now => now.kind = b.kind
      ∧ (b.initialized = false → now.initialized = false)
      ∧ (b.initialized = true → b.kind = .constant ∨ b.kind = .readOnly → now.value = b.value)
      ∧ (b.deletable = false → now.deletable = false)

theorem Binding.Intact.refl (b : Binding) : b.Intact (some b) := ⟨rfl, id, fun _ _ => rfl, id⟩

namespace Scopes

variable {s s' : Scopes}

/-- Every binding is left intact. -/
def Keeps (s s' : Scopes) : Prop :=
  ∀ f name b, s.binding? f name = some b → b.Intact (s'.binding? f name)

/-- Only bindings made by assignment can be deleted. -/
def DeletableImplicit (s : Scopes) : Prop :=
  ∀ f name b, s.binding? f name = some b → b.deletable = true →
    b.kind = .variable ∧ b.initialized = true

theorem Keeps.refl (s : Scopes) : s.Keeps s := by
  intro f name b hb
  rw [hb]
  exact .refl b

/-- Writing one binding leaves all intact when it leaves that one intact. -/
theorem keeps_bind_iff {g : FrameId} {key : String} {b : Binding} :
    s.Keeps (s.modify g (·.bind key b)) ↔
      ∀ old, s.binding? g key = some old → old.Intact (some b) := by
  constructor
  · intro h old hold
    obtain ⟨frame, hframe, -⟩ := get?_of_binding? hold
    have hintact := h g key old hold
    rwa [binding?_bind, if_pos ⟨rfl, rfl⟩, hframe] at hintact
  · intro h f name old hold
    rw [binding?_bind]
    split
    · rename_i hsame
      obtain ⟨rfl, rfl⟩ := hsame
      obtain ⟨frame, hframe, -⟩ := get?_of_binding? hold
      rw [hframe]
      exact h old hold
    · rw [hold]
      exact .refl old

/-- Writing the value of a variable leaves all intact. -/
theorem keeps_assign {f : FrameId} {name : String} {b : Binding} {v : Value}
    (hb : s.binding? f name = some b) (hwritable : b.kind = .variable ∨ b.kind = .letVariable) :
    s.Keeps (s.modify f (·.bind name { b with value := v })) := by
  refine keeps_bind_iff.mpr ?_
  intro old hold
  rw [hb] at hold
  cases hold
  refine ⟨rfl, id, fun _ hfixed => ?_, id⟩
  rcases hwritable with hkind | hkind
  · rw [hkind] at hfixed
    rcases hfixed with hno | hno <;> cases hno
  · rw [hkind] at hfixed
    rcases hfixed with hno | hno <;> cases hno

/-- Removing a binding that can be deleted leaves all intact. -/
theorem keeps_unbind {g : FrameId} {key : String} {b : Binding} (hb : s.binding? g key = some b)
    (hdeletable : b.deletable = true) : s.Keeps (s.modify g (·.unbind key)) := by
  intro f name old hold
  rw [binding?_unbind]
  split
  · rename_i hsame
    obtain ⟨rfl, rfl⟩ := hsame
    rw [hb] at hold
    cases hold
    exact hdeletable
  · rw [hold]
    exact .refl old

theorem DeletableImplicit.bind (hs : s.DeletableImplicit) {g : FrameId} {key : String}
    {b : Binding} (hb : b.deletable = true → b.kind = .variable ∧ b.initialized = true) :
    (s.modify g (·.bind key b)).DeletableImplicit := by
  intro f name now hnow hdeletable
  rw [binding?_bind] at hnow
  split at hnow
  · obtain ⟨-, -, rfl⟩ := Option.map_eq_some_iff.mp hnow
    exact hb hdeletable
  · exact hs f name now hnow hdeletable

/-- No step makes a declared binding deletable. -/
theorem Change.deletableImplicit (hs : s.DeletableImplicit) (h : s.Change s') :
    s'.DeletableImplicit := by
  cases h with
  | add parent strict =>
    intro f name b hb hdeletable
    obtain ⟨frame, hframe, hfind⟩ := get?_of_binding? hb
    rcases get?_add hframe with hempty | hold
    · rw [hempty] at hfind
      cases hfind
    · exact hs f name b (Option.bind_eq_some_iff.mpr ⟨frame, hold, hfind⟩) hdeletable
  | setStrict g strict =>
    intro f name b hb hdeletable
    refine hs f name b ?_ hdeletable
    rw [binding?_modify] at hb
    split at hb
    · rename_i hg
      rw [hg]
      exact hb
    · exact hb
  | declare g key kind => exact hs.bind fun hno => by cases hno
  | define g key kind v => exact hs.bind fun hno => by cases hno
  | initializeName v present =>
    exact hs.bind fun hdeletable => ⟨(hs _ _ _ present hdeletable).1, rfl⟩
  | assign v present ready writable =>
    exact hs.bind fun hdeletable => ⟨(hs _ _ _ present hdeletable).1, ready⟩
  | defineImplicit g key v => exact hs.bind fun _ => ⟨rfl, rfl⟩
  | unbind present deletable =>
    intro f name b hb hdeletable
    rw [binding?_unbind] at hb
    split at hb
    · cases hb
    · exact hs f name b hb hdeletable

end Scopes

/-! ## Using references -/

/-- The frame in which a write through the reference would make a binding. -/
def Reference.implicitFrame? (s : Scopes) : Reference → Option FrameId
  | unresolved _ strict outermost => if strict then none else some outermost
  | resolved (.frame f) name strict =>
    if strict || s.declares f name then none else some (s.outermost f)
  | resolved (.value _) _ _ => none

/-- A write through the reference would make a binding where the name has been
declared. -/
def Reference.Overwrites (reference : Reference) (s : Scopes) : Prop :=
  ∃ g b, reference.implicitFrame? s = some g ∧ s.binding? g reference.name = some b
    ∧ b.deletable = false

/-- The bindings of one realm are left intact in another. -/
def Realm.KeepsBindings (r r' : Realm σ) : Prop := r.scopes.Keeps r'.scopes

namespace ScriptM

theorem LeavesFrames.keeps {m : ScriptM σ α} (hm : m.LeavesFrames) (r : Realm σ) :
    m.attempt.Writes Realm.KeepsBindings r := by
  refine (hm.attempt.writes r).mono ?_
  intro r r' hsame
  unfold Realm.KeepsBindings
  rw [hsame]
  exact .refl _

/-- Changing a frame is one write. -/
theorem writes_modifyFrame {P : Realm σ → Realm σ → Prop} {f : FrameId} {edit : Frame → Frame}
    {r : Realm σ} : (modifyFrame f edit).attempt.Writes P r ↔ P r (r.withFrame f edit) :=
  ⟨fun h => h.1, fun h => ⟨h, trivial⟩⟩

theorem writes_realm_bind {P : Realm σ → Realm σ → Prop} {k : Realm σ → ScriptM σ α}
    {r : Realm σ} : (realm >>= k).attempt.Writes P r ↔ (k r).attempt.Writes P r :=
  Iff.rfl

/-- A write to a name that nothing declares does harm where something does. -/
theorem putUndeclared_keeps_iff [Printer] {r : Realm σ} (himplicit : r.scopes.DeletableImplicit)
    {name : String} {strict : Bool} {g : FrameId} {v : Value} :
    (putUndeclared name strict g v).attempt.Writes Realm.KeepsBindings r ↔
      ¬ (strict = false ∧ ∃ b, r.scopes.binding? g name = some b ∧ b.deletable = false) := by
  unfold putUndeclared
  cases strict with
  | true => exact iff_of_true ((LeavesFrames.raise _).keeps r) fun hno => by cases hno.1
  | false =>
    rw [if_neg Bool.false_ne_true, writes_modifyFrame]
    refine Scopes.keeps_bind_iff.trans ⟨?_, ?_⟩
    · rintro hkeeps ⟨-, b, hb, hdeclared⟩
      obtain ⟨-, -, -, hdeletable⟩ := hkeeps b hb
      cases hdeletable hdeclared
    · intro hnone b hb
      have hdeletable : b.deletable = true :=
        Bool.of_not_eq_false fun hdeclared => hnone ⟨rfl, b, hb, hdeclared⟩
      obtain ⟨hkind, hready⟩ := himplicit g name b hb hdeletable
      refine ⟨hkind.symm, ?_, ?_, ?_⟩
      · intro hno
        rw [hready] at hno
        cases hno
      · intro _ hfixed
        rw [hkind] at hfixed
        rcases hfixed with hno | hno <;> cases hno
      · intro hno
        rw [hdeletable] at hno
        cases hno

/-- Writing through a reference does harm in one case only. -/
theorem putValue_keeps_iff [Printer] {r : Realm σ} (himplicit : r.scopes.DeletableImplicit)
    {reference : Reference} {v : Value} :
    (putValue v reference).attempt.Writes Realm.KeepsBindings r ↔
      ¬ reference.Overwrites r.scopes := by
  cases reference with
  | unresolved name strict g =>
    refine (putUndeclared_keeps_iff himplicit).trans (not_congr ?_)
    unfold Reference.Overwrites Reference.implicitFrame?
    cases strict <;> simp [Reference.name]
  | resolved base name strict =>
    cases base with
    | value base =>
      have hleaves : LeavesFrames
          (putValue v (.resolved (.value base) name strict) : ScriptM σ Unit) := by
        dsimp only [putValue]
        split
        · exact .raise _
        · exact .bind (.autoboxed _ fun o => .setProperty o name v base strict) fun _ => .pure ()
      refine iff_of_true (hleaves.keeps r) ?_
      rintro ⟨g, b, hno, -⟩
      cases hno
    | frame f =>
      dsimp only [putValue]
      rw [writes_realm_bind]
      cases hb : r.scopes.binding? f name with
      | none =>
        refine (putUndeclared_keeps_iff himplicit).trans (not_congr ?_)
        unfold Reference.Overwrites Reference.implicitFrame? Scopes.declares
        cases strict <;> simp [Reference.name, hb]
      | some b =>
        have hsafe : ¬ Reference.Overwrites (.resolved (.frame f) name strict) r.scopes := by
          rintro ⟨g, b, hno, -⟩
          simp [Reference.implicitFrame?, Scopes.declares, hb] at hno
        have hassign : b.kind = .variable ∨ b.kind = .letVariable →
            (modifyFrame f (·.bind name { b with value := v })).attempt.Writes
              Realm.KeepsBindings r := by
          intro hwritable
          exact writes_modifyFrame.mpr (Scopes.keeps_assign hb hwritable)
        refine iff_of_true ?_ hsafe
        dsimp only
        split
        · exact LeavesFrames.keeps (.raise _) r
        · split
          · exact LeavesFrames.keeps (.raise _) r
          · split
            · exact LeavesFrames.keeps (.raise _) r
            · exact LeavesFrames.keeps (.pure ()) r
          · rename_i hkind
            exact hassign (.inl hkind)
          · rename_i hkind
            exact hassign (.inr hkind)

/-- Deleting through a reference does no harm. -/
theorem deleteReference_keeps [Printer] (r : Realm σ) (reference : Reference) :
    (deleteReference reference).attempt.Writes Realm.KeepsBindings r := by
  cases reference with
  | unresolved name strict g =>
    dsimp only [deleteReference]
    split
    · exact LeavesFrames.keeps (.raise _) r
    · exact LeavesFrames.keeps (.pure true) r
  | resolved base name strict =>
    cases base with
    | value base =>
      refine LeavesFrames.keeps ?_ r
      dsimp only [deleteReference]
      split
      · exact .raise _
      · exact .autoboxed _ fun o => .deleteProperty o name strict
    | frame f =>
      dsimp only [deleteReference]
      split
      · exact LeavesFrames.keeps (.raise _) r
      · rw [writes_realm_bind]
        cases hb : r.scopes.binding? f name with
        | none => exact LeavesFrames.keeps (.pure true) r
        | some b =>
          dsimp only
          split
          · rename_i hdeletable
            exact ⟨Scopes.keeps_unbind hb hdeletable, trivial⟩
          · exact LeavesFrames.keeps (.pure false) r

end ScriptM

/-! ## In every run -/

variable {π : Policy σ} {w w' : World σ}

/-- A move changes the frames by a step of theirs, or not at all. -/
theorem Move.scopes (m : Move π w w') :
    w'.realm.scopes = w.realm.scopes ∨ w.realm.scopes.Change w'.realm.scopes := by
  cases m with
  | names change fits => exact .inr change
  | _ => exact .inl rfl

/-- What every step on the frames keeps, given what is so at every moment, is so along a
course. -/
theorem Course.scopes [Printer] {P Q : Scopes → Prop} {ms : List (Moment σ)}
    (hcourse : Course π w ms w')
    (hstep : ∀ s s', s.Change s' → Q s' → P s → P s') (hall : ∀ m ∈ ms, Q m.realm.scopes)
    (hstart : P w.realm.scopes) : ∀ m ∈ ms, P m.realm.scopes := by
  induction hcourse with
  | nil =>
    intro m hm
    cases hm
  | @cons w w₁ w₂ e ms move fits rest ih =>
    have hnext : P w₁.realm.scopes := by
      rcases move.scopes with hsame | hchange
      · rw [hsame]
        exact hstart
      · exact hstep _ _ hchange (hall _ List.mem_cons_self) hstart
    intro m hm
    rcases List.mem_cons.mp hm with rfl | hm
    · exact hnext
    · exact ih (fun m hm => hall m (List.mem_cons_of_mem _ hm)) hnext m hm

theorem Course.deletableImplicit [Printer] {ms : List (Moment σ)} (hcourse : Course π w ms w')
    (hstart : w.realm.scopes.DeletableImplicit) :
    ∀ m ∈ ms, m.realm.scopes.DeletableImplicit :=
  hcourse.scopes (Q := fun _ => True) (fun _ _ hchange _ hs => hchange.deletableImplicit hs)
    (fun _ _ => trivial) hstart

/-- The names of a fresh realm are declared. -/
theorem Scopes.deletableImplicit_fresh (strict : Bool) (host : σ) :
    (Realm.fresh strict host).scopes.DeletableImplicit := by
  intro f name b hb hdeletable
  obtain ⟨frame, hframe, hfind⟩ := get?_of_binding? hb
  have hentry := Table.mem_entries_of_find? hfind
  rw [get?_fresh hframe] at hentry
  rcases List.mem_append.mp hentry with hentry | hentry
  · obtain ⟨family, -, heq⟩ := List.mem_map.mp hentry
    cases heq
    cases hdeletable
  · simp only [List.mem_cons, List.not_mem_nil, or_false] at hentry
    rcases hentry with heq | heq | heq <;> cases heq <;> cases hdeletable

/-- Whatever realm a run passes through and whatever reference is used there:
deleting leaves all bindings intact, and writing does so unless it would make a
binding where the name has been declared. -/
theorem Program.declarations_intact_iff [Printer] {strict : Bool} {host : σ} {p : Program σ}
    {allowance : Nat} {m : Moment σ}
    (hm : m ∈ p.history allowance (Realm.fresh strict host)) (reference : Reference) (v : Value) :
    (ScriptM.deleteReference reference).attempt.Writes Realm.KeepsBindings m.realm
      ∧ ((ScriptM.putValue v reference).attempt.Writes Realm.KeepsBindings m.realm ↔
        ¬ reference.Overwrites m.realm.scopes) := by
  obtain ⟨w', hcourse⟩ := Program.history_course (p.obeys_free _) (fun _ hheld => hheld.elim)
    allowance
  have himplicit := hcourse.deletableImplicit (Scopes.deletableImplicit_fresh strict host) m hm
  exact ⟨ScriptM.deleteReference_keeps m.realm reference, ScriptM.putValue_keeps_iff himplicit⟩

/-- A constant is lost to a reference that was made before it was declared. -/
theorem Program.declarations_intact_stale :
    ¬ (ScriptM.putValue (.boolean false)
        ((Realm.fresh false ()).scopes.resolve Scopes.globalFrame "k" false)).attempt.Writes
      Realm.KeepsBindings
      ((Realm.fresh false ()).withFrame Scopes.globalFrame
        (·.define "k" .constant (.boolean true))) := by
  have hmoment : ⟨.written, _⟩ ∈ Program.history 0
      (.ask (.resolve Scopes.globalFrame "k" false) fun _ =>
        .ask (.defineName Scopes.globalFrame "k" .constant (.boolean true)) fun _ =>
          .finish (.normal .undefined)) (Realm.fresh false ()) := .tail _ (.tail _ (.head _))
  intro hkeeps
  refine (Program.declarations_intact_iff hmoment _ _).2.mp hkeeps
    ⟨Scopes.globalFrame, ⟨.boolean true, .constant, true, false⟩, ?_, ?_, rfl⟩
  · decide +kernel
  · decide +kernel

end ScriptRealm
