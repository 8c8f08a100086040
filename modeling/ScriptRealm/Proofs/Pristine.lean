import ScriptRealm.Proofs.Ancestry
import ScriptRealm.Proofs.Runs

/-!
# Pristine — realms in which nothing that was there at first has changed

A realm that scripts have run in is seldom as it was: errors fill slots, and
the boxes of accesses to primitives come and go. It is pristine when the
intrinsic objects are as they were made, the global frame is, and no
`new.target` is set. New objects do not matter to that (`allocate`, `release`).

A computation settles in a way (`Settles`) when it ends so from every pristine
realm, and leaves a pristine one: with a value that is the same in all of them,
or by throwing an error made for a cause that is the same. The handle of that
error is not the same; what a host is told of it is. `Settles` composes, so
what a computation settles in is found from its parts.
-/

namespace ScriptRealm

variable {σ α β : Type}

/-- The intrinsic objects, the global frame and `new.target` are as they were at
first, but for the strictness of the frame. -/
structure Realm.Pristine (r : Realm σ) : Prop where
  arena : r.arena.WellFormed
  intrinsics : ∀ i ∈ Intrinsic.all, r.arena.get? i.handle = some i.placed
  scopes : ∃ strict, r.scopes = ⟨#[⟨⟨Frame.globalBindings⟩, none, strict⟩]⟩
  newTarget : r.newTarget = none

namespace Realm.Pristine

variable {r : Realm σ}

theorem fresh (strict : Bool) (host : σ) : (Realm.fresh strict host).Pristine where
  arena := Arena.wellFormed_fresh
  intrinsics _ hi := Arena.get?_fresh_handle hi
  scopes := ⟨strict, rfl⟩
  newTarget := rfl

/-- Another arena with the same intrinsic objects. -/
theorem withArena (hr : r.Pristine) {a : Arena (Behavior σ)} (wf : a.WellFormed)
    (hsame : ∀ i ∈ Intrinsic.all, a.get? i.handle = r.arena.get? i.handle) :
    Pristine { r with arena := a } where
  arena := wf
  intrinsics i hi := (hsame i hi).trans (hr.intrinsics i hi)
  scopes := hr.scopes
  newTarget := hr.newTarget

/-- A handle without an object is that of no intrinsic object. -/
theorem ne_handle (hr : r.Pristine) {h : Handle} (hnone : r.arena.get? h = none) {i : Intrinsic}
    (hi : i ∈ Intrinsic.all) : i.handle ≠ h := by
  rintro rfl
  rw [hr.intrinsics i hi] at hnone
  cases hnone

theorem allocate (hr : r.Pristine) (o : Object (Behavior σ)) :
    Pristine { r with arena := (r.arena.allocate o).2 } := by
  refine hr.withArena (hr.arena.allocate o) fun i hi => ?_
  rw [Arena.get?_allocate hr.arena, if_neg (hr.ne_handle (Arena.get?_upcoming hr.arena) hi)]

theorem release (hr : r.Pristine) {h : Handle} (hother : ∀ i ∈ Intrinsic.all, i.handle ≠ h) :
    (r.withArena (·.release h)).Pristine := by
  refine hr.withArena (hr.arena.release h) fun i hi => ?_
  rw [Arena.get?_release, if_neg (hother i hi)]

/-- An intrinsic function is called as what it was made to be. -/
theorem callable? (hr : r.Pristine) {f : Builtin} (hf : .function f ∈ Intrinsic.all) :
    r.callable? (Intrinsic.function f).toValue = some f.callable := by
  show (r.arena.get? _).bind (·.callable) = _
  rw [hr.intrinsics _ hf]
  cases f <;> rfl

/-- A global name is bound to what it was bound to at first. -/
theorem binding? (hr : r.Pristine) (name : String) :
    r.scopes.binding? Scopes.globalFrame name = Table.find? ⟨Frame.globalBindings⟩ name := by
  obtain ⟨strict, hscopes⟩ := hr.scopes
  rw [hscopes]
  rfl

/-- A name that was global at first is looked up in the global frame. -/
theorem resolveGlobal (hr : r.Pristine) {name : String}
    (hname : (Table.find? ⟨Frame.globalBindings⟩ name).isSome = true) :
    ∃ strict, r.resolveGlobal name = .resolved (.frame Scopes.globalFrame) name strict := by
  obtain ⟨strict, hscopes⟩ := hr.scopes
  have hdeclares : r.scopes.declares Scopes.globalFrame name = true := by
    rw [Scopes.declares, hr.binding?, hname]
  have hchain : r.scopes.chain Scopes.globalFrame = [Scopes.globalFrame] := by
    rw [hscopes]
    rfl
  refine ⟨r.scopes.isStrict Scopes.globalFrame, ?_⟩
  rw [Realm.resolveGlobal, Scopes.resolve, Scopes.frameOf?, hchain, List.find?_cons, hdeclares]

end Realm.Pristine

/-! ## Runs that end -/

/-- The run ends, with a result and a realm that satisfy the postcondition. -/
def Execution.Ends (x : Execution σ α) (post : α → Realm σ → Prop) (r : Realm σ) : Prop :=
  ∃ a r', x r = some (a, r') ∧ post a r'

namespace Execution.Ends

variable {x : Execution σ α} {post post' : α → Realm σ → Prop} {r : Realm σ}

theorem pure {a : α} (h : post a r) : Ends (Pure.pure a : Execution σ α) post r := ⟨a, r, rfl, h⟩

theorem mono (h : Ends x post r) (himp : ∀ a r', post a r' → post' a r') : Ends x post' r := by
  obtain ⟨a, r', hrun, ha⟩ := h
  exact ⟨a, r', hrun, himp a r' ha⟩

theorem bind {k : α → Execution σ β} {post : β → Realm σ → Prop}
    (h : Ends x (fun a r' => Ends (k a) post r') r) : Ends (x >>= k) post r := by
  obtain ⟨a, r', hrun, b, r'', hk, hb⟩ := h
  refine ⟨b, r'', ?_, hb⟩
  show (x r).bind (fun ended => k ended.1 ended.2) = _
  rw [hrun]
  exact hk

end Execution.Ends

open Execution (Ends)

variable {runner : Runner σ}

namespace RealmM

variable {r : Realm σ}

theorem ends_bind {m : RealmM σ α} {k : α → RealmM σ β} {post : β → Realm σ → Prop}
    (h : Ends (m.run runner) (fun a r' => Ends ((k a).run runner) post r') r) :
    Ends ((m >>= k).run runner) post r := by
  obtain ⟨a, r', hrun, b, r'', hk, hb⟩ := h
  refine ⟨b, r'', ?_, hb⟩
  rw [run_bind, hrun]
  exact hk

theorem ends_map {m : RealmM σ α} {f : α → β} {post : β → Realm σ → Prop}
    (h : Ends (m.run runner) (fun a r' => post (f a) r') r) : Ends ((f <$> m).run runner) post r :=
  ends_bind (h.mono fun _ _ ha => .pure ha)

/-- Reading the realm first. -/
theorem ends_get {k : Realm σ → RealmM σ α} {post : α → Realm σ → Prop}
    (h : Ends ((k r).run runner) post r) : Ends ((get >>= k).run runner) post r :=
  h

/-- Changing the realm first. -/
theorem ends_modify {f : Realm σ → Realm σ} {k : PUnit → RealmM σ α} {post : α → Realm σ → Prop}
    (h : Ends ((k ⟨⟩).run runner) post (f r)) : Ends ((modify f >>= k).run runner) post r :=
  h

end RealmM

/-! ## Settling -/

/-- The handle is that of an error made for the cause. -/
def Realm.Tells [Printer] (r : Realm σ) (thrown : Value) (f : Fault) : Prop :=
  ∃ h o, thrown = .object h ∧ r.arena.get? h = some o ∧ o.error = some ⟨f.kind, f.message⟩

/-- An outcome is the given one: its value, or an error made for its cause. -/
def Realm.Shows [Printer] (r : Realm σ) : Except Value α → Except Fault α → Prop
  | .ok a, .ok b => a = b
  | .error thrown, .error f => r.Tells thrown f
  | _, _ => False

namespace RealmM

/-- From every pristine realm the computation ends in the given way and leaves a
pristine realm. -/
def Settles [Printer] (runner : Runner σ) (m : RealmM σ Completion) (e : Except Fault Value) :
    Prop :=
  ∀ r : Realm σ, r.Pristine →
    Ends (m.run runner) (fun c r' => r'.Pristine ∧ r'.Shows c.result e) r

end RealmM

namespace ScriptM

/-- From every pristine realm the computation ends in the given way and leaves a
pristine realm. -/
def Settles [Printer] (runner : Runner σ) (m : ScriptM σ α) (e : Except Fault α) : Prop :=
  ∀ r : Realm σ, r.Pristine →
    Ends (m.attempt.run runner) (fun result r' => r'.Pristine ∧ r'.Shows result e) r

variable {m : ScriptM σ α} {e : Except Fault β}

theorem settles_pure [Printer] (a : α) : Settles runner (Pure.pure a : ScriptM σ α) (.ok a) :=
  fun _ hr => .pure ⟨hr, rfl⟩

theorem Settles.bind [Printer] {k : α → ScriptM σ β} {a : α} (hm : m.Settles runner (.ok a))
    (hk : (k a).Settles runner e) : (m >>= k).Settles runner e := by
  intro r hr
  refine RealmM.ends_bind ((hm r hr).mono ?_)
  rintro (thrown | b) r' ⟨hr', hshows⟩
  · exact hshows.elim
  · cases hshows
    exact hk r' hr'

theorem Settles.map [Printer] {f : α → β} {a : α} (hm : m.Settles runner (.ok a)) :
    (f <$> m).Settles runner (.ok (f a)) :=
  hm.bind (settles_pure (f a))

/-- Reading the realm first. -/
theorem settles_realm [Printer] {k : Realm σ → ScriptM σ β}
    (hk : ∀ r : Realm σ, r.Pristine → (k r).Settles runner e) :
    (realm >>= k).Settles runner e :=
  fun r hr => hk r hr r hr

end ScriptM

/-- A computation that does not throw comes first. -/
theorem ScriptM.ends_lift {m : RealmM σ α} {k : α → ScriptM σ β}
    {post : Except Value β → Realm σ → Prop} {r : Realm σ}
    (h : Ends (m.run runner) (fun a r' => Ends ((k a).attempt.run runner) post r') r) :
    Ends ((lift m >>= k).attempt.run runner) post r :=
  RealmM.ends_bind (RealmM.ends_map h)

/-- A computation that may throw settles as a completion. -/
theorem ScriptM.Settles.complete [Printer] {m : ScriptM σ Value} {e : Except Fault Value}
    (hm : m.Settles runner e) : m.complete.Settles runner e := by
  intro r hr
  refine RealmM.ends_map ((hm r hr).mono ?_)
  rintro result r' ⟨hr', hshows⟩
  rw [Completion.result_ofResult]
  exact ⟨hr', hshows⟩

/-! ## New objects -/

namespace RealmM

variable {r : Realm σ}

/-- A new object is in a slot that no intrinsic object has. -/
theorem allocate_ends (hr : r.Pristine) (o : Object (Behavior σ)) :
    Ends ((allocate o).run runner) (fun h r' => r'.Pristine
      ∧ r'.arena.get? h = some { o with id := h.id } ∧ ∀ i ∈ Intrinsic.all, i.handle ≠ h) r := by
  refine ⟨_, _, rfl, hr.allocate o, ?_⟩
  rw [Arena.allocate_fst]
  refine ⟨?_, fun i hi => hr.ne_handle (Arena.get?_upcoming hr.arena) hi⟩
  rw [Arena.get?_allocate hr.arena, if_pos rfl]

/-- A new error tells its cause. -/
theorem newError_ends [Printer] (hr : r.Pristine) (f : Fault) :
    Ends ((newError f.kind f.message).run runner) (fun v r' => r'.Pristine ∧ r'.Tells v f) r :=
  ends_map ((allocate_ends hr _).mono fun h _ ⟨hr', hget, _⟩ => ⟨hr', h, _, rfl, hget, rfl⟩)

theorem throwing_settles [Printer] (f : Fault) :
    (throwing f : RealmM σ Completion).Settles runner (.error f) :=
  fun _ hr => ends_map (newError_ends hr f)

end RealmM

theorem ScriptM.raise_settles [Printer] (f : Fault) :
    (raise f : ScriptM σ α).Settles runner (.error f) :=
  fun _ hr => ends_lift ((RealmM.newError_ends hr f).mono fun _ _ h => .pure h)

/-! ## Calls -/

/-- Running a function without `new.target` puts back that there was none. -/
theorem RealmM.underTarget_settles [Printer] {m : RealmM σ Completion} {e : Except Fault Value}
    (hm : m.Settles runner e) : (underTarget none m).Settles runner e := by
  have hclear : ∀ {r : Realm σ}, r.Pristine → { r with newTarget := none } = r := by
    intro r hr
    rw [← hr.newTarget]
  intro r hr
  refine ends_get (ends_modify (ends_bind ?_))
  rw [hclear hr]
  refine (hm r hr).mono ?_
  rintro c r' ⟨hr', hshows⟩
  refine ends_modify (.pure ?_)
  rw [hr.newTarget, hclear hr']
  exact ⟨hr', hshows⟩

/-- Calling an intrinsic function settles as its behaviour does. -/
theorem RealmM.call_settles [Printer] {allowance : Nat} {f : Builtin} {this : Value}
    {args : List Value} {e : Except Fault Value} (hf : .function f ∈ Intrinsic.all)
    (hbody : (f.perform this args : RealmM σ Completion).Settles (Behavior.run allowance) e) :
    (call (Intrinsic.function f).toValue this args : RealmM σ Completion).Settles
      (Behavior.run (allowance + 1)) e := by
  have hentered : (runBehavior .called (.builtin f) this args : RealmM σ Completion).Settles
      (Behavior.run (allowance + 1)) e :=
    fun r hr => .bind ((hbody r hr).mono fun _ _ h => .pure h)
  intro r hr
  refine ends_get ?_
  rw [hr.callable? hf]
  exact underTarget_settles hentered r hr

/-! ## Boxing for one access -/

/-- An access that only looks at the box, and finds the same in every pristine
realm, settles; the box is gone after it. -/
theorem ScriptM.autoboxed_settles [Printer] (p : Boxed) {use : Handle → ScriptM σ α} {a : α}
    (huse : ∀ (r : Realm σ) (h : Handle), r.Pristine →
      r.arena.get? h
        = some { Object.wrapper (RealmM.wrapperPrototype p).handle p with id := h.id } →
      (use h).attempt.run runner r = some (.ok a, r)) :
    (autoboxed p.toValue use).Settles runner (.ok a) := by
  have hbox : autoboxed p.toValue use = (do
      let wrapper ← lift (RealmM.newWrapper p)
      let outcome ← lift (use wrapper).attempt
      lift (RealmM.release wrapper)
      ofExcept outcome) := by
    cases p <;> rfl
  rw [hbox]
  intro r hr
  refine ends_lift ((RealmM.allocate_ends hr _).mono ?_)
  rintro h r' ⟨hr', hget, hnew⟩
  exact ends_lift ⟨.ok a, r', huse r' h hr' hget,
    ends_lift ⟨⟨⟩, _, rfl, .ok a, _, rfl, hr'.release hnew, rfl⟩⟩

end ScriptRealm
