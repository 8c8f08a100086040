import ScriptRealm.Realm.Moments

/-!
# Runs — runs taken apart

A run of two computations, one after the other, is a run of the first and then
one of the second (`RealmM.run_bind`), and the same goes for programs
(`Program.run_andThen`). A computation that may throw goes on only when it has
a result, so when the whole has one each part has (`ScriptM.run_bind_ok`).
Computations follow the laws of a monad, as trees and not only in what their runs
give, and the moments of two are those of the one and then those of the other
(`RealmM.moments_bind`).
-/

namespace ScriptRealm

variable {σ α β : Type} {runner : Runner σ}

theorem RealmM.bind_done (m : RealmM σ α) : m.bind done = m := by
  induction m with
  | done a => rfl
  | read next ih => exact congrArg read (funext ih)
  | write r next ih => exact congrArg (write r) ih
  | enter why b this args next ih => exact congrArg (enter why b this args) (funext ih)

theorem RealmM.bind_bind {γ : Type} (m : RealmM σ α) (f : α → RealmM σ β) (g : β → RealmM σ γ) :
    (m.bind f).bind g = m.bind fun a => (f a).bind g := by
  induction m with
  | done a => rfl
  | read next ih => exact congrArg read (funext ih)
  | write r next ih => exact congrArg (write r) ih
  | enter why b this args next ih => exact congrArg (enter why b this args) (funext ih)

instance : LawfulMonad (RealmM σ) :=
  .mk' _ RealmM.bind_done (fun _ _ => rfl) RealmM.bind_bind

theorem RealmM.run_bind (m : RealmM σ α) (k : α → RealmM σ β) (r : Realm σ) :
    (m >>= k).run runner r
      = (m.run runner r).bind fun ended => (k ended.1).run runner ended.2 := by
  induction m generalizing r with
  | done a => rfl
  | read next ih => exact ih r r
  | write r' next ih => exact ih r'
  | enter why b this args next ih =>
    show (runner b this args r).bind (fun ended => ((next ended.1) >>= k).run runner ended.2)
      = ((runner b this args r).bind fun ended => (next ended.1).run runner ended.2).bind _
    rw [Option.bind_assoc]
    exact Option.bind_congr fun ended _ => ih ended.1 ended.2

theorem RealmM.run_map (f : α → β) (m : RealmM σ α) (r : Realm σ) :
    (f <$> m).run runner r = (m.run runner r).map fun ended => (f ended.1, ended.2) :=
  (run_bind m (pure ∘ f) r).trans Option.map_eq_bind.symm

/-- The moments of a computation and of what goes on with its result. -/
theorem RealmM.moments_bind (watch : Watch σ) (m : RealmM σ α) (k : α → RealmM σ β)
    (r : Realm σ) :
    (m >>= k).moments runner watch r
      = m.moments runner watch r
        ++ (m.run runner r).elim [] fun ended => (k ended.1).moments runner watch ended.2 := by
  induction m generalizing r with
  | done a => rfl
  | read next ih => exact ih r r
  | write r' next ih => exact congrArg (_ :: ·) (ih r')
  | enter why b this args next ih =>
    simp only [moments, run]
    show _ :: watch b this args r ++ Moment.following (runner b this args r) .left
        (fun c => ((next c) >>= k).moments runner watch)
      = _ :: watch b this args r ++ Moment.following (runner b this args r) .left
          (fun c => (next c).moments runner watch)
        ++ ((runner b this args r).bind fun ended => (next ended.1).run runner ended.2).elim [] _
    rw [List.append_assoc]
    cases runner b this args r with
    | none => rfl
    | some ended => exact congrArg (_ :: watch b this args r ++ _ :: ·) (ih ended.1 ended.2)

/-- A program that goes on after another. -/
theorem Program.run_andThen [Printer] (p : Program σ) (next : Completion → Program σ)
    (r : Realm σ) :
    (p.andThen next).run runner r
      = (p.run runner r).bind fun ended => (next ended.1).run runner ended.2 := by
  induction p generalizing r with
  | finish c => rfl
  | observe k ih => exact ih r.host r
  | update state k ih => exact ih { r with host := state }
  | ask q k ih =>
    show (q.perform.run runner r).bind (fun ended => ((k ended.1).andThen next).run runner ended.2)
      = ((q.perform.run runner r).bind fun ended => (k ended.1).run runner ended.2).bind _
    rw [Option.bind_assoc]
    exact Option.bind_congr fun ended _ => ih ended.1 ended.2
  | newFunction name arity isConstructor body k _ ih =>
    show ((RealmM.newFunction _).run runner r).bind
        (fun ended => ((k ended.1).andThen next).run runner ended.2)
      = (((RealmM.newFunction _).run runner r).bind fun ended =>
          (k ended.1).run runner ended.2).bind _
    rw [Option.bind_assoc]
    exact Option.bind_congr fun ended _ => ih ended.1 ended.2

/-- A computation ends normally exactly when it has a result. -/
theorem ScriptM.run_complete_iff {m : ScriptM σ Value} {r r' : Realm σ} {v : Value} :
    m.complete.run runner r = some (.normal v, r')
      ↔ m.attempt.run runner r = some (.ok v, r') := by
  rw [ScriptM.complete, RealmM.run_map]
  constructor
  · intro hrun
    obtain ⟨⟨result, r₁⟩, hm, hended⟩ := Option.map_eq_some_iff.mp hrun
    cases result with
    | ok v => cases hended; exact hm
    | error e => cases hended
  · intro hm
    rw [hm]
    rfl

theorem ScriptM.attempt_map (f : α → β) (m : ScriptM σ α) :
    (f <$> m).attempt = Except.map f <$> m.attempt :=
  ExceptT.run_map ..

theorem ScriptM.run_map (f : α → β) (m : ScriptM σ α) (r : Realm σ) :
    (f <$> m).attempt.run runner r
      = (m.attempt.run runner r).map fun ended => (ended.1.map f, ended.2) := by
  rw [attempt_map, RealmM.run_map]

/-- A computation that does not throw. -/
theorem ScriptM.run_lift (m : RealmM σ α) (r : Realm σ) :
    (lift m).attempt.run runner r = (m.run runner r).map fun ended => (.ok ended.1, ended.2) :=
  RealmM.run_map Except.ok m r

/-- A computation that does not throw has its result. -/
theorem ScriptM.run_lift_ok {m : RealmM σ α} {r r' : Realm σ} {a : α}
    (hrun : (lift m).attempt.run runner r = some (.ok a, r')) : m.run runner r = some (a, r') := by
  rw [run_lift] at hrun
  obtain ⟨⟨b, r₁⟩, hm, hended⟩ := Option.map_eq_some_iff.mp hrun
  cases hended
  exact hm

/-- Two computations of which the first may throw: when both have a result, each
has its own. -/
theorem ScriptM.run_bind_ok {m : ScriptM σ α} {k : α → ScriptM σ β} {r r' : Realm σ}
    {b : β} (hrun : (m >>= k).attempt.run runner r = some (.ok b, r')) :
    ∃ a r₁, m.attempt.run runner r = some (.ok a, r₁)
      ∧ (k a).attempt.run runner r₁ = some (.ok b, r') := by
  have hrun : (m.attempt >>= ExceptT.bindCont k).run runner r = some (.ok b, r') := hrun
  rw [RealmM.run_bind] at hrun
  obtain ⟨⟨thrown | a, r₁⟩, hm, hk⟩ := Option.bind_eq_some_iff.mp hrun
  · cases hk
  · exact ⟨a, r₁, hm, hk⟩

/-- A computation that has a result comes first. -/
theorem ScriptM.run_bind_of_ok {m : ScriptM σ α} {r r' : Realm σ} {a : α}
    (hrun : m.attempt.run runner r = some (.ok a, r')) (k : α → ScriptM σ β) :
    (m >>= k).attempt.run runner r = (k a).attempt.run runner r' := by
  show (m.attempt >>= ExceptT.bindCont k).run runner r = _
  rw [RealmM.run_bind, hrun]
  rfl

/-- The realm is read first. -/
theorem RealmM.run_get_bind (k : Realm σ → RealmM σ α) (r : Realm σ) :
    (get >>= k).run runner r = (k r).run runner r :=
  rfl

/-- One change of the realm, with its answer. -/
theorem RealmM.run_modifyGet (f : Realm σ → α × Realm σ) (r : Realm σ) :
    (modifyGet f : RealmM σ α).run runner r = some (f r) :=
  rfl

/-- The realm is read first. -/
theorem ScriptM.run_realm_bind (k : Realm σ → ScriptM σ α) (r : Realm σ) :
    (realm >>= k).attempt.run runner r = (k r).attempt.run runner r :=
  rfl

/-- A function that is called runs without `new.target`, which is put back. -/
theorem RealmM.run_call [Printer] {r : Realm σ} {f : Value} {c : Callable (Behavior σ)}
    (hcallable : r.callable? f = some c) (this : Value) (args : List Value) :
    (call f this args).run runner r
      = (runner c.behavior this args { r with newTarget := none }).map fun ended =>
        (ended.1, { ended.2 with newTarget := r.newTarget }) := by
  rw [call, run_get_bind, hcallable, Option.map_eq_bind]
  rfl

/-- A constructor that is used to construct runs with itself as `new.target`. -/
theorem RealmM.run_construct [Printer] {r : Realm σ} {f : Value} {c : Callable (Behavior σ)}
    (hcallable : r.callable? f = some c) (hconstructor : c.isConstructor = true)
    (args : List Value) :
    (construct f args).run runner r
      = (runner c.behavior .undefined args { r with newTarget := some f }).map fun ended =>
        (ended.1, { ended.2 with newTarget := r.newTarget }) := by
  rw [construct, run_get_bind, hcallable, Option.filter_some, hconstructor,
    Option.map_eq_bind]
  rfl

/-- What the realm knows of an error. -/
def Realm.error? (r : Realm σ) (h : Handle) : Option ErrorRecord := (r.arena.get? h).bind (·.error)

/-- The host is told what the realm knows of an error. -/
theorem RealmM.run_uncaught [Printer] {r : Realm σ} {h : Handle} {e : ErrorRecord}
    (herror : r.error? h = some e) :
    (uncaught (.object h)).run runner r = some (.error e.kind e.message, r) := by
  have hrecord : ((Value.object h).handle?.bind r.arena.get?).bind (·.error) = some e := herror
  rw [uncaught, run_get_bind, hrecord]
  rfl

end ScriptRealm
