import ScriptRealm.Number.Shortest
import ScriptRealm.Proofs.Genesis
import ScriptRealm.Proofs.Runs

/-!
# NewTarget — `new.target` goes along with the calls

`new.target` is one field of the realm. Every call overwrites it, and a body
that runs may call again, convert its arguments by code of a script, or never
end. Still the field is at every moment what the innermost of the calls under
way asks for: the function that constructs, or nothing in a call of any other
kind. The calls are read off the moments of the run and not off the realm
(`callsAfter`).

`Program.newTarget_follows` says so of all moments of all programs. It says as
well that no request leaves another `new.target` behind, and that the
constructors of numbers, booleans and strings, which look at `new.target` last,
still see the one that they were entered with.
-/

namespace ScriptRealm

variable {σ : Type}

/-- The moments of every run from a fresh realm follow the calls under way. -/
theorem Program.history_follows [Printer] (strict : Bool) (host : σ) (p : Program σ)
    (allowance : Nat) :
    Follows [] (p.history allowance (Realm.fresh strict host)) := by
  have hw : (World.fresh strict host).Sound Policy.free :=
    World.sound_fresh strict fun _ hh => hh.elim
  obtain ⟨w', -, hfollows, -⟩ := Program.accounted (Behavior.accounts allowance)
    (p.obeys_free fun _ => True) (fun _ _ => .inl trivial) hw
  exact ⟨rfl, hfollows [] rfl⟩

/-- No request leaves another `new.target` behind. -/
theorem Request.newTarget_eq [Printer] {w : World σ} (hw : w.Sound Policy.free) (q : Request)
    {n : Nat} {a : q.Answer} {r : Realm σ}
    (hrun : q.perform.run (Behavior.run n) w.realm = some (a, r)) :
    r.newTarget = w.realm.newTarget := by
  have hsound := Request.sound hw (Policy.permits_free q) (w.fits_free q)
  obtain ⟨w', rfl, hlater, -⟩ := hsound.later (Behavior.accounts n) hw hrun
  exact hlater.target

/-! ## The constructors of wrappers -/

/-- They answer an object when `new.target` is set. -/
theorem Builtin.isObject_boxIfConstructing {runner : Runner σ} {p : Boxed} {v : Value}
    {r r' : Realm σ} (hrun : (boxIfConstructing p).attempt.run runner r = some (.ok v, r')) :
    v.isObject = true ↔ r.newTarget.isSome = true := by
  rw [boxIfConstructing, ScriptM.run_realm_bind] at hrun
  cases htarget : r.newTarget.isSome with
  | true =>
    rw [htarget] at hrun
    cases hrun
    exact iff_of_true rfl rfl
  | false =>
    rw [htarget] at hrun
    cases hrun
    refine iff_of_false ?_ Bool.false_ne_true
    cases p <;> exact Bool.false_ne_true

/-- What a constructor of wrappers makes of its arguments. -/
inductive Builtin.Converts [Printer] (runner : Runner σ) (r : Realm σ) :
    Family → List Value → Boxed → Prop
  | zero : Converts runner r .number [] (.number Binary64.zero)
  | number {v : Value} {others : List Value} {x : Binary64} {r' : Realm σ}
      (hrun : (ScriptM.toNumber v).attempt.run runner r = some (.ok x, r')) :
      Converts runner r .number (v :: others) (.number x)
  | boolean (args : List Value) :
      Converts runner r .boolean args (.boolean (argument args 0).toBoolean)
  | empty : Converts runner r .string [] (.string Utf16.empty)
  | string {v : Value} {others : List Value} {text : String} {r' : Realm σ}
      (hrun : (ScriptM.toText v).attempt.run runner r = some (.ok text, r')) :
      Converts runner r .string (v :: others) (.string (Utf16.ofString text))

/-- The conversion comes first, and leads to a later world. -/
theorem Builtin.exists_conversion [Printer] {w : World σ} (hw : w.Sound Policy.free) {n : Nat}
    {α : Type}
    [Carrier α] {m : ScriptM σ α} (hm : m.Sound Policy.free w) {box : α → Boxed} {v : Value}
    {r : Realm σ} (hrun : (m >>= fun a => boxIfConstructing (box a)).attempt.run (Behavior.run n)
      w.realm = some (.ok v, r)) :
    ∃ a w', m.attempt.run (Behavior.run n) w.realm = some (.ok a, w'.realm)
      ∧ Later Policy.free w w'
      ∧ (boxIfConstructing (box a)).attempt.run (Behavior.run n) w'.realm = some (.ok v, r) := by
  obtain ⟨a, r₁, hconvert, hbox⟩ := ScriptM.run_bind_ok hrun
  obtain ⟨w', rfl, hlater, -⟩ := hm.attempt.later (Behavior.accounts n) hw hconvert
  exact ⟨a, w', hconvert, hlater, hbox⟩

/-- The families of the wrappers. -/
def Family.wrappers : List Family := [.number, .boolean, .string]

/-- A constructor of wrappers answers what it has made of its arguments, boxed if
constructing, in a later world. -/
theorem Builtin.converts_of_constructor [Printer] {w : World σ} (hw : w.Sound Policy.free)
    {family : Family}
    (hfamily : family ∈ Family.wrappers) {n : Nat} {this v : Value} {args : List Value}
    {r : Realm σ} (hrun : Behavior.run (n + 1) (.builtin (.constructor family)) this args w.realm
      = some (.normal v, r)) :
    ∃ p w', Converts (Behavior.run n) w.realm family args p ∧ Later Policy.free w w'
      ∧ (boxIfConstructing p).attempt.run (Behavior.run n) w'.realm = some (.ok v, r) := by
  have hvalue : ((Builtin.constructor family).value this args : ScriptM σ Value).attempt.run
      (Behavior.run n) w.realm = some (.ok v, r) := ScriptM.run_complete_iff.mp hrun
  simp only [Family.wrappers, List.mem_cons, List.not_mem_nil, or_false] at hfamily
  rcases hfamily with rfl | rfl | rfl
  · cases args with
    | nil => exact ⟨_, w, .zero, .refl hw, hvalue⟩
    | cons v others =>
      obtain ⟨x, w', hnumber, hlater, hbox⟩ :=
        exists_conversion hw (.toNumber hw (w.fits_free v)) hvalue
      exact ⟨_, w', .number hnumber, hlater, hbox⟩
  · exact ⟨_, w, .boolean args, .refl hw, hvalue⟩
  · cases args with
    | nil => exact ⟨_, w, .empty, .refl hw, hvalue⟩
    | cons v others =>
      obtain ⟨s, w', hstring, hlater, hbox⟩ := exists_conversion hw
        (.map (f := Utf16.ofString) hw (.toText hw (w.fits_free v)) fun _ _ _ => .of_nil rfl) hvalue
      obtain ⟨text, r₁, hread, hended⟩ :=
        ScriptM.run_bind_ok (k := fun text => pure (Utf16.ofString text)) hstring
      cases hended
      exact ⟨_, w', .string hread, hlater, hbox⟩

/-- A constructor of wrappers answers an object when it has been entered with
`new.target` set, whatever code its argument makes it run. -/
theorem Builtin.isObject_constructor [Printer] {w : World σ} (hw : w.Sound Policy.free)
    {family : Family}
    (hfamily : family ∈ Family.wrappers) {n : Nat} {this v : Value} {args : List Value}
    {r : Realm σ} (hrun : Behavior.run (n + 1) (.builtin (.constructor family)) this args w.realm
      = some (.normal v, r)) :
    v.isObject = true ↔ w.realm.newTarget.isSome = true := by
  obtain ⟨p, w', -, hlater, hbox⟩ := converts_of_constructor hw hfamily hrun
  rw [isObject_boxIfConstructing hbox, hlater.target]

/-! ## In every run -/

/-- At every moment of a run `new.target` is that of the innermost of the calls
under way, and a body that asks for it is told so. No request leaves another one
behind, and a constructor of wrappers makes an object exactly when it has been
entered with one, whatever code the conversion of its argument runs. -/
theorem Program.newTarget_follows [Printer] {strict : Bool} {host : σ} {p : Program σ}
    {allowance : Nat} {before after : List (Moment σ)} {m : Moment σ}
    (hrun : p.history allowance (Realm.fresh strict host) = before ++ m :: after) :
    m.Follows (callsAfter [] before) after
      ∧ (∀ a, m.event = .answered .newTarget a → a = targetOf (callsAfter [] before))
      ∧ (∀ (q : Request) n a r, q.perform.run (Behavior.run n) m.realm = some (a, r) →
          r.newTarget = m.realm.newTarget)
      ∧ ∀ family ∈ Family.wrappers, ∀ n this args v r,
          Behavior.run (n + 1) (.builtin (.constructor family)) this args m.realm
            = some (.normal v, r) → (v.isObject = true ↔ m.realm.newTarget.isSome = true) := by
  have hfollows : m.Follows (callsAfter [] before) after := by
    have hall := p.history_follows strict host allowance
    rw [hrun] at hall
    exact hall.split
  have hstretch : m :: after <:+: p.history allowance (Realm.fresh strict host) :=
    ⟨before, [], by rw [List.append_nil, hrun]⟩
  obtain ⟨w, -, hw, hrealm, hholds, -⟩ :=
    Program.history_stretch (p.obeys_free _) (fun _ hh => hh.elim) hstretch
  obtain ⟨e, r⟩ := m
  subst hrealm
  refine ⟨hfollows, ?_, fun q n a r hq => Request.newTarget_eq hw q hq,
    fun family hfamily n this args v r hend => Builtin.isObject_constructor hw hfamily hend⟩
  -- the answer is what the realm before it held, and looking changed nothing
  rintro a rfl
  obtain ⟨runner, w₀, -, hanswer⟩ := hholds.performed _ _ rfl
  have hread : some (w₀.realm.newTarget, w₀.realm) = some (a, w.realm) := hanswer
  obtain ⟨rfl, hsame⟩ := Prod.mk.inj (Option.some.inj hread)
  rw [hsame]
  exact hfollows

/-- A program that constructs with a function whose body asks for `new.target`. -/
def Program.constructing : Program Unit :=
  .newFunction "C" 0 true
    (fun _ _ => .ask .newTarget fun a => .finish (.normal (.boolean a.isSome)))
    fun f => .ask (.construct f []) .finish

/-- The body is told that the function constructs. -/
theorem Program.newTarget_follows_constructing :
    ∃ (f : Value) (before after : List (Moment Unit)) (a : Option Value) (r : Realm Unit),
      Program.constructing.history 1 (Realm.fresh false ())
          = before ++ ⟨.answered .newTarget a, r⟩ :: after
        ∧ callsAfter [] before = [.constructing f] ∧ a = some f := by
  have hrun : Program.constructing.history 1 (Realm.fresh false ())
      = [⟨.begun, _⟩, ⟨.written, _⟩, ⟨.made _, _⟩, ⟨.written, _⟩, ⟨.entered _ _ _, _⟩]
        ++ ⟨.answered .newTarget _, _⟩
          :: [⟨.left _, _⟩, ⟨.written, _⟩, ⟨.answered _ _, _⟩] := rfl
  obtain ⟨-, htold, -, -⟩ := Program.newTarget_follows hrun
  exact ⟨_, _, _, _, _, hrun, rfl, htold _ rfl⟩

end ScriptRealm
