import Mathlib.Data.List.Basic
import ScriptRealm.Realm.Moments

/-!
# Calls — the functions under way, read off the moments of a run

The moments of a run say when a function is entered, for what reason, and when
it ends. Read in order they tell at every moment which functions are under way
(`callsAfter`), without a look at the realm.

`Follows` says that `new.target` goes along: it is what the reason for the
innermost call asks for, at the moments at which a body runs. A call sets it
right before the function is entered, and puts it back right after the function
has ended. `Follows` is about stretches of a run from any calls on, so that it
composes (`Follows.append`).
-/

namespace ScriptRealm

variable {σ : Type}

/-- The `new.target` of a function that runs for the given reason. -/
def Entry.target : Entry → Option Value
  | .called => none
  | .constructing f => some f

/-- The `new.target` of the innermost of the calls under way. -/
def targetOf : List Entry → Option Value
  | [] => none
  | why :: _ => why.target

/-- The calls under way after an event, the innermost first. -/
def Event.callsAfter (calls : List Entry) : Event → List Entry
  | .entered why _ _ => why :: calls
  | .left _ => calls.tail
  | .begun | .written | .answered .. | .made _ => calls

/-- The calls under way after a stretch of a run. -/
def callsAfter (calls : List Entry) : List (Moment σ) → List Entry
  | [] => calls
  | m :: later => callsAfter (m.event.callsAfter calls) later

@[simp] theorem callsAfter_append (calls : List Entry) (ms ms' : List (Moment σ)) :
    callsAfter calls (ms ++ ms') = callsAfter (callsAfter calls ms) ms' := by
  induction ms generalizing calls with
  | nil => rfl
  | cons m ms ih => exact ih _

/-- At the moment `new.target` is that of the innermost of the calls under way
before it. A write may prepare for a function that is entered next, and the end
of a function is followed by the write that puts the former `new.target` back. -/
def Moment.Follows (m : Moment σ) (calls : List Entry) (later : List (Moment σ)) : Prop :=
  match m.event with
  | .begun | .answered .. | .made _ => m.realm.newTarget = targetOf calls
  | .entered why _ _ => m.realm.newTarget = why.target
  | .written =>
    m.realm.newTarget = targetOf calls
      ∨ ∃ why this args, later.head? = some ⟨.entered why this args, m.realm⟩
  | .left _ => ∃ why outer, calls = why :: outer ∧ m.realm.newTarget = why.target
      ∧ later.head? = some ⟨.written, { m.realm with newTarget := targetOf outer }⟩

/-- All moments of a stretch follow the calls under way. -/
def Follows (calls : List Entry) : List (Moment σ) → Prop
  | [] => True
  | m :: later => m.Follows calls later ∧ Follows (m.event.callsAfter calls) later

/-- The event is one of a body that runs, not of a write or of a call. -/
def Event.OfBody : Event → Prop
  | .begun | .answered .. | .made _ => True
  | .written | .entered .. | .left _ => False

theorem Event.OfBody.callsAfter_eq {e : Event} (he : e.OfBody) (calls : List Entry) :
    e.callsAfter calls = calls := by
  cases e with
  | begun | answered | made => rfl
  | written | entered | left => exact he.elim

theorem Event.OfBody.follows {e : Event} (he : e.OfBody) {r : Realm σ} {calls : List Entry}
    (hr : r.newTarget = targetOf calls) (later : List (Moment σ)) :
    Moment.Follows ⟨e, r⟩ calls later := by
  cases e with
  | begun | answered | made => exact hr
  | written | entered | left => exact he.elim

theorem Moment.Follows.append {m : Moment σ} {calls : List Entry} {later : List (Moment σ)}
    (h : m.Follows calls later) (more : List (Moment σ)) : m.Follows calls (later ++ more) := by
  have hhead : ∀ {m' : Moment σ}, later.head? = some m' → (later ++ more).head? = some m' := by
    intro m' hm'
    rw [List.head?_append, hm', Option.some_or]
  obtain ⟨e, r⟩ := m
  cases e with
  | begun | entered | answered | made => exact h
  | written => exact h.imp_right fun ⟨why, this, args, hnext⟩ => ⟨why, this, args, hhead hnext⟩
  | left c =>
    obtain ⟨why, outer, hcalls, htarget, hnext⟩ := h
    exact ⟨why, outer, hcalls, htarget, hhead hnext⟩

namespace Follows

variable {calls : List Entry} {ms : List (Moment σ)}

theorem append {ms' : List (Moment σ)} (h : Follows calls ms)
    (h' : Follows (callsAfter calls ms) ms') : Follows calls (ms ++ ms') := by
  induction ms generalizing calls with
  | nil => exact h'
  | cons m ms ih => exact ⟨h.1.append ms', ih h.2 h'⟩

/-- A moment of a stretch follows the calls that the moments before it leave. -/
theorem split {before after : List (Moment σ)} {m : Moment σ}
    (h : Follows calls (before ++ m :: after)) : m.Follows (callsAfter calls before) after := by
  induction before generalizing calls with
  | nil => exact h.1
  | cons b before ih => exact ih h.2

/-- The moments of a call: a write, the entry, the inside, the end of the
function, and a write. -/
theorem call {why : Entry} {this : Value} {args : List Value} {c : Completion} {r r' : Realm σ}
    {saved : Option Value} {inside rest : List (Moment σ)} (hsaved : saved = targetOf calls)
    (hr : r.newTarget = why.target) (hinside : Follows (why :: calls) inside)
    (hcalls : callsAfter (why :: calls) inside = why :: calls)
    (hr' : r'.newTarget = why.target) (hrest : Follows calls rest) :
    Follows calls (⟨.written, r⟩ :: ⟨.entered why this args, r⟩ :: (inside
      ++ ⟨.left c, r'⟩ :: ⟨.written, { r' with newTarget := saved }⟩ :: rest)) := by
  subst hsaved
  refine ⟨.inr ⟨why, this, args, rfl⟩, hr, hinside.append ?_⟩
  rw [hcalls]
  exact ⟨⟨why, calls, rfl, hr', rfl⟩, .inl rfl, hrest⟩

end Follows

end ScriptRealm
