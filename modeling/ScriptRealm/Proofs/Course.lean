import ScriptRealm.Proofs.Requests

/-!
# Course — runs are made of moves

A `Course` is a list of moments each of which is one move away from the one
before, and whose events tell what is so. `Program.accounted` and
`Behavior.accounts` say that the moments of every run are a course, to the
world in which the run ends: what holds of a world, is kept by moves and does
not mention boxes holds at every moment of every run. They say as well that
the moments follow the calls under way (`Follows`).

The induction is on the allowance of nested calls; inside one call it is on
the tree of the program or of the computation.
-/

namespace ScriptRealm

variable {σ α : Type} {π : Policy σ} {w w₁ w₂ w' : World σ} {ms : List (Moment σ)}

/-- What an event tells is so: the data that it hands over fits, and an answer is
what the request has been performed with. -/
structure Event.Holds [Printer] (π : Policy σ) (w : World σ) (e : Event) : Prop where
  fits : w.Fits π e
  performed : ∀ q a, e = .answered q a → ∃ (runner : Runner σ) (w₀ : World σ),
    w₀.Sound π ∧ q.perform.run runner w₀.realm = some (a, w.realm)

/-- The event is the receipt of an answer. -/
def Event.IsAnswer : Event → Prop
  | .answered .. => True
  | .begun | .written | .entered .. | .left _ | .made _ => False

theorem Event.Holds.of_fits [Printer] {e : Event} (fits : w.Fits π e) (hanswer : ¬ e.IsAnswer) :
    e.Holds π w := by
  refine ⟨fits, ?_⟩
  rintro q a rfl
  exact (hanswer trivial).elim

theorem Event.Holds.begun [Printer] : Event.begun.Holds π w := .of_fits (.of_nil rfl) id

theorem Event.Holds.written [Printer] : Event.written.Holds π w := .of_fits (.of_nil rfl) id

/-- A stretch of a run, each moment one move away from the one before. -/
inductive Course [Printer] (π : Policy σ) : World σ → List (Moment σ) → World σ → Prop
  | nil {w : World σ} : Course π w [] w
  | cons {w w₁ w₂ : World σ} {e : Event} {ms : List (Moment σ)} (move : Move π w w₁)
      (holds : e.Holds π w₁) (rest : Course π w₁ ms w₂) : Course π w (⟨e, w₁.realm⟩ :: ms) w₂

namespace Course

theorem moves [Printer] (h : Course π w ms w') : Moves π w w' := by
  induction h with
  | nil => exact .refl
  | cons move _ _ ih => exact ih.head move

theorem sound [Printer] (h : Course π w ms w') (hw : w.Sound π) : w'.Sound π := h.moves.sound hw

theorem append [Printer] {ms' : List (Moment σ)} (h : Course π w ms w₁) (h' : Course π w₁ ms' w₂) :
    Course π w (ms ++ ms') w₂ := by
  induction h with
  | nil => exact h'
  | cons move holds _ ih => exact .cons move holds (ih h')

/-- A moment at which nothing changes. -/
theorem still [Printer] {e : Event} (holds : e.Holds π w) (rest : Course π w ms w') :
    Course π w (⟨e, w.realm⟩ :: ms) w' :=
  .cons .stay holds rest

theorem of_append [Printer] {ms' : List (Moment σ)} (h : Course π w (ms ++ ms') w') :
    ∃ w₁, Course π w ms w₁ := by
  induction ms generalizing w with
  | nil => exact ⟨w, .nil⟩
  | cons m ms ih =>
    cases h with
    | cons move holds rest =>
      obtain ⟨w₁, hms⟩ := ih rest
      exact ⟨w₁, .cons move holds hms⟩

/-- A moment of a course divides it. -/
theorem split [Printer] {m : Moment σ} {before after : List (Moment σ)}
    (h : Course π w (before ++ m :: after) w') :
    ∃ w₁ w₂, Course π w before w₁ ∧ Move π w₁ w₂ ∧ w₂.realm = m.realm ∧ m.event.Holds π w₂
      ∧ Course π w₂ after w' := by
  induction before generalizing w with
  | nil =>
    cases h with
    | cons move holds rest => exact ⟨_, _, .nil, move, rfl, holds, rest⟩
  | cons b before ih =>
    cases h with
    | cons move holds rest =>
      obtain ⟨w₁, w₂, hbefore, hmove, hrealm, hevent, hafter⟩ := ih rest
      exact ⟨w₁, w₂, .cons move holds hbefore, hmove, hrealm, hevent, hafter⟩

/-- A stretch of a course is a course, from a sound world that is as the realm
is at the first moment. -/
theorem stretch [Printer] (hw : w.Sound π) (h : Course π w ms w') {first : Moment σ}
    {later : List (Moment σ)} (hin : first :: later <:+: ms) :
    ∃ w₁ w₂, w₁.Sound π ∧ w₁.realm = first.realm ∧ first.event.Holds π w₁
      ∧ Course π w₁ later w₂ := by
  obtain ⟨before, after, rfl⟩ := hin
  rw [List.append_assoc, List.cons_append] at h
  obtain ⟨w₀, w₁, hbefore, hmove, hrealm, hevent, hrest⟩ := h.split
  have hsound : w₁.Sound π := hmove.sound (hbefore.sound hw)
  obtain ⟨w₂, hlater⟩ := hrest.of_append
  exact ⟨w₁, w₂, hsound, hrealm, hevent, hlater⟩

/-- A course ends in the realm of its last moment. -/
theorem realm_eq [Printer] (h : Course π w ms w') :
    w'.realm = ((ms.getLast?).map (·.realm)).getD w.realm := by
  induction h with
  | nil => rfl
  | @cons w w₁ w₂ e ms _ _ rest ih =>
    rw [ih, List.getLast?_cons]
    cases ms.getLast? <;> rfl

end Course

/-- A run from a world: its moments are a course and follow the calls under way.
When it ends it ends where the course does, under the same calls and the same
`new.target`, and satisfies the postcondition. -/
def Accounted [Printer] (π : Policy σ) (w : World σ) (ms : List (Moment σ))
    (ended : Option (α × Realm σ)) (post : α → World σ → Prop) : Prop :=
  ∃ w', Course π w ms w' ∧ (∀ calls, w.realm.newTarget = targetOf calls → Follows calls ms) ∧
    ∀ a r, ended = some (a, r) → w'.realm = r ∧ w'.realm.newTarget = w.realm.newTarget
      ∧ (∀ calls, callsAfter calls ms = calls) ∧ post a w'

/-- All boxes have been given back, and the result fits. -/
abbrev Returned (π : Policy σ) [Carrier α] (w : World σ) (a : α) (w' : World σ) : Prop :=
  w'.boxes = w.boxes ∧ w'.Fits π a

/-- Entering functions is accounted for. -/
def Runner.Accounts [Printer] (π : Policy σ) (runner : Runner σ) (watch : Watch σ) : Prop :=
  ∀ {b this args} {w : World σ}, w.Sound π → b.Obeys π w → w.Fits π this → w.Fits π args →
    Accounted π w (watch b this args w.realm) (runner b this args w.realm) (Returned π w)

/-- A piece of a run, the moment at which the program has its result, and the
rest of the run. -/
theorem Accounted.andThen [Printer] {β : Type} [Carrier α] [Carrier β] (event : α → Event)
    (hw : w.Sound π) {ended : Option (α × Realm σ)} {rest : α → Realm σ → List (Moment σ)}
    {next : α → Realm σ → Option (β × Realm σ)} (h : Accounted π w ms ended (Returned π w))
    (hbody : ∀ a, (event a).OfBody)
    (hevent : ∀ a w₁, ended = some (a, w₁.realm) → w₁.Fits π a → (event a).Holds π w₁)
    (hrest : ∀ a w₁, Later π w w₁ → w₁.Fits π a →
      Accounted π w₁ (rest a w₁.realm) (next a w₁.realm) (Returned π w₁)) :
    Accounted π w (ms ++ Moment.following ended event rest)
      (ended.bind fun ended => next ended.1 ended.2) (Returned π w) := by
  obtain ⟨w₁, hcourse, hfollows, hend⟩ := h
  cases ended with
  | none =>
    refine ⟨w₁, hcourse.append .nil, ?_, nofun⟩
    intro calls hcalls
    exact (hfollows calls hcalls).append trivial
  | some ended =>
    obtain ⟨a, r⟩ := ended
    obtain ⟨rfl, htarget, hsame, hboxes, ha⟩ := hend a r rfl
    have hlater : Later π w w₁ := ⟨hcourse.moves, hboxes, htarget, hcourse.sound hw⟩
    obtain ⟨w', hafter, hgoes, hdone⟩ := hrest a w₁ hlater ha
    refine ⟨w', hcourse.append (.still (hevent a w₁ rfl ha) hafter), ?_, ?_⟩
    · intro calls hcalls
      refine (hfollows calls hcalls).append ?_
      have htop : w₁.realm.newTarget = targetOf calls := htarget.trans hcalls
      rw [hsame calls]
      refine ⟨(hbody a).follows htop _, ?_⟩
      rw [(hbody a).callsAfter_eq]
      exact hgoes calls htop
    · intro b r hb
      obtain ⟨hrealm, htarget', hsame', hboxes', hb⟩ := hdone b r hb
      refine ⟨hrealm, htarget'.trans htarget, fun calls => ?_, hboxes'.trans hboxes, hb⟩
      show callsAfter calls (ms ++ ⟨event a, w₁.realm⟩ :: rest a w₁.realm) = calls
      rw [callsAfter_append, hsame]
      show callsAfter ((event a).callsAfter calls) (rest a w₁.realm) = calls
      rw [(hbody a).callsAfter_eq, hsame']

/-- What a program knows after being handed data that fits lasts. -/
theorem lasts_learn [Carrier α] {a : α} {known : Handle → Prop}
    (hknown : ∀ h, known h → w.Lasts π h) (ha : w.Fits π a) :
    ∀ h, learn known a h → w.Lasts π h :=
  fun h hh => hh.elim (hknown h) (ha h)

variable {runner : Runner σ} {watch : Watch σ}

namespace RealmM

variable {why : Entry} {b : Behavior σ} {this : Value} {args : List Value}
  {next : Completion → RealmM σ α}

theorem run_calling (r : Realm σ) :
    (calling r why b this args next).run runner r
      = (runner b this args { r with newTarget := why.target }).bind fun ended =>
          (next ended.1).run runner { ended.2 with newTarget := r.newTarget } :=
  rfl

/-- The moments of a call that does not end. -/
theorem moments_calling_none {r : Realm σ}
    (hrun : runner b this args { r with newTarget := why.target } = none) :
    (calling r why b this args next).moments runner watch r
      = ⟨.written, { r with newTarget := why.target }⟩
        :: ⟨.entered why this args, { r with newTarget := why.target }⟩
        :: watch b this args { r with newTarget := why.target } := by
  simp only [calling, moments, hrun, Moment.following, List.append_nil]

/-- The moments of a call that ends, and of what is done after it. -/
theorem moments_calling_some {r r' : Realm σ} {c : Completion}
    (hrun : runner b this args { r with newTarget := why.target } = some (c, r')) :
    (calling r why b this args next).moments runner watch r
      = ⟨.written, { r with newTarget := why.target }⟩
        :: ⟨.entered why this args, { r with newTarget := why.target }⟩
        :: (watch b this args { r with newTarget := why.target } ++ ⟨.left c, r'⟩
          :: ⟨.written, { r' with newTarget := r.newTarget }⟩
          :: (next c).moments runner watch { r' with newTarget := r.newTarget }) := by
  simp only [calling, moments, hrun, Moment.following, List.cons_append]

/-- A call is accounted for when its function is and what is done after it is. -/
theorem accounted_calling [Printer] (haccounts : runner.Accounts π watch)
    {post : α → World σ → Prop}
    (hw : w.Sound π) (target : w.Fits π why.target) (obeys : b.Obeys π w)
    (receiver : w.Fits π this) (arguments : w.Fits π args)
    (hnext : ∀ c w', Later π w w' → w'.Fits π c →
      Accounted π w' ((next c).moments runner watch w'.realm) ((next c).run runner w'.realm) post) :
    Accounted π w ((calling w.realm why b this args next).moments runner watch w.realm)
      ((calling w.realm why b this args next).run runner w.realm) post := by
  have hopen : Move π w (w.withTarget why.target) := .target target
  have hle := hopen.lasts hw
  have hentered : (Event.entered why this args).Holds π (w.withTarget why.target) :=
    .of_fits (World.fits_append.mpr ⟨receiver.mono hle, arguments.mono hle⟩) id
  obtain ⟨w₁, hinside, hgoes, hleft⟩ := haccounts (hopen.sound hw) (obeys.mono hle)
    (receiver.mono hle) (arguments.mono hle)
  cases hrun : runner b this args { w.realm with newTarget := why.target } with
  | none =>
    rw [moments_calling_none hrun, run_calling, hrun]
    refine ⟨w₁, .cons hopen .written (.still hentered hinside), ?_, nofun⟩
    intro calls _
    exact ⟨.inr ⟨why, this, args, rfl⟩, rfl, hgoes _ rfl⟩
  | some ended =>
    obtain ⟨c, r⟩ := ended
    obtain ⟨rfl, htarget, hsame, hboxes, hc⟩ := hleft c r hrun
    obtain ⟨hclose, hlater⟩ := Later.putBack hw target
      ⟨hinside.moves, hboxes, htarget, hinside.sound (hopen.sound hw)⟩
    have hafter := hc.mono (hclose.lasts (hinside.sound (hopen.sound hw)))
    obtain ⟨w', hcourse, hfollows, hend⟩ := hnext c _ hlater hafter
    rw [moments_calling_some hrun, run_calling, hrun]
    refine ⟨w', .cons hopen .written (.still hentered (hinside.append
      (.still (.of_fits hc id) (.cons hclose .written hcourse)))), ?_, ?_⟩
    · intro calls hcalls
      exact .call hcalls rfl (hgoes (why :: calls) rfl) (hsame _) htarget (hfollows calls hcalls)
    · intro a r hrest
      obtain ⟨hrealm, htarget', hsame', hpost⟩ := hend a r hrest
      refine ⟨hrealm, htarget', fun calls => ?_, hpost⟩
      simp only [callsAfter, Event.callsAfter, callsAfter_append, hsame, List.tail_cons, hsame']

end RealmM

/-- The moments of a safe computation are accounted for. -/
theorem RealmM.Safe.accounted [Printer] (haccounts : runner.Accounts π watch) {m : RealmM σ α}
    {post : α → World σ → Prop} (hm : m.Safe π post w) (hw : w.Sound π) :
    Accounted π w (m.moments runner watch w.realm) (m.run runner w.realm) post := by
  induction hm with
  | done result =>
    refine ⟨_, .nil, fun _ _ => trivial, ?_⟩
    intro a r hrun
    cases hrun
    exact ⟨rfl, rfl, fun _ => rfl, result⟩
  | read _ ih => exact ih hw
  | @write next w w₁ move target _ ih =>
    obtain ⟨w', hcourse, hfollows, hend⟩ := ih (move.sound hw)
    refine ⟨w', .cons move .written hcourse, ?_, ?_⟩
    · intro calls hcalls
      exact ⟨.inl (target.trans hcalls), hfollows calls (target.trans hcalls)⟩
    · intro a r hrun
      obtain ⟨hrealm, htarget, hsame, hpost⟩ := hend a r hrun
      exact ⟨hrealm, htarget.trans target, hsame, hpost⟩
  | call target obeys receiver arguments _ ih =>
    exact accounted_calling haccounts hw target obeys receiver arguments
      fun c w' hl hc => ih c w' hl hc hl.sound

theorem RealmM.Sound.accounted [Printer] (haccounts : runner.Accounts π watch) [Carrier α]
    {m : RealmM σ α} (hm : m.Sound π w) (hw : w.Sound π) :
    Accounted π w (m.moments runner watch w.realm) (m.run runner w.realm) (Returned π w) :=
  RealmM.Safe.accounted haccounts hm.safe hw

/-- The moments of a program that keeps to its policy are accounted for. -/
theorem Program.accounted [Printer] (haccounts : runner.Accounts π watch) {p : Program σ}
    {known : Handle → Prop} (hp : p.Obeys π known) (hknown : ∀ h, known h → w.Lasts π h)
    (hw : w.Sound π) :
    Accounted π w (p.moments runner watch w.realm) (p.run runner w.realm) (Returned π w) := by
  induction p generalizing w known with
  | finish c =>
    refine ⟨w, .nil, fun _ _ => trivial, ?_⟩
    intro b r hrun
    cases hrun
    exact ⟨rfl, rfl, fun _ => rfl, rfl, fun h hh => (hp h hh).elim .inl (hknown h)⟩
  | observe next ih =>
    exact ih w.realm.host (hp _) (fun h hh => hh.elim (hknown h) (hw.host h)) hw
  | update state next ih =>
    obtain ⟨hheld, hnext⟩ := hp
    have hmove : Move π w { w with realm := { w.realm with host := state } } :=
      .host fun h hh => (hheld h hh).elim .inl (hknown h)
    obtain ⟨w', hcourse, hfollows, hend⟩ :=
      ih hnext (fun h hh => hmove.lasts hw h (hknown h hh)) (hmove.sound hw)
    refine ⟨w', .cons hmove .written hcourse, ?_, hend⟩
    intro calls hcalls
    exact ⟨.inl hcalls, hfollows calls hcalls⟩
  | ask q next ih =>
    obtain ⟨hpermit, hq, hnext⟩ := hp
    have hfits : w.Fits π q := by
      intro h hh
      exact (hq h hh).elim .inl (hknown h)
    refine .andThen (.answered q) hw
      ((Request.sound hw hpermit hfits).accounted haccounts hw) (fun _ => trivial) ?_
      fun a w₁ hl ha => ih a (hnext a) (lasts_learn (fun h hh => ?_) ha) hl.sound
    · intro a w₁ hrun ha
      refine ⟨ha, ?_⟩
      rintro _ _ ⟨⟩
      exact ⟨runner, w, hw, hrun⟩
    · exact hl.moves.lasts hw h (hknown h hh)
  | newFunction name arity isConstructor body next ihb ih =>
    obtain ⟨hbody, hnext⟩ := hp
    have hmade : (RealmM.newFunction ⟨name, arity, .host body, isConstructor⟩).Sound π w :=
      .newFunction hw ⟨known, hknown, hbody⟩
    refine .andThen .made hw (hmade.accounted haccounts hw) (fun _ => trivial)
      (fun f w₁ _ hf => .of_fits hf id)
      fun f w₁ hl hf => ih f (hnext f) (lasts_learn (fun h hh => ?_) hf) hl.sound
    exact hl.moves.lasts hw h (hknown h hh)

/-- Entering functions is accounted for, whatever the allowance. -/
theorem Behavior.accounts [Printer] (allowance : Nat) :
    (Behavior.run allowance : Runner σ).Accounts π (Behavior.moments allowance) := by
  induction allowance with
  | zero =>
    intro b this args w hw hb hthis hargs
    exact ⟨w, .nil, fun _ _ => trivial, nofun⟩
  | succ allowance ih =>
    intro b this args w hw hb hthis hargs
    cases b with
    | builtin f => exact (RealmM.Sound.builtin hw f hthis hargs).accounted ih hw
    | host body =>
      obtain ⟨known, hknown, hbody⟩ := hb
      exact Program.accounted ih (hbody this args)
        (lasts_learn (lasts_learn hknown hthis) hargs) hw

/-- A sound computation that ends leads to a later world. -/
theorem RealmM.Sound.later [Printer] (haccounts : runner.Accounts π watch) [Carrier α]
    {m : RealmM σ α} (hm : m.Sound π w) (hw : w.Sound π) {a : α} {r : Realm σ}
    (hrun : m.run runner w.realm = some (a, r)) :
    ∃ w', w'.realm = r ∧ Later π w w' ∧ w'.Fits π a := by
  obtain ⟨w', hcourse, -, hend⟩ := hm.accounted haccounts hw
  obtain ⟨hrealm, htarget, -, hboxes, hfits⟩ := hend a r hrun
  exact ⟨w', hrealm, ⟨hcourse.moves, hboxes, htarget, hcourse.sound hw⟩, hfits⟩

end ScriptRealm
