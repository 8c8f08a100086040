import ScriptRealm.Proofs.Number.Exact
import ScriptRealm.Proofs.NumberMembers
import ScriptRealm.Proofs.PrimitiveAccess

/-!
# Formatting — the number methods that take a count

`toString`, `toFixed`, `toExponential` and `toPrecision` do the same three things in one
order (`Formatting`). They look at the receiver and refuse it if it has no number. They
convert the argument to an integer, which may run functions of the script that throw or
change the realm, the receiver included. Then they write the number that the receiver
had at the beginning, or throw for a count that is out of range, and which counts are
looked at differs from method to method (`Formatting.OutOfRange`).

`Formatting.perform_of_number` and `Formatting.perform_of_other` say so of the
computations: the method is the conversion and what follows it, or it is the refusal.
What a conversion leads to is one of four things (`Formatting.Follows`), and the moments
of the call are those of one conversion, with the error at the end if a new one is
thrown. `Program.formatting_exact` puts this together for every moment of every program.
-/

namespace ScriptRealm

variable {σ α : Type} {runner : Runner σ} {r : Realm σ} {this : Value} {args : List Value}

/-! ## Counts -/

/-- The finite number is not outside the bounds. -/
def Binary64.Within (x : Binary64) (low high : Nat) : Prop :=
  x.isFinite = true ∧ (low : ℚ) ≤ x.value ∧ x.value ≤ high

namespace Binary64

/-- The small integers that bound a count are numbers. -/
theorem value_ofNat {n : Nat} (h : n ≤ 36) : (ofNat n).isFinite = true ∧ (ofNat n).value = n := by
  have hall : ∀ n < 37, (ofNat n).isFinite = true ∧ (ofNat n).isNegative = false
      ∧ (ofNat n).quanta = n * one := by decide +kernel
  obtain ⟨hfinite, hsign, hquanta⟩ := hall n (Nat.lt_succ_of_le h)
  refine ⟨hfinite, ?_⟩
  rw [value, hsign, if_neg Bool.false_ne_true, one_mul, hquanta, Nat.cast_mul,
    mul_div_cancel_right₀ _ one_cast_pos.ne']

theorem natAbs_position (x : Binary64) : x.position.natAbs = x.magnitude := by
  unfold position
  split
  · rw [Int.natAbs_neg, Int.natAbs_natCast]
  · exact Int.natAbs_natCast _

/-- What is not finite is not between two finite numbers. -/
theorem isFinite_of_between {x low high : Binary64} (hlow : low.isFinite = true)
    (hhigh : high.isFinite = true) (h : low.atMost x = true ∧ x.atMost high = true) :
    x.isFinite = true := by
  simp only [atMost, Bool.and_eq_true, decide_eq_true_eq] at h
  have hlow : low.magnitude < infiniteMagnitude := of_decide_eq_true hlow
  have hhigh : high.magnitude < infiniteMagnitude := of_decide_eq_true hhigh
  rw [← natAbs_position] at hlow hhigh
  refine decide_eq_true ?_
  rw [← natAbs_position]
  omega

/-- The check of a count looks whether it is within the bounds. -/
theorem within_iff (x : Binary64) {low high : Nat} (hlow : low ≤ 36) (hhigh : high ≤ 36) :
    ((ofNat low).atMost x && x.atMost (ofNat high)) = true ↔ x.Within low high := by
  obtain ⟨hlow, hlowValue⟩ := value_ofNat hlow
  obtain ⟨hhigh, hhighValue⟩ := value_ofNat hhigh
  rw [Bool.and_eq_true, Within, ← hlowValue, ← hhighValue]
  constructor
  · intro h
    have hx := isFinite_of_between hlow hhigh h
    exact ⟨hx, (atMost_iff hlow hx).mp h.1, (atMost_iff hx hhigh).mp h.2⟩
  · rintro ⟨hx, hleft, hright⟩
    exact ⟨(atMost_iff hlow hx).mpr hleft, (atMost_iff hx hhigh).mpr hright⟩

end Binary64

/-! ## The four methods -/

/-- A method of numbers that answers a text and takes a count. -/
inductive Formatting where
  | inRadix
  | inDigits (m : DigitMethod)

namespace Formatting

/-- The built-in function. -/
def builtin : Formatting → Builtin
  | inRadix => .numberToString
  | inDigits .toFixed => .numberToFixed
  | inDigits .toExponential => .numberToExponential
  | inDigits .toPrecision => .numberToPrecision

/-- The cause to refuse a receiver for. -/
def receiverFault (f : Formatting) : Fault :=
  .wrongReceiver s!"Number.prototype.{f.builtin.name}" "a Number"

/-- The cause to throw for when the count is out of range. -/
def countFault : Formatting → Fault
  | inRadix => .radix
  | inDigits m => .digits ⟨m⟩

/-- The text of a number, with the count if there is one, or the cause that there is
none. Without a count `toFixed` takes zero and `toString` takes ten. -/
def text [Printer] (f : Formatting) (x : Binary64) (count : Option Binary64) :
    Except Fault String :=
  match f with
  | inRadix => Builtin.radixText x (count.getD (.ofNat 10))
  | inDigits .toFixed => (x.toFixed (count.getD .zero)).mapError .digits
  | inDigits .toExponential => (x.toExponential count).mapError .digits
  | inDigits .toPrecision => (x.toPrecision count).mapError .digits

/-- The count is refused for the number. Two of the methods write NaN and the infinities
whatever the count is. -/
def OutOfRange (f : Formatting) (x count : Binary64) : Prop :=
  match f with
  | inRadix => ¬ count.Within 2 36
  | inDigits .toFixed => ¬ count.Within 0 20
  | inDigits .toExponential => x.isFinite = true ∧ ¬ count.Within 0 20
  | inDigits .toPrecision => x.isFinite = true ∧ ¬ count.Within 1 21

/-- A count is dropped exactly when it is out of range. -/
theorem count?_eq_none_iff (m : DigitMethod) (count : Binary64) :
    m.count? count = none ↔ ¬ count.Within m.least m.greatest := by
  have hleast : m.least ≤ 36 := by cases m <;> decide
  have hgreatest : m.greatest ≤ 36 := by cases m <;> decide
  rw [← count.within_iff hleast hgreatest, DigitMethod.count?]
  split
  · next hwithin => exact iff_of_false nofun (not_not_intro hwithin)
  · next hwithin => exact iff_of_true rfl hwithin

/-- There is no result exactly when the condition holds, and then for this cause. -/
def FailsWhen {ε γ : Type} (condition : Prop) (cause : ε) (result : Except ε γ) : Prop :=
  condition ∧ result = .error cause ∨ ¬ condition ∧ ∃ a, result = .ok a

theorem FailsWhen.mapError {ε ε' γ : Type} {condition : Prop} {cause : ε} {result : Except ε γ}
    (h : FailsWhen condition cause result) (f : ε → ε') :
    FailsWhen condition (f cause) (result.mapError f) := by
  obtain ⟨hcondition, rfl⟩ | ⟨hcondition, a, rfl⟩ := h
  · exact .inl ⟨hcondition, rfl⟩
  · exact .inr ⟨hcondition, a, rfl⟩

variable {x count : Binary64}

/-- What is written with a count fails when the count is out of range. -/
theorem failsWhen_count? {ε γ : Type} (m : DigitMethod) {cause : ε} {result : Except ε γ}
    (hnone : m.count? count = none → result = .error cause)
    (hsome : ∀ places, m.count? count = some places → ∃ a, result = .ok a) :
    FailsWhen (¬ count.Within m.least m.greatest) cause result := by
  have hout := count?_eq_none_iff m count
  cases hcount : m.count? count with
  | none => exact .inl ⟨hout.mp hcount, hnone hcount⟩
  | some places =>
    rw [hcount] at hout
    exact .inr ⟨mt hout.mpr nofun, hsome places hcount⟩

/-- What is written for finite numbers only does not fail for the others. -/
theorem FailsWhen.ofFinite {ε γ : Type} {condition : Prop} {cause : ε} {result : Except ε γ}
    (h : FailsWhen condition cause result) (a : γ) :
    FailsWhen (x.isFinite = true ∧ condition) cause (if !x.isFinite then .ok a else result) := by
  cases x.isFinite with
  | false => exact .inr ⟨fun hout => Bool.noConfusion hout.1, a, rfl⟩
  | true => exact h.imp (.imp_left fun hcondition => ⟨rfl, hcondition⟩) (.imp_left (mt And.right))

theorem toFixed_failsWhen [Printer] :
    FailsWhen (¬ count.Within 0 20) ⟨.toFixed⟩ (x.toFixed count) := by
  unfold Binary64.toFixed
  refine failsWhen_count? .toFixed (fun hcount => by rw [hcount]) fun places hcount => ?_
  rw [hcount]
  dsimp only
  split
  · exact ⟨_, rfl⟩
  · split <;> exact ⟨_, rfl⟩

theorem toExponential_failsWhen [Printer] :
    FailsWhen (x.isFinite = true ∧ ¬ count.Within 0 20) ⟨.toExponential⟩
      (x.toExponential (some count)) := by
  unfold Binary64.toExponential
  dsimp only
  refine (failsWhen_count? .toExponential (fun hcount => ?_) fun places hcount => ?_).ofFinite _
  · rw [hcount]
  · exact ⟨_, by rw [hcount]⟩

theorem toPrecision_failsWhen [Printer] :
    FailsWhen (x.isFinite = true ∧ ¬ count.Within 1 21) ⟨.toPrecision⟩
      (x.toPrecision (some count)) := by
  unfold Binary64.toPrecision
  refine (failsWhen_count? .toPrecision (fun hcount => ?_) fun places hcount => ?_).ofFinite _
  · rw [hcount]
  · exact ⟨_, by rw [hcount]⟩

theorem radixText_failsWhen [Printer] :
    FailsWhen (¬ count.Within 2 36) Fault.radix (Builtin.radixText x count) := by
  have hwithin := @Binary64.within_iff count 2 36 (by decide) (by decide)
  unfold Builtin.radixText
  split
  · next h => exact .inr ⟨not_not_intro (hwithin.mp h), _, rfl⟩
  · next h => exact .inl ⟨mt hwithin.mpr h, rfl⟩

/-- There is no text for a given count exactly when it is out of range. -/
theorem text_failsWhen [Printer] (f : Formatting) (x count : Binary64) :
    FailsWhen (f.OutOfRange x count) f.countFault (f.text x (some count)) := by
  cases f with
  | inRadix =>
    rw [text, Option.getD_some]
    exact radixText_failsWhen
  | inDigits m =>
    cases m with
    | toFixed =>
      rw [text, Option.getD_some]
      exact toFixed_failsWhen.mapError Fault.digits
    | toExponential => exact toExponential_failsWhen.mapError Fault.digits
    | toPrecision => exact toPrecision_failsWhen.mapError Fault.digits

/-- Without a count there always is a text. -/
theorem exists_text_none [Printer] (f : Formatting) (x : Binary64) :
    ∃ s, f.text x none = .ok s := by
  cases f with
  | inRadix =>
    obtain ⟨hfinite, hvalue⟩ := Binary64.value_ofNat (n := 10) (by decide)
    have hten : (Binary64.ofNat 10).Within 2 36 := by
      refine ⟨hfinite, ?_, ?_⟩ <;> rw [hvalue] <;> norm_num
    rw [text, Option.getD_none]
    exact (radixText_failsWhen.resolve_left fun hno => hno.1 hten).2
  | inDigits m =>
    cases m with
    | toFixed =>
      have hzero : Binary64.zero.Within 0 20 := by
        rw [← Binary64.within_iff _ (by decide) (by decide)]
        decide +kernel
      rw [text, Option.getD_none]
      exact ((toFixed_failsWhen.mapError Fault.digits).resolve_left fun hno => hno.1 hzero).2
    | toExponential =>
      unfold text Binary64.toExponential
      cases x.isFinite <;> exact ⟨_, rfl⟩
    | toPrecision => exact ⟨_, rfl⟩

end Formatting

/-! ## The computations -/

namespace ScriptM

/-- A text as the value of a computation, or the error that is thrown instead. -/
def ofText [Printer] (text : Except Fault String) : ScriptM σ Value :=
  match text with
  | .ok s => pure (.ofText s)
  | .error why => raise why

/-- A computation that goes on with a result, and ends with what is thrown instead. -/
theorem complete_bind (m : ScriptM σ α) (k : α → ScriptM σ Value) :
    (m >>= k).complete = m.attempt >>= fun
      | .error thrown => pure (.thrown thrown)
      | .ok a => (k a).complete := by
  show Completion.ofResult <$> (m.attempt >>= ExceptT.bindCont k) = _
  rw [map_bind]
  refine bind_congr fun result => ?_
  cases result <;> rfl

end ScriptM

/-- The receiver is looked at first, and what follows needs its number. -/
theorem Builtin.numberReceiver_alike [Printer] (method : String) (k : Binary64 → ScriptM σ Value) :
    RealmM.Alike r (numberReceiver this method >>= k).complete
      (match r.boxed? this with
        | some (.number x) => (k x).complete
        | _ => RealmM.throwing (.wrongReceiver s!"Number.prototype.{method}" "a Number")) := by
  refine ((ScriptM.realm_bind_bind_alike r _ k).map Completion.ofResult).trans ?_
  rcases r.boxed? this with _ | (b | x | s) <;> exact .refl r _

namespace Formatting

/-- Converts the argument. -/
def reading [Printer] (f : Formatting) (v : Value) : ScriptM σ (Option Binary64) :=
  match f with
  | inDigits .toFixed => some <$> ScriptM.toInteger v
  | _ => Builtin.optionalInteger v

/-- What the method does with the number of its receiver. -/
def writing [Printer] (f : Formatting) (v : Value) (x : Binary64) : ScriptM σ Value := do
  ScriptM.ofText (f.text x (← f.reading v))

theorem rendered_eq [Printer] (text : Except DigitsOutOfRange String) :
    (Builtin.rendered text : ScriptM σ Value) = ScriptM.ofText (text.mapError .digits) := by
  cases text <;> rfl

/-- Each method looks at its receiver and then writes the number. -/
theorem perform_eq [Printer] (f : Formatting) (this : Value) (args : List Value) :
    (f.builtin.perform this args : RealmM σ Completion)
      = (Builtin.numberReceiver this f.builtin.name >>= f.writing (argument args 0)).complete := by
  cases f with
  | inRadix =>
    refine congrArg ScriptM.complete (bind_congr fun x => bind_congr fun count => ?_)
    rw [text]
    -- Which radix is the default does not matter, and comparing must not compute it.
    generalize count.getD (Binary64.ofNat 10) = radix
    unfold Builtin.radixCount? Builtin.radixText
    cases (Binary64.ofNat 2).atMost radix && radix.atMost (Binary64.ofNat 36) <;> rfl
  | inDigits m =>
    cases m with
    | toFixed =>
      refine congrArg ScriptM.complete (bind_congr fun x => ?_)
      refine Eq.trans ?_ (bind_map_left _ _ _).symm
      exact bind_congr fun count => rendered_eq _
    | toExponential =>
      exact congrArg ScriptM.complete (bind_congr fun x => bind_congr fun count => rendered_eq _)
    | toPrecision =>
      exact congrArg ScriptM.complete (bind_congr fun x => bind_congr fun count => rendered_eq _)

/-- Without a count nothing is converted. -/
theorem writing_undefined [Printer] (f : Formatting) (x : Binary64) :
    (f.writing .undefined x : ScriptM σ Value) = ScriptM.ofText (f.text x none) := by
  unfold writing
  cases f with
  | inRadix => exact pure_bind none _
  | inDigits m =>
    cases m with
    | toFixed => exact pure_bind (some Binary64.zero) _
    | toExponential | toPrecision => exact pure_bind none _

/-- A count is converted to a number and then truncated. -/
theorem reading_eq [Printer] (f : Formatting) {v : Value} (hv : v ≠ .undefined) :
    (f.reading v : ScriptM σ (Option Binary64))
      = (fun y => some y.toIntegerOrInfinity) <$> ScriptM.toNumber v := by
  have hoptional : (Builtin.optionalInteger v : ScriptM σ (Option Binary64))
      = some <$> ScriptM.toInteger v := by
    cases v with
    | undefined => exact absurd rfl hv
    | _ => rfl
  have hboth : (f.reading v : ScriptM σ (Option Binary64)) = some <$> ScriptM.toInteger v := by
    unfold reading
    split
    · rfl
    · exact hoptional
  rw [hboth, ScriptM.toInteger, Functor.map_map]

/-- What is done when the conversion has ended. -/
def finishing [Printer] (f : Formatting) (x : Binary64) :
    Except Value Binary64 → RealmM σ Completion
  | .error thrown => pure (.thrown thrown)
  | .ok y => (ScriptM.ofText (f.text x (some y.toIntegerOrInfinity))).complete

/-- A count is converted, and the rest follows. -/
theorem complete_writing [Printer] (f : Formatting) (x : Binary64) {v : Value}
    (hv : v ≠ .undefined) :
    (f.writing v x : ScriptM σ Value).complete
      = (ScriptM.toNumber v).attempt >>= f.finishing x := by
  rw [writing, reading_eq f hv, bind_map_left, ScriptM.complete_bind]
  refine bind_congr fun result => ?_
  cases result <;> rfl

end Formatting

/-! ## What happens in a call -/

/-- The receiver is a number, or an object of the class of numbers with a number in its
slot. -/
inductive Realm.HoldsNumber (r : Realm σ) : Value → Binary64 → Prop
  | plain (x : Binary64) : HoldsNumber r (.number x) x
  | boxed {h : Handle} {o : Object (Behavior σ)} {x : Binary64}
      (object : r.arena.get? h = some o) (tag : o.tag = .number)
      (slot : o.primitive = some (.number x)) : HoldsNumber r (.object h) x

theorem Realm.holdsNumber_iff {x : Binary64} :
    r.HoldsNumber this x ↔ r.boxed? this = some (.number x) := by
  constructor
  · rintro (_ | ⟨object, tag, slot⟩)
    · rfl
    · rw [boxed?, object, Option.bind_some, slot, tag]
      rfl
  · intro hboxed
    cases this with
    | number y =>
      cases hboxed
      exact .plain x
    | object h =>
      obtain ⟨o, object, hslot⟩ := Option.bind_eq_some_iff.mp hboxed
      obtain ⟨slot, tag⟩ := Option.filter_eq_some_iff.mp hslot
      exact .boxed object (beq_iff_eq.mp tag).symm slot
    | _ => cases hboxed

/-- A call of the function ends so, if it ends, and passes through the moments. -/
structure Behavior.Passes [Printer] (b : Behavior σ) (this : Value) (args : List Value) (n : Nat)
    (r : Realm σ) (ended : Option (Completion × Realm σ)) (ms : List (Moment σ)) : Prop where
  run : Behavior.run (n + 1) b this args r = ended
  moments : Behavior.moments (n + 1) b this args r = ms

/-- What follows the conversion of a count, which ends so and passes through the moments,
if it is a number that is written. -/
inductive Formatting.Follows [Printer] (f : Formatting) (x : Binary64) (ms : List (Moment σ)) :
    Option (Except Value Binary64 × Realm σ) → Option (Completion × Realm σ)
      → List (Moment σ) → Prop
  /-- There is no end. -/
  | endless : Follows f x ms none none ms
  /-- What has been thrown is thrown. -/
  | thrown (e : Value) (r : Realm σ) :
      Follows f x ms (some (.error e, r)) (some (.thrown e, r)) ms
  | written {y : Binary64} {s : String} (inRange : ¬ f.OutOfRange x y.toIntegerOrInfinity)
      (text : f.text x (some y.toIntegerOrInfinity) = .ok s) (r : Realm σ) :
      Follows f x ms (some (.ok y, r)) (some (.normal (.ofText s), r)) ms
  /-- A new error is thrown. -/
  | refused {y : Binary64} {h : Handle} {r r' : Realm σ}
      (outOfRange : f.OutOfRange x y.toIntegerOrInfinity)
      (gains : r.Gains f.countFault.toError h r') :
      Follows f x ms (some (.ok y, r)) (some (.thrown (.object h), r')) (ms ++ [⟨.written, r'⟩])

/-- What the method does in a realm. -/
structure Realm.Formats [Printer] (r : Realm σ) (f : Formatting) (this : Value)
    (args : List Value) :
    Prop where
  kinds : f.receiverFault.kind = .typeError ∧ f.countFault.kind = .rangeError
  /-- A receiver that has no number is refused at once. -/
  refused : (∀ x, ¬ r.HoldsNumber this x) → ∃ h r', r.Gains f.receiverFault.toError h r'
    ∧ ∀ n, (Behavior.builtin f.builtin).Passes this args n r (some (.thrown (.object h), r'))
      [⟨.written, r'⟩]
  /-- Without a count the text is written at once. -/
  plain : ∀ x, r.HoldsNumber this x → argument args 0 = .undefined →
    ∃ s, f.text x none = .ok s
      ∧ ∀ n, (Behavior.builtin f.builtin).Passes this args n r (some (.normal (.ofText s), r)) []
  /-- A count is converted, and then the number that the receiver had is written. -/
  counted : ∀ x, r.HoldsNumber this x → argument args 0 ≠ .undefined →
    ∀ n, ∃ ended ms, (Behavior.builtin f.builtin).Passes this args n r ended ms
      ∧ f.Follows x
        ((ScriptM.toNumber (argument args 0)).attempt.moments (Behavior.run n)
          (Behavior.moments n) r)
        ((ScriptM.toNumber (argument args 0)).attempt.run (Behavior.run n) r) ended ms

/-- A built-in function passes through what a computation does. -/
theorem Builtin.passes_of_alike [Printer] {b : Builtin} {m : RealmM σ Completion}
    (halike : RealmM.Alike r (b.perform this args) m) (n : Nat) :
    (Behavior.builtin b).Passes this args n r (m.run (Behavior.run n) r)
      (m.moments (Behavior.run n) (Behavior.moments n) r) :=
  ⟨halike.run _, halike.moments _ _⟩

namespace RealmM

theorem run_throwing [Printer] (why : Fault) (r : Realm σ) :
    (throwing why).run runner r = some (.thrown (.object r.arena.upcoming),
      { r with arena := (r.arena.allocate why.toError).2 }) := by
  rw [← Arena.allocate_fst r.arena why.toError]
  rfl

theorem moments_throwing [Printer] (why : Fault) (watch : Watch σ) (r : Realm σ) :
    (throwing why).moments runner watch r
      = [⟨.written, { r with arena := (r.arena.allocate why.toError).2 }⟩] :=
  rfl

end RealmM

namespace Formatting

/-- A receiver without a number is refused. -/
theorem perform_of_other [Printer] (f : Formatting) (hnone : ∀ x, ¬ r.HoldsNumber this x)
    (args : List Value) :
    RealmM.Alike r (f.builtin.perform this args) (RealmM.throwing f.receiverFault) := by
  rw [perform_eq]
  refine (Builtin.numberReceiver_alike _ _).trans ?_
  split
  · next x hboxed => exact absurd (Realm.holdsNumber_iff.mpr hboxed) (hnone x)
  · exact .refl r _

/-- The number of a receiver is written. -/
theorem perform_of_number [Printer] (f : Formatting) {x : Binary64} (hx : r.HoldsNumber this x)
    (args : List Value) :
    RealmM.Alike r (f.builtin.perform this args) (f.writing (argument args 0) x).complete := by
  rw [perform_eq]
  refine (Builtin.numberReceiver_alike _ _).trans ?_
  rw [Realm.holdsNumber_iff.mp hx]
  exact .refl r _

/-- What the end of a conversion leads to. -/
theorem follows_finishing [Printer] (f : Formatting) (x : Binary64) {n : Nat}
    {m : RealmM σ (Except Value Binary64)}
    (wf : ∀ result r', m.run (Behavior.run n) r = some (result, r') → r'.arena.WellFormed) :
    f.Follows x (m.moments (Behavior.run n) (Behavior.moments n) r) (m.run (Behavior.run n) r)
      ((m >>= f.finishing x).run (Behavior.run n) r)
      ((m >>= f.finishing x).moments (Behavior.run n) (Behavior.moments n) r) := by
  rw [RealmM.run_bind, RealmM.moments_bind]
  cases hrun : m.run (Behavior.run n) r with
  | none =>
    rw [Option.elim_none, List.append_nil]
    exact .endless
  | some ended =>
    obtain ⟨result, r'⟩ := ended
    rw [Option.bind_some, Option.elim_some]
    cases result with
    | error thrown =>
      show f.Follows x _ _ (some (.thrown thrown, r')) (_ ++ [])
      rw [List.append_nil]
      exact .thrown thrown r'
    | ok y =>
      obtain ⟨hout, hfault⟩ | ⟨hin, s, hs⟩ := f.text_failsWhen x y.toIntegerOrInfinity
      · have hthrows : f.finishing x (.ok y) = (RealmM.throwing f.countFault : RealmM σ _) := by
          rw [finishing, hfault]
          rfl
        rw [hthrows, RealmM.run_throwing, RealmM.moments_throwing]
        exact .refused hout (Realm.gains_allocate (wf _ _ hrun) _)
      · have hwrites : f.finishing x (.ok y) = (pure (.normal (.ofText s)) : RealmM σ _) := by
          rw [finishing, hs]
          rfl
        rw [hwrites]
        show f.Follows x _ _ (some (.normal (.ofText s), r')) (_ ++ [])
        rw [List.append_nil]
        exact .written hin hs r'

/-- What the method does in a realm whose records agree. -/
theorem formats [Printer] (f : Formatting) (wf : r.arena.WellFormed) (this : Value)
    (args : List Value) :
    r.Formats f this args where
  kinds := ⟨rfl, by cases f <;> rfl⟩
  refused hnone := by
    have hpasses := Builtin.passes_of_alike (f.perform_of_other hnone args)
    simp only [RealmM.run_throwing, RealmM.moments_throwing] at hpasses
    exact ⟨_, _, Realm.gains_allocate wf _, hpasses⟩
  plain x hx hundefined := by
    obtain ⟨s, hs⟩ := f.exists_text_none x
    have hpasses := Builtin.passes_of_alike (f.perform_of_number hx args)
    rw [hundefined, writing_undefined, hs] at hpasses
    exact ⟨s, hs, hpasses⟩
  counted x hx hv n := by
    have hpasses := Builtin.passes_of_alike (f.perform_of_number hx args) n
    rw [f.complete_writing x hv] at hpasses
    refine ⟨_, _, hpasses, f.follows_finishing x fun result r' hrun => ?_⟩
    exact ((RealmM.Slotwise.request (.toNumber (argument args 0))).keepsStep n wf).2 result r' hrun

end Formatting

/-! ## In every run -/

/-- At every moment of every program the four methods are the functions that the realm
began with, and each does to any receiver and arguments what it is to do. -/
theorem Program.formatting_exact [Printer] {strict : Bool} {host : σ} {p : Program σ}
    {allowance : Nat}
    {m : Moment σ} (hm : m ∈ p.history allowance (Realm.fresh strict host)) (f : Formatting)
    (this : Value) (args : List Value) :
    m.realm.callable? (Intrinsic.function f.builtin).toValue = some f.builtin.callable
      ∧ m.realm.Formats f this args := by
  obtain ⟨w, hw, hrealm⟩ :=
    Program.history_sound (p.obeys_free Handle.Intrinsic) (fun _ hh => hh.elim) hm
  refine ⟨?_, f.formats (hrealm ▸ hw.arena) this args⟩
  cases f with
  | inRadix => exact Program.history_callable (Intrinsic.function_mem (by decide)) rfl hm
  | inDigits digits =>
    cases digits <;> exact Program.history_callable (Intrinsic.function_mem (by decide)) rfl hm

/-- In a fresh realm `toFixed` refuses to write NaN with twenty-two places, but
`toPrecision` writes it. -/
theorem Program.formatting_exact_nan :
    (∃ h r', (Realm.fresh false ()).Gains (Fault.digits ⟨.toFixed⟩).toError h r'
        ∧ (Behavior.builtin .numberToFixed).Passes (.number .nan) [.number (.ofNat 22)] 0
          (Realm.fresh false ()) (some (.thrown (.object h), r')) [⟨.written, r'⟩])
      ∧ (Behavior.builtin .numberToPrecision).Passes (.number .nan) [.number (.ofNat 22)] 0
          (Realm.fresh false ()) (some (.normal (.ofText "NaN"), Realm.fresh false ())) [] := by
  have hstart := (Program.finish (.normal .undefined)).begun_mem_history 0 (Realm.fresh false ())
  obtain ⟨-, hfixed⟩ := Program.formatting_exact hstart (.inDigits .toFixed) (.number .nan)
    [.number (.ofNat 22)]
  obtain ⟨-, hprecision⟩ := Program.formatting_exact hstart (.inDigits .toPrecision) (.number .nan)
    [.number (.ofNat 22)]
  have hout : ¬ (Binary64.ofNat 22).toIntegerOrInfinity.Within 0 20 := by
    rw [← Binary64.within_iff _ (by decide) (by decide)]
    decide +kernel
  generalize Binary64.ofNat 22 = count at *
  have hrun : (ScriptM.toNumber (argument [.number count] 0)).attempt.run (Behavior.run 0)
      (Realm.fresh false ()) = some (.ok count, Realm.fresh false ()) := rfl
  constructor
  · obtain ⟨ended, ms, hpasses, hfollows⟩ := hfixed.counted _ (.plain _) nofun 0
    rw [hrun] at hfollows
    cases hfollows with
    | written hin => exact absurd hout hin
    | refused _ hgains => exact ⟨_, _, hgains, hpasses⟩
  · obtain ⟨ended, ms, hpasses, hfollows⟩ := hprecision.counted _ (.plain _) nofun 0
    rw [hrun] at hfollows
    cases hfollows with
    | written _ hs =>
      cases hs
      exact hpasses
    | refused hfinite => exact absurd hfinite.1 (by decide)

end ScriptRealm
