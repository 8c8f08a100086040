import ScriptRealm.Number.Shortest
import ScriptRealm.Proofs.Runs

/-!
# Loose equality — one conversion, and the sides do not matter

The language defines loose equality by recursion (IsLooselyEqual): one look at the
two values answers, or turns one of them into a number, or has the one that is an
object converted, and then the values are looked at again. The left value goes before
the right. `LooseStep.next` is one such look, and `ScriptM.comparing` the recursion,
with an allowance of steps and one of conversions; it answers nothing when it needs
more.

The realm compares without recursion. That is the same computation as the recursion
with three steps and one conversion (`ScriptM.comparing_eq`), though the recursion
treats the sides in turn and the realm does not. A computation is a tree that shows
every read, every write and every function that is entered: two that are equal do the
same in every realm, and one that is a leaf does nothing.
-/

namespace ScriptRealm

/-- What one look at two values comes to. -/
inductive LooseStep where
  /-- They are equal, or they are not. -/
  | answered (equal : Bool)
  /-- Other values are to be compared. -/
  | onward (a b : Value)
  /-- The left value is an object, to be converted. -/
  | convertLeft
  /-- The right value is an object, to be converted. -/
  | convertRight

/-- One look at two values. -/
def LooseStep.next (a b : Value) : LooseStep :=
  match a, b with
  | .undefined, .undefined | .null, .null | .boolean _, .boolean _ | .number _, .number _
  | .string _, .string _ | .object _, .object _ => answered (a.strictEquals b)
  | .undefined, .null | .null, .undefined => answered true
  | .number _, .string _ => onward a (.number b.toNumber)
  | .string _, .number _ => onward (.number a.toNumber) b
  | .boolean _, _ => onward (.number a.toNumber) b
  | _, .boolean _ => onward a (.number b.toNumber)
  | .object _, .string _ | .object _, .number _ => convertLeft
  | .string _, .object _ | .number _, .object _ => convertRight
  | _, _ => answered false

/-- The same look with the sides exchanged. -/
def LooseStep.mirror : LooseStep → LooseStep
  | answered equal => answered equal
  | onward a b => onward b a
  | convertLeft => convertRight
  | convertRight => convertLeft

theorem Binary64.equal_comm (x y : Binary64) : x.equal y = y.equal x := by
  rw [equal, equal, Bool.and_comm (!x.isNaN), BEq.comm]

namespace Value

theorem strictEquals_comm (a b : Value) : a.strictEquals b = b.strictEquals a := by
  cases a with
  | undefined | null => cases b <;> rfl
  | boolean | string | object =>
    cases b with
    | boolean | string | object => first | exact BEq.comm | rfl
    | undefined | null | number => rfl
  | number x =>
    cases b with
    | number y => exact x.equal_comm y
    | undefined | null | boolean | string | object => rfl

/-- Two booleans are equal when their numbers are. -/
theorem toNumber_equal_boolean (b c : Bool) :
    (boolean b).toNumber.equal (boolean c).toNumber = (b == c) := by
  cases b <;> cases c <;> decide +kernel

end Value

/-- The sides exchanged, one sees the same. -/
theorem LooseStep.next_comm (a b : Value) : next b a = (next a b).mirror := by
  have hanswered : answered (b.strictEquals a) = answered (a.strictEquals b) :=
    congrArg answered (b.strictEquals_comm a)
  cases a <;> cases b <;> first | rfl | exact hanswered

namespace ScriptM

variable {σ α : Type}

/-- Loose equality as the language defines it. -/
def comparing [Printer] (steps conversions : Nat) (a b : Value) : ScriptM σ (Option Bool) :=
  match LooseStep.next a b, steps, conversions with
  | .answered equal, _, _ => pure (some equal)
  | .onward a b, steps + 1, conversions => comparing steps conversions a b
  | .convertLeft, steps + 1, conversions + 1 => do
    comparing steps conversions (← toPrimitive a .unspecified) b
  | .convertRight, steps + 1, conversions + 1 => do
    comparing steps conversions a (← toPrimitive b .unspecified)
  | _, _, _ => pure none
termination_by structural steps

theorem comparing_of_answered [Printer] {a b : Value} {equal : Bool}
    (h : LooseStep.next a b = .answered equal) (steps conversions : Nat) :
    (comparing steps conversions a b : ScriptM σ _) = pure (some equal) := by
  unfold comparing
  rw [h]

/-- The recursion is the same with the sides exchanged, whatever is allowed. -/
theorem comparing_comm [Printer] (steps conversions : Nat) (a b : Value) :
    (comparing steps conversions a b : ScriptM σ _) = comparing steps conversions b a := by
  induction steps generalizing conversions a b with
  | zero =>
    unfold comparing
    rw [LooseStep.next_comm a b]
    cases LooseStep.next a b <;> rfl
  | succ steps ih =>
    unfold comparing
    rw [LooseStep.next_comm a b]
    cases LooseStep.next a b with
    | answered => rfl
    | onward a' b' => exact ih conversions a' b'
    | convertLeft =>
      cases conversions with
      | zero => rfl
      | succ conversions => exact bind_congr fun p => ih conversions p b
    | convertRight =>
      cases conversions with
      | zero => rfl
      | succ conversions => exact bind_congr fun p => ih conversions a p

/-! ## Primitives -/

theorem loosePrimitives_comm (a b : Value) : loosePrimitives a b = loosePrimitives b a := by
  cases a with
  | undefined | null => cases b <;> rfl
  | string s =>
    cases b with
    | undefined | null => rfl
    | string t => exact BEq.comm
    | boolean | number | object => exact Binary64.equal_comm _ _
  | boolean | number | object =>
    cases b with
    | undefined | null => rfl
    | boolean | number | string | object => exact Binary64.equal_comm _ _

/-- A primitive and a number need one step. -/
theorem comparing_number [Printer] (steps conversions : Nat) {a : Value} (ha : a.isObject = false)
    (y : Binary64) :
    (comparing (steps + 1) conversions a (.number y) : ScriptM σ _)
      = pure (some (loosePrimitives a (.number y))) := by
  cases a with
  | object h => cases ha
  | undefined | null | number => rfl
  | boolean | string => exact comparing_of_answered rfl steps conversions

/-- A primitive and a boolean need two steps. -/
theorem comparing_boolean [Printer] (steps conversions : Nat) {a : Value} (ha : a.isObject = false)
    (c : Bool) :
    (comparing (steps + 2) conversions a (.boolean c) : ScriptM σ _)
      = pure (some (loosePrimitives a (.boolean c))) := by
  cases a with
  | object h => cases ha
  | undefined | null => rfl
  | boolean d => exact congrArg (pure <| some ·) (Value.toNumber_equal_boolean d c).symm
  | number | string => exact comparing_number steps conversions rfl _

/-- Two primitives need two steps. -/
theorem comparing_primitives [Printer] (steps conversions : Nat) {a b : Value}
    (ha : a.isObject = false) (hb : b.isObject = false) :
    (comparing (steps + 2) conversions a b : ScriptM σ _)
      = pure (some (loosePrimitives a b)) := by
  cases b with
  | object h => cases hb
  | number y => exact comparing_number (steps + 1) conversions ha y
  | boolean c => exact comparing_boolean steps conversions ha c
  | undefined | null | string =>
    cases a with
    | object h => cases ha
    | boolean d =>
      rw [comparing_comm, loosePrimitives_comm]
      exact comparing_boolean steps conversions rfl d
    | undefined | null | number | string => rfl

/-! ## Objects -/

/-- A conversion by methods gives a primitive, so what follows only matters there. -/
theorem convertBy_bind_congr [Printer] (o : Handle) (names : List String)
    {k k' : Value → ScriptM σ α} (h : ∀ p, p.isObject = false → k p = k' p) :
    convertBy o names >>= k = convertBy o names >>= k' := by
  induction names with
  | nil => rfl
  | cons name others ih =>
    simp only [convertBy, bind_assoc]
    refine bind_congr fun method => bind_congr fun r => ?_
    split
    · simp only [bind_assoc]
      refine bind_congr fun v => ?_
      split
      · exact ih
      · next hv =>
        rw [pure_bind, pure_bind]
        exact h v (Bool.eq_false_iff.mpr hv)
    · exact ih

/-- An object compared with a primitive by the recursion. -/
theorem comparing_object [Printer] (o : Handle) {b : Value} (hb : b.isObject = false) :
    (comparing 3 1 (.object o) b : ScriptM σ _) = some <$> looselyEquals (.object o) b := by
  have hmap : ∀ q, (some <$> (do pure (loosePrimitives (← toPrimitive (.object o) .unspecified) q))
      : ScriptM σ (Option Bool))
      = (toPrimitive (.object o) .unspecified >>= fun p => pure (some (loosePrimitives p q))) := by
    intro q
    rw [map_bind]
    rfl
  cases b with
  | object h => cases hb
  | undefined | null => rfl
  | boolean c =>
    refine Eq.trans ?_ (hmap (.boolean c)).symm
    refine convertBy_bind_congr o _ fun p hp => ?_
    rw [comparing_number 0 0 hp]
    cases p <;> rfl
  | number | string =>
    refine Eq.trans ?_ (hmap _).symm
    exact convertBy_bind_congr o _ fun p hp => comparing_primitives 0 0 hp hb

theorem looselyEquals_comm [Printer] (a b : Value) :
    (looselyEquals a b : ScriptM σ Bool) = looselyEquals b a := by
  unfold looselyEquals
  cases a.handle? <;> cases b.handle?
  · exact congrArg pure (loosePrimitives_comm a b)
  · simp only [loosePrimitives_comm a]
  · simp only [loosePrimitives_comm b]
  · exact congrArg pure BEq.comm

/-- The realm compares as the recursion does, which needs at most three steps and one
conversion. -/
theorem comparing_eq [Printer] (a b : Value) :
    (comparing 3 1 a b : ScriptM σ _) = some <$> looselyEquals a b := by
  cases ha : a.isObject with
  | false =>
    cases hb : b.isObject with
    | false =>
      rw [comparing_primitives 1 1 ha hb]
      cases a with
      | object h => cases ha
      | undefined | null | boolean | number | string =>
        cases b with
        | object h => cases hb
        | undefined | null | boolean | number | string => rfl
    | true =>
      cases b with
      | object h => rw [comparing_comm, looselyEquals_comm, comparing_object h ha]
      | undefined | null | boolean | number | string => cases hb
  | true =>
    cases a with
    | object g =>
      cases b with
      | object h => rfl
      | undefined | null | boolean | number | string => exact comparing_object g rfl
    | undefined | null | boolean | number | string => cases ha

/-- Loose equality answers at once, or asks for one conversion and looks at what that
gives. -/
theorem looselyEquals_shape [Printer] (a b : Value) :
    (∃ answer, (looselyEquals a b : ScriptM σ Bool) = pure answer)
      ∨ ∃ o test, (a = .object o ∨ b = .object o)
        ∧ (looselyEquals a b : ScriptM σ Bool)
          = test <$> toPrimitive (.object o) .unspecified := by
  cases a with
  | object g =>
    cases b with
    | undefined | null | object => exact .inl ⟨_, rfl⟩
    | boolean | number | string =>
      exact .inr ⟨g, (loosePrimitives · _), .inl rfl, bind_pure_comp _ _⟩
  | undefined | null =>
    cases b <;> exact .inl ⟨_, rfl⟩
  | boolean | number | string =>
    cases b with
    | object h => exact .inr ⟨h, loosePrimitives _, .inr rfl, bind_pure_comp _ _⟩
    | undefined | null | boolean | number | string => exact .inl ⟨_, rfl⟩

/-- Values that are equal without conversion are loosely equal at once. -/
theorem looselyEquals_of_strictEquals [Printer] {a b : Value} (h : a.strictEquals b = true) :
    (looselyEquals a b : ScriptM σ Bool) = pure true := by
  cases a <;> cases b <;> try cases h
  · rfl
  · rfl
  · exact congrArg pure ((Value.toNumber_equal_boolean _ _).trans h)
  · exact congrArg pure h
  · exact congrArg pure h
  · exact congrArg pure h

/-- Loose equality is the same computation with the sides exchanged, and it is the
recursion of the language, which here needs at most three steps and one conversion. It
has an end where it answers at once and where the conversion it asks for has one; and
values that are equal without conversion are loosely equal at once. -/
theorem looselyEquals_symmetric [Printer] (a b : Value) :
    (looselyEquals a b : ScriptM σ Bool) = looselyEquals b a
      ∧ (comparing 3 1 a b : ScriptM σ (Option Bool)) = some <$> looselyEquals a b
      ∧ ((∃ answer, (looselyEquals a b : ScriptM σ Bool) = pure answer)
        ∨ ∃ o test, (a = .object o ∨ b = .object o)
          ∧ (looselyEquals a b : ScriptM σ Bool) = test <$> toPrimitive (.object o) .unspecified
          ∧ ∀ (runner : Runner σ) (r : Realm σ),
            ((looselyEquals a b).attempt.run runner r).isSome
              = ((toPrimitive (.object o) .unspecified).attempt.run runner r).isSome)
      ∧ (a.strictEquals b = true → (looselyEquals a b : ScriptM σ Bool) = pure true) := by
  refine ⟨looselyEquals_comm a b, comparing_eq a b, ?_, looselyEquals_of_strictEquals⟩
  refine (looselyEquals_shape a b).imp_right ?_
  rintro ⟨o, test, hside, hshape⟩
  refine ⟨o, test, hside, hshape, fun runner r => ?_⟩
  rw [hshape, run_map, Option.isSome_map]

/-- A string that does not convert is loosely equal to itself. -/
theorem looselyEquals_symmetric_text :
    (Value.ofText "x").strictEquals (.ofText "x") = true
      ∧ (looselyEquals (.ofText "x") (.ofText "x") : ScriptM Unit Bool) = pure true :=
  ⟨by decide, (looselyEquals_symmetric (.ofText "x") (.ofText "x")).2.2.2 (by decide)⟩

end ScriptM

end ScriptRealm
