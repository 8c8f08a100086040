import ScriptRealm.Proofs.Formatting
import ScriptRealm.Proofs.Number.Truncation

/-!
# Counts — the integers that the number methods are given

The methods of numbers that take a count are given an integer and not the argument: the
argument is converted to a number, and the number to the integer that it stands for
(`Formatting.HandsOn.exists_number`). Only a negative fraction is converted to something
else, the negative zero, and then the method is given that.

Nothing comes of it. A method compares its count and takes its whole part, and in both the
two zeros are alike (`Formatting.text_of_equal`). So the text that a method writes, or the
error that it throws, always is the one for the integer that the argument stands for.
`Formatting.counts_normalized_iff` puts this together.
-/

namespace ScriptRealm

variable {σ : Type}

namespace Formatting

/-- Counts that are numerically equal are written alike. -/
theorem text_of_equal [Printer] (f : Formatting) (x : Binary64) {c d : Binary64}
    (h : c.equal d = true) :
    f.text x (some c) = f.text x (some d) := by
  obtain ⟨hc, hd, rfl | ⟨hczero, hdzero⟩⟩ := Binary64.equal_iff.mp h
  · rfl
  · -- Comparing looks at the place on the line, which the zeros share.
    have hposition : c.position = d.position := Binary64.position_eq_iff.mpr (.inr ⟨hczero, hdzero⟩)
    have habove : ∀ a : Binary64, a.atMost c = a.atMost d := fun a => by
      rw [Binary64.atMost, Binary64.atMost, hc, hd, hposition]
    have hbelow : ∀ a : Binary64, c.atMost a = d.atMost a := fun a => by
      rw [Binary64.atMost, Binary64.atMost, hc, hd, hposition]
    have hwhole : c.wholePart = d.wholePart := by
      rw [Binary64.wholePart, Binary64.wholePart, (Binary64.quanta_eq_zero_iff c).mpr hczero,
        (Binary64.quanta_eq_zero_iff d).mpr hdzero]
    cases f with
    | inRadix =>
      simp only [text, Option.getD_some, Builtin.radixText, habove, hbelow, hwhole]
    | inDigits m =>
      have hcount : ∀ m : DigitMethod, m.count? c = m.count? d := fun m => by
        rw [DigitMethod.count?, DigitMethod.count?, habove, hbelow, hwhole]
      cases m with
      | toFixed =>
        have hfixed : x.toFixed c = x.toFixed d := by
          unfold Binary64.toFixed
          rw [hcount]
        rw [text, text, Option.getD_some, Option.getD_some, hfixed]
      | toExponential => simp only [text, Binary64.toExponential, hcount]
      | toPrecision => simp only [text, Binary64.toPrecision, hcount]

/-- A call of the method in the realm `r`, whose receiver has the number `x`, converts its
argument to the count and goes on with both in the realm `r'`. -/
structure HandsOn [Printer] (f : Formatting) (r : Realm σ) (this : Value) (args : List Value)
    (n : Nat) (x count : Binary64) (r' : Realm σ) : Prop where
  receiver : r.HoldsNumber this x
  reading : (f.reading (argument args 0)).attempt.run (Behavior.run n) r
    = some (.ok (some count), r')

/-- An argument is no count, or it is converted to a number and then to an integer. -/
theorem reading_cases [Printer] (f : Formatting) (v : Value) :
    (f.reading v : ScriptM σ (Option Binary64)) = pure none
      ∨ (f.reading v : ScriptM σ (Option Binary64))
        = (fun y => some y.toIntegerOrInfinity) <$> ScriptM.toNumber v := by
  by_cases hv : v = .undefined
  · -- Only `toFixed` converts an argument that is left out, and has the zero of NaN from it.
    subst hv
    cases f with
    | inRadix => exact .inl rfl
    | inDigits m =>
      cases m with
      | toFixed => exact .inr (Functor.map_map _ _ _)
      | toExponential | toPrecision => exact .inl rfl
  · exact .inr (f.reading_eq hv)

variable {f : Formatting} {r r' : Realm σ} {this : Value} {args : List Value} {n : Nat}
  {x count : Binary64}

/-- The count comes from the number that the argument is converted to. -/
theorem HandsOn.exists_number [Printer] (h : f.HandsOn r this args n x count r') :
    ∃ y, (ScriptM.toNumber (argument args 0)).attempt.run (Behavior.run n) r = some (.ok y, r')
      ∧ count = y.toIntegerOrInfinity := by
  have hreading := h.reading
  rcases f.reading_cases (argument args 0) with hnone | hsome
  · rw [hnone] at hreading
    cases hreading
  · rw [hsome, ScriptM.run_map] at hreading
    obtain ⟨⟨result, r₁⟩, hrun, hended⟩ := Option.map_eq_some_iff.mp hreading
    cases result with
    | error thrown => cases hended
    | ok y =>
      cases hended
      exact ⟨y, hrun, rfl⟩

/-- What is left of the call is the text with the count. -/
theorem HandsOn.run [Printer] (h : f.HandsOn r this args n x count r') :
    Behavior.run (n + 1) (.builtin f.builtin) this args r
      = (ScriptM.ofText (f.text x (some count))).complete.run (Behavior.run n) r' := by
  rw [(Builtin.passes_of_alike (f.perform_of_number h.receiver args) n).run, writing,
    ScriptM.complete_bind, RealmM.run_bind, h.reading]
  rfl

/-- A number is converted to the integer that it stands for, and this to itself, unless it
is a negative fraction, which is converted to the negative zero. The count that a method
is given is what its argument's number is converted to, and the method ends with it as it
does with the integer that the number stands for. -/
theorem counts_normalized_iff [Printer] :
    (∀ x : Binary64,
      (x.StandsFor x.toIntegerOrInfinity ↔ ¬ x.NegativeFraction)
        ∧ (x.toIntegerOrInfinity = .negativeZero ↔ x.NegativeFraction)
        ∧ (x.toIntegerOrInfinity.toIntegerOrInfinity.sameValue x.toIntegerOrInfinity = true
          ↔ ¬ x.NegativeFraction))
      ∧ ∀ (f : Formatting) (r r' : Realm σ) (this : Value) (args : List Value) (n : Nat)
          (x count : Binary64), f.HandsOn r this args n x count r' →
        ∃ y, (ScriptM.toNumber (argument args 0)).attempt.run (Behavior.run n) r
              = some (.ok y, r')
          ∧ (y.StandsFor count ↔ ¬ y.NegativeFraction)
          ∧ (count = .negativeZero ↔ y.NegativeFraction)
          ∧ ∃ z, y.StandsFor z ∧ f.text x (some count) = f.text x (some z)
            ∧ Behavior.run (n + 1) (.builtin f.builtin) this args r
              = (ScriptM.ofText (f.text x (some z))).complete.run (Behavior.run n) r' := by
  refine ⟨fun x => ⟨x.standsFor_toIntegerOrInfinity_iff,
    Binary64.toIntegerOrInfinity_eq_negativeZero_iff, x.toIntegerOrInfinity_again_iff⟩, ?_⟩
  intro f r r' this args n x count h
  obtain ⟨y, hnumber, rfl⟩ := h.exists_number
  obtain ⟨z, hstands, hequal⟩ := y.exists_standsFor
  have htext := f.text_of_equal x hequal
  refine ⟨y, hnumber, y.standsFor_toIntegerOrInfinity_iff,
    Binary64.toIntegerOrInfinity_eq_negativeZero_iff, z, hstands, htext, ?_⟩
  rw [h.run, htext]

/-- Two and a half stand for two. Given minus one half, `toFixed` goes on with the negative
zero, and writes one and a half as it does with no places. -/
theorem counts_normalized_iff_half :
    Binary64.StandsFor ⟨0x4004000000000000⟩ ⟨0x4000000000000000⟩
      ∧ Binary64.NegativeFraction ⟨0xbfe0000000000000⟩
      ∧ (inDigits .toFixed).HandsOn (Realm.fresh false ()) (.number ⟨0x3ff8000000000000⟩)
        [.number ⟨0xbfe0000000000000⟩] 0 ⟨0x3ff8000000000000⟩ .negativeZero
        (Realm.fresh false ())
      ∧ ¬ Binary64.StandsFor ⟨0xbfe0000000000000⟩ .negativeZero
      ∧ Behavior.run 1 (.builtin .numberToFixed) (.number ⟨0x3ff8000000000000⟩)
          [.number ⟨0xbfe0000000000000⟩] (Realm.fresh false ())
        = some (.normal (.ofText "2"), Realm.fresh false ()) := by
  obtain ⟨hconverts, hcalls⟩ := counts_normalized_iff (σ := Unit)
  obtain ⟨hstands, -, -⟩ := hconverts ⟨0x4004000000000000⟩
  obtain ⟨hmissed, hsigned, -⟩ := hconverts ⟨0xbfe0000000000000⟩
  have htwo : Binary64.toIntegerOrInfinity ⟨0x4004000000000000⟩ = ⟨0x4000000000000000⟩ := by
    decide +kernel
  have hpositive : ¬ Binary64.NegativeFraction ⟨0x4004000000000000⟩ := by
    rw [Binary64.negativeFraction_iff]
    exact fun h => absurd h.2.1.1 (by decide)
  have hhalf : Binary64.NegativeFraction ⟨0xbfe0000000000000⟩ := by
    rw [Binary64.negativeFraction_iff, ← Binary64.wholePart_eq_zero_iff]
    decide +kernel
  have hcount := hsigned.mpr hhalf
  rw [hcount] at hmissed
  have hhands : (inDigits .toFixed).HandsOn (Realm.fresh false ()) (.number ⟨0x3ff8000000000000⟩)
      [.number ⟨0xbfe0000000000000⟩] 0 ⟨0x3ff8000000000000⟩ .negativeZero
      (Realm.fresh false ()) := by
    refine ⟨.plain _, ?_⟩
    rw [← hcount]
    rfl
  have htext : (inDigits .toFixed).text ⟨0x3ff8000000000000⟩ (some .negativeZero) = .ok "2" := by
    have hfixed : Binary64.toFixed ⟨0x3ff8000000000000⟩ .negativeZero = .ok "2" := by
      decide +kernel
    rw [text, Option.getD_some, hfixed]
    rfl
  obtain ⟨y, -, -, -, z, -, hsame, hrun⟩ := hcalls _ _ _ _ _ _ _ _ hhands
  rw [← hsame, htext] at hrun
  exact ⟨htwo ▸ hstands.mpr hpositive, hhalf, hhands, fun h => hmissed.mp h hhalf, hrun⟩

end Formatting

end ScriptRealm
