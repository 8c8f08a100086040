import ScriptRealm.Value
import ScriptRealm.Proofs.Number.Reading

/-!
# Sameness — four comparisons that line up

Values are compared in four ways, each written on its own: by what is stored
(`Value.identical`), by `sameValue`, by `sameValueZero` and by `strictEquals`. A
sameness is equality once every number is in a normal form. `canonical` leaves one
NaN, and `sameValue` is equality after it (`Value.sameValue_iff_canonical`).
`unsigned` also leaves one zero, and `sameValueZero` is equality after that
(`Value.sameValueZero_iff_unsigned`). So both are equivalences, and the second is the
coarser. Strict equality is the second without NaN, and what is stored is compared by
the first.

A property that cannot be written is guarded by the comparison of what is stored
(`Descriptor.keeps`). That it is `sameValue` means that no change of the sign of a
zero gets through.
-/

namespace ScriptRealm

namespace Binary64

/-- The number with the one NaN that operations answer in the place of any. -/
def canonical (x : Binary64) : Binary64 := if x.isNaN then nan else x

/-- The canonical number with the positive zero in the place of both zeros. -/
def unsigned (x : Binary64) : Binary64 := if x.isZero then zero else x.canonical

theorem eq_of_magnitude {x y : Binary64} (hsign : x.isNegative = y.isNegative)
    (hmagnitude : x.magnitude = y.magnitude) : x = y := by
  rw [← ofMagnitude_magnitude x, ← ofMagnitude_magnitude y, hsign, hmagnitude]

theorem isNaN_of_isZero {x : Binary64} (h : x.isZero = true) : x.isNaN = false := by
  have hmagnitude : x.magnitude = 0 := beq_iff_eq.mp h
  unfold isNaN
  rw [hmagnitude]
  decide

theorem isZero_of_isNaN {x : Binary64} (h : x.isNaN = true) : x.isZero = false :=
  Bool.eq_false_iff.mpr fun hzero => by
    rw [isNaN_of_isZero hzero] at h
    cases h

/-- Only the zeros share a place on the line. -/
theorem position_eq_iff {x y : Binary64} :
    x.position = y.position ↔ x = y ∨ (x.isZero = true ∧ y.isZero = true) := by
  simp only [isZero, beq_iff_eq]
  constructor
  · intro h
    unfold position at h
    cases hx : x.isNegative <;> cases hy : y.isNegative <;>
      simp only [hx, hy, if_true, Bool.false_eq_true, if_false] at h
    · exact .inl (eq_of_magnitude (hx.trans hy.symm) (by omega))
    · exact .inr (by omega)
    · exact .inr (by omega)
    · exact .inl (eq_of_magnitude (hx.trans hy.symm) (by omega))
  · rintro (rfl | ⟨hx, hy⟩)
    · rfl
    · simp [position, hx, hy]

theorem equal_iff {x y : Binary64} :
    x.equal y = true ↔
      x.isNaN = false ∧ y.isNaN = false ∧ (x = y ∨ (x.isZero = true ∧ y.isZero = true)) := by
  simp only [equal, Bool.and_eq_true, Bool.not_eq_true', beq_iff_eq, position_eq_iff, and_assoc]

theorem sameValue_iff {x y : Binary64} :
    x.sameValue y = true ↔ x = y ∨ (x.isNaN = true ∧ y.isNaN = true) := by
  unfold sameValue
  split
  · next hnan =>
    rw [Bool.and_eq_true] at hnan
    exact iff_of_true rfl (.inr hnan)
  · next hnan =>
    rw [Bool.and_eq_true] at hnan
    rw [or_iff_left hnan]
    split
    · next hzero =>
      -- Two zeros differ in nothing but the sign.
      rw [Bool.and_eq_true, isZero, isZero, beq_iff_eq, beq_iff_eq] at hzero
      rw [beq_iff_eq]
      exact ⟨fun hsign => eq_of_magnitude hsign (hzero.1.trans hzero.2.symm), fun h => h ▸ rfl⟩
    · next hzero =>
      rw [Bool.and_eq_true] at hzero
      rw [equal_iff, or_iff_left hzero]
      refine ⟨fun h => h.2.2, ?_⟩
      rintro rfl
      rw [and_self, Bool.not_eq_true] at hnan
      exact ⟨hnan, hnan, rfl⟩

theorem sameValueZero_iff {x y : Binary64} :
    x.sameValueZero y = true ↔
      x = y ∨ (x.isNaN = true ∧ y.isNaN = true) ∨ (x.isZero = true ∧ y.isZero = true) := by
  rw [sameValueZero, Bool.or_eq_true, Bool.and_eq_true, equal_iff]
  constructor
  · rintro (hnan | ⟨-, -, rfl | hzero⟩)
    · exact .inr (.inl hnan)
    · exact .inl rfl
    · exact .inr (.inr hzero)
  · rintro (rfl | hnan | hzero)
    · cases hnan : x.isNaN with
      | false => exact .inr ⟨rfl, rfl, .inl rfl⟩
      | true => exact .inl ⟨rfl, rfl⟩
    · exact .inl hnan
    · exact .inr ⟨isNaN_of_isZero hzero.1, isNaN_of_isZero hzero.2, .inr hzero⟩

/-! ## Normal forms -/

theorem isNaN_canonical (x : Binary64) : x.canonical.isNaN = x.isNaN := by
  unfold canonical
  split
  · next hnan => exact (by decide : nan.isNaN = true).trans hnan.symm
  · rfl

theorem isZero_unsigned (x : Binary64) : x.unsigned.isZero = x.isZero := by
  unfold unsigned
  split
  · next hzero => exact (by decide : zero.isZero = true).trans hzero.symm
  · next hzero =>
    unfold canonical
    split
    · next hnan => exact (by decide : nan.isZero = false).trans (isZero_of_isNaN hnan).symm
    · rfl

theorem canonical_eq_iff {x y : Binary64} :
    x.canonical = y.canonical ↔ x = y ∨ (x.isNaN = true ∧ y.isNaN = true) := by
  constructor
  · intro h
    have hsame : x.isNaN = y.isNaN := by rw [← isNaN_canonical x, h, isNaN_canonical]
    cases hnan : y.isNaN with
    | true => exact .inr ⟨hsame.trans hnan, rfl⟩
    | false =>
      unfold canonical at h
      rw [hsame, hnan] at h
      exact .inl h
  · rintro (rfl | ⟨hx, hy⟩)
    · rfl
    · rw [canonical, canonical, if_pos hx, if_pos hy]

theorem unsigned_eq_iff {x y : Binary64} :
    x.unsigned = y.unsigned ↔
      x = y ∨ (x.isNaN = true ∧ y.isNaN = true) ∨ (x.isZero = true ∧ y.isZero = true) := by
  constructor
  · intro h
    have hsame : x.isZero = y.isZero := by rw [← isZero_unsigned x, h, isZero_unsigned]
    cases hzero : y.isZero with
    | true => exact .inr (.inr ⟨hsame.trans hzero, rfl⟩)
    | false =>
      unfold unsigned at h
      rw [hsame, hzero] at h
      exact (canonical_eq_iff.mp h).imp_right .inl
  · rintro (rfl | ⟨hx, hy⟩ | ⟨hx, hy⟩)
    · rfl
    · simp only [unsigned, isZero_of_isNaN hx, isZero_of_isNaN hy, Bool.false_eq_true, if_false]
      exact canonical_eq_iff.mpr (.inr ⟨hx, hy⟩)
    · rw [unsigned, unsigned, if_pos hx, if_pos hy]

end Binary64

namespace Value

/-- The value with its number changed; only a number has one. -/
def mapNumber (f : Binary64 → Binary64) : Value → Value
  | number x => number (f x)
  | v => v

/-- What is stored is compared as `sameValue` compares. -/
theorem identical_eq_sameValue (a b : Value) : a.identical b = a.sameValue b := by
  cases a <;> cases b <;> rfl

theorem sameValue_iff_canonical {a b : Value} :
    a.sameValue b = true ↔ a.mapNumber Binary64.canonical = b.mapNumber Binary64.canonical := by
  cases a <;> cases b <;>
    simp [sameValue, strictEquals, mapNumber, Binary64.sameValue_iff, Binary64.canonical_eq_iff]

theorem sameValueZero_iff_unsigned {a b : Value} :
    a.sameValueZero b = true ↔ a.mapNumber Binary64.unsigned = b.mapNumber Binary64.unsigned := by
  cases a <;> cases b <;>
    simp [sameValueZero, strictEquals, mapNumber, Binary64.sameValueZero_iff,
      Binary64.unsigned_eq_iff]

/-- Two values that a map sends to one are related as equal things are. -/
theorem equivalence_of_iff {r : Value → Value → Bool} {f : Binary64 → Binary64}
    (h : ∀ {a b}, r a b = true ↔ a.mapNumber f = b.mapNumber f) :
    Equivalence (fun a b => r a b = true) where
  refl _ := h.mpr rfl
  symm hab := h.mpr (h.mp hab).symm
  trans hab hbc := h.mpr ((h.mp hab).trans (h.mp hbc))

theorem sameValueZero_of_sameValue {a b : Value} (h : a.sameValue b = true) :
    a.sameValueZero b = true := by
  cases a with
  | number x =>
    cases b with
    | number y => exact Binary64.sameValueZero_iff.mpr ((Binary64.sameValue_iff.mp h).imp_right .inl)
    | undefined | null | boolean | string | object => exact h
  | undefined | null | boolean | string | object => exact h

/-- Strict equality is `sameValueZero` away from NaN. -/
theorem strictEquals_iff {a b : Value} :
    a.strictEquals b = true ↔
      a.sameValueZero b = true ∧ a.isNaN = false ∧ b.isNaN = false := by
  cases a with
  | number x =>
    cases b with
    | number y =>
      show x.equal y = true ↔ x.sameValueZero y = true ∧ x.isNaN = false ∧ y.isNaN = false
      unfold Binary64.sameValueZero Binary64.equal
      cases x.isNaN <;> cases y.isNaN <;> simp
    | undefined | null | boolean | string | object =>
      exact iff_of_false Bool.noConfusion fun h => Bool.noConfusion h.1
  | undefined | null | boolean | string | object =>
    cases b with
    | number y => exact iff_of_false Bool.noConfusion fun h => Bool.noConfusion h.1
    | undefined | null | boolean | string | object => exact (and_iff_left ⟨rfl, rfl⟩).symm

/-- The comparisons of values line up. What is stored is compared by `sameValue`; that
and `sameValueZero` are equivalences on all values, whatever the bits of a NaN, and the
second is the coarser; and strict equality is the second between values other than
NaN. -/
theorem comparisons_coherent :
    (∀ a b : Value, a.identical b = a.sameValue b)
      ∧ Equivalence (fun a b : Value => a.sameValue b = true)
      ∧ Equivalence (fun a b : Value => a.sameValueZero b = true)
      ∧ (∀ a b : Value, a.sameValue b = true → a.sameValueZero b = true)
      ∧ ∀ a b : Value, a.strictEquals b = true ↔
          a.sameValueZero b = true ∧ a.isNaN = false ∧ b.isNaN = false :=
  ⟨identical_eq_sameValue, equivalence_of_iff sameValue_iff_canonical,
    equivalence_of_iff sameValueZero_iff_unsigned, fun _ _ => sameValueZero_of_sameValue,
    fun _ _ => strictEquals_iff⟩

/-- Two NaNs of different bits and signs. -/
theorem comparisons_coherent_nan :
    (number ⟨0x7ff8000000000000⟩).sameValue (number ⟨0xfff0000000000001⟩) = true
      ∧ (number ⟨0x7ff8000000000000⟩).sameValueZero (number ⟨0xfff0000000000001⟩) = true :=
  ⟨by decide, comparisons_coherent.2.2.2.1 _ _ (by decide)⟩

end Value

end ScriptRealm
