import Mathlib.Data.Nat.Digits.Defs
import ScriptRealm.Number.Radix
import ScriptRealm.Proofs.Number.Reading

/-!
# Expansion — what the digit loops of a radix take off

Each loop is described under the condition that its roundings change nothing
(`fractionDigits_spec`, `wholeDigits_spec`): the digits then are those of the
number, up to what is left where the loop of the fraction ends. The condition
is a predicate on the loop's state that each step keeps. Two are in use, one
for the powers of two (`Aligned`) and one for numbers with few binary places
(`Placed`).
-/

namespace ScriptRealm.RadixExpansion

open Binary64

/-! ## The carry -/

/-- The numerator of fraction digits, the last coming first, over the radix to the
power of their count; a carry out of the fraction counts as one whole. -/
def numerator (radix : Nat) (fraction : List Nat × Bool) : Nat :=
  Nat.ofDigits radix fraction.1 + if fraction.2 then radix ^ fraction.1.length else 0

/-- The digits after a carry at the last one, and whether it leaves the fraction. -/
def carried (radix : Nat) (digits : List Nat) : List Nat × Bool :=
  match carry radix digits with
  | some digits => (digits, false)
  | none => ([], true)

theorem carried_cons (radix digit : Nat) (earlier : List Nat) :
    carried radix (digit :: earlier)
      = if digit + 1 < radix then ((digit + 1) :: earlier, false) else carried radix earlier := by
  unfold carried
  rw [carry]
  by_cases h : digit + 1 < radix
  · rw [if_pos h, if_pos h]
  · rw [if_neg h, if_neg h]

/-- A carry adds one at the last digit. -/
theorem carried_spec {radix : Nat} {digits : List Nat} (h : ∀ d ∈ digits, d < radix) :
    (∀ d ∈ (carried radix digits).1, d < radix)
      ∧ (carried radix digits).1.length ≤ digits.length
      ∧ numerator radix (carried radix digits)
          * radix ^ (digits.length - (carried radix digits).1.length)
        = Nat.ofDigits radix digits + 1 := by
  induction digits with
  | nil => simp [carried, carry, numerator]
  | cons digit earlier ih =>
    obtain ⟨hdigit, hearlier⟩ := List.forall_mem_cons.mp h
    rw [carried_cons]
    by_cases hlast : digit + 1 < radix
    · rw [if_pos hlast]
      refine ⟨List.forall_mem_cons.mpr ⟨hlast, hearlier⟩, Nat.le_refl _, ?_⟩
      simp [numerator, Nat.ofDigits_cons]
      omega
    · rw [if_neg hlast]
      obtain ⟨hdigits, hlength, hvalue⟩ := ih hearlier
      refine ⟨hdigits, Nat.le_succ_of_le hlength, ?_⟩
      have hfull : digit + 1 = radix := by omega
      rw [List.length_cons, Nat.succ_sub hlength, Nat.pow_succ, ← Nat.mul_assoc, hvalue,
        Nat.ofDigits_cons, Nat.add_mul, Nat.one_mul, Nat.mul_comm]
      omega

/-! ## The fraction -/

theorem representable_one : Representable one := ⟨1, 1074, by decide, by decide +kernel⟩

/-- How the loop over a fraction ends, `total` being the quanta of the fraction: after
`count` digits it cuts off what is left under the bound, or it rounds the last digit
up. `State` is known of the loop's state at the end. -/
inductive Ending (radix total : Nat) (State : Nat → Nat → Nat → Prop)
    (fraction : List Nat × Bool) : Prop
  | cut {count left bound : Nat} (state : State count left bound) (inside : left < one)
      (below : left < bound) (length : fraction.1.length ≤ count)
      (value : numerator radix fraction * radix ^ (count - fraction.1.length) * one + left
        = total * radix ^ count)
  | raised {count left bound : Nat} (state : State count left bound) (half : one ≤ 2 * left)
      (inside : left < one) (past : one < left + bound) (length : fraction.1.length ≤ count)
      (value : numerator radix fraction * radix ^ (count - fraction.1.length) * one + left
        = total * radix ^ count + one)

/-- What is left, times the radix, is a digit and what is left after it. -/
theorem scaled_sub_digit (left radix : Nat) :
    left * radix - left * radix / one * one = left * radix % one := by
  have := Nat.div_add_mod' (left * radix) one
  omega

theorem digit_lt {left radix : Nat} (hradix : 0 < radix) (hlt : left < one) :
    left * radix / one < radix := by
  rw [Nat.div_lt_iff_lt_mul one_quanta_pos, Nat.mul_comm]
  exact Nat.mul_lt_mul_of_pos_left hlt hradix

/-- The digits and what is left denote the fraction, one digit on. -/
theorem value_step {radix total left : Nat} {digits : List Nat}
    (hvalue : Nat.ofDigits radix digits * one + left = total * radix ^ digits.length) :
    Nat.ofDigits radix (left * radix / one :: digits) * one + left * radix % one
      = total * radix ^ (digits.length + 1) := by
  have hsplit := Nat.div_add_mod' (left * radix) one
  rw [Nat.pow_succ, ← Nat.mul_assoc, ← hvalue, Nat.ofDigits_cons]
  calc (left * radix / one + radix * Nat.ofDigits radix digits) * one + left * radix % one
      = left * radix / one * one + left * radix % one
        + radix * Nat.ofDigits radix digits * one := by ring
    _ = (Nat.ofDigits radix digits * one + left) * radix := by
      rw [hsplit]
      ring

/-- The bound at least doubles, rounded or not. -/
theorem bound_doubles {radix bound : Nat} (hradix : 2 ≤ radix) (h : Representable bound) :
    bound * 2 ≤ roundQuanta (bound * radix) 1 := by
  refine le_roundQuanta (by decide) (h.mul_two_pow 1) ?_
  rw [Nat.mul_one]
  exact Nat.mul_le_mul_left bound hradix

/-- Where no step is rounded, the loop ends with the digits of the fraction. -/
theorem fractionDigits_spec {radix total : Nat} {State : Nat → Nat → Nat → Prop}
    (hradix : 2 ≤ radix)
    (hstep : ∀ count left bound, State count left bound → bound ≤ left → left < one →
      roundQuanta (left * radix) 1 = left * radix
        ∧ State (count + 1) (left * radix % one) (roundQuanta (bound * radix) 1))
    (hbound : ∀ count left bound, State count left bound → Representable bound)
    {fuel left bound : Nat} {digits : List Nat} (hstate : State digits.length left bound)
    (hle : bound ≤ left) (hlt : left < one) (hfuel : one ≤ bound * 2 ^ fuel)
    (hdigits : ∀ d ∈ digits, d < radix)
    (hvalue : Nat.ofDigits radix digits * one + left = total * radix ^ digits.length) :
    (∀ d ∈ (fractionDigits radix fuel left bound digits).1, d < radix)
      ∧ Ending radix total State (fractionDigits radix fuel left bound digits) := by
  induction fuel generalizing left bound digits with
  | zero =>
    rw [Nat.pow_zero, Nat.mul_one] at hfuel
    omega
  | succ fuel ih =>
    obtain ⟨hexact, hnext⟩ := hstep _ _ _ hstate hle hlt
    have hmod := Nat.mod_lt (left * radix) one_quanta_pos
    have hdigits' : ∀ d ∈ left * radix / one :: digits, d < radix :=
      List.forall_mem_cons.mpr ⟨digit_lt (by omega) hlt, hdigits⟩
    have hvalue' := value_step hvalue
    unfold fractionDigits
    simp only [hexact, scaled_sub_digit]
    generalize left * radix / one = digit at *
    generalize left * radix % one = rest at *
    split
    · rename_i hup
      simp only [Bool.and_eq_true, Bool.or_eq_true, decide_eq_true_eq, beq_iff_eq] at hup
      change (∀ d ∈ (carried radix (digit :: digits)).1, d < radix)
        ∧ Ending radix total State (carried radix (digit :: digits))
      obtain ⟨hcarried, hlength, hsum⟩ := carried_spec hdigits'
      refine ⟨hcarried, .raised hnext ?_ hmod ?_ hlength ?_⟩
      · omega
      · refine Nat.lt_of_not_le fun hle => absurd hup.2 (Nat.not_lt_of_le ?_)
        exact roundQuanta_le (by decide) representable_one (by omega)
      · rw [List.length_cons] at hsum
        rw [hsum, Nat.add_mul, Nat.one_mul, ← hvalue']
        omega
    · split
      · rename_i hbelow
        refine ⟨hdigits', .cut hnext hmod hbelow (Nat.le_refl _) ?_⟩
        simpa [numerator] using hvalue'
      · rename_i habove
        refine ih hnext (Nat.le_of_not_lt habove) hmod (hfuel.trans ?_) hdigits' hvalue'
        calc bound * 2 ^ (fuel + 1) = bound * 2 * 2 ^ fuel := by ring
          _ ≤ _ := Nat.mul_le_mul_right _ (bound_doubles hradix (hbound _ _ _ hstate))

/-! ## The whole part -/

/-- Where no step is rounded, the digits taken off denote the whole part. -/
theorem wholeDigits_spec {radix : Nat} {State : Nat → Prop} (hradix : 2 ≤ radix)
    (hstep : ∀ n, State n →
      roundQuanta (roundQuanta (n / radix * radix * one) 1) radix = n / radix * one
        ∧ State (n / radix))
    {fuel n : Nat} (digits : List Nat) (hstate : State n) (hfuel : n < 2 ^ fuel)
    (hpos : fuel ≠ 0) :
    ∃ taken, wholeDigits radix fuel (n * one) digits = taken ++ digits ∧ taken ≠ []
      ∧ (∀ d ∈ taken, d < radix) ∧ Nat.ofDigits radix taken.reverse = n := by
  induction fuel generalizing n digits with
  | zero => exact absurd rfl hpos
  | succ fuel ih =>
    obtain ⟨hexact, hnext⟩ := hstep n hstate
    have hdigit : n % radix < radix := Nat.mod_lt n (by omega)
    have hremainder : n * one % (radix * one) = n % radix * one := Nat.mul_mod_mul_right ..
    have hrest : n * one - n % radix * one = n / radix * radix * one := by
      have hsub : n - n % radix = n / radix * radix := by
        have := Nat.div_add_mod' n radix
        omega
      rw [← Nat.sub_mul, hsub]
    unfold wholeDigits
    simp only [hremainder, Nat.mul_div_cancel _ one_quanta_pos, hrest, hexact]
    split
    · rename_i hzero
      have hquotient : n / radix = 0 :=
        (Nat.mul_eq_zero.mp hzero).resolve_right (Nat.ne_of_gt one_quanta_pos)
      refine ⟨[n % radix], rfl, List.cons_ne_nil _ _, by simpa using hdigit, ?_⟩
      have := Nat.div_add_mod' n radix
      rw [hquotient] at this
      simpa using by omega
    · rename_i hnonzero
      have hquotient : n / radix ≠ 0 := fun h => hnonzero (by rw [h, Nat.zero_mul])
      have hbelow : n / radix < 2 ^ fuel := by
        rw [Nat.div_lt_iff_lt_mul (by omega)]
        calc n < 2 ^ fuel * 2 := by rwa [← Nat.pow_succ]
          _ ≤ 2 ^ fuel * radix := Nat.mul_le_mul_left _ hradix
      have hfuel : fuel ≠ 0 := by
        rintro rfl
        exact hquotient (Nat.lt_one_iff.mp hbelow)
      obtain ⟨taken, htaken, hne, hall, hvalue⟩ :=
        ih (n % radix :: digits) hnext hbelow hfuel
      refine ⟨taken ++ [n % radix], ?_, by simp, ?_, ?_⟩
      · rw [htaken, List.append_assoc]
        rfl
      · exact List.forall_mem_append.mpr ⟨hall, by simpa using hdigit⟩
      · rw [List.reverse_append, List.reverse_singleton, List.singleton_append, Nat.ofDigits_cons,
          hvalue]
        have := Nat.div_add_mod' n radix
        rw [Nat.mul_comm]
        omega

/-- Whole parts up to `2^53` are taken as they are. -/
theorem stripImprecise_of_le {radix fuel n : Nat} (hradix : 2 ≤ radix) (hn : n ≤ 2 ^ 53) :
    stripImprecise radix fuel (n * one) = (n * one, 0) := by
  cases fuel with
  | zero => rfl
  | succ fuel =>
    have hquotient : roundQuanta (n * one) radix ≤ 2 ^ 52 * one := by
      refine roundQuanta_le (by omega) ?_ ?_
      · exact ⟨1, 1126, by decide, by decide +kernel⟩
      · calc n * one ≤ 2 ^ 52 * 2 * one := Nat.mul_le_mul_right one hn
          _ ≤ 2 ^ 52 * radix * one := Nat.mul_le_mul_right one (Nat.mul_le_mul_left _ hradix)
          _ = 2 ^ 52 * one * radix := Nat.mul_right_comm ..
    have hsmall : 2 ^ 52 * one < 2 ^ 53 * one :=
      Nat.mul_lt_mul_of_pos_right (by decide) one_quanta_pos
    unfold stripImprecise
    simp only [Nat.pow_eq]
    rw [if_neg (by omega)]

/-! ## Powers of two -/

/-- The state of the loop over a fraction in a power of two: what is left is a
representable multiple of the bound. -/
structure Aligned (count left bound : Nat) : Prop where
  power : ∃ i, bound = 2 ^ i
  divides : bound ∣ left
  representable : Representable left

/-- A multiple of a power of two stays one below any place. -/
theorem two_pow_dvd_mod {i k n : Nat} (h : 2 ^ i ∣ n) : 2 ^ i ∣ n % 2 ^ k := by
  rcases Nat.le_total i k with hle | hle
  · exact (Nat.dvd_mod_iff (Nat.pow_dvd_pow 2 hle)).mpr h
  · rw [Nat.mod_eq_zero_of_dvd ((Nat.pow_dvd_pow 2 hle).trans h)]
    exact Nat.dvd_zero _

theorem Aligned.step {j count left bound : Nat} (h : Aligned count left bound) :
    roundQuanta (left * 2 ^ j) 1 = left * 2 ^ j
      ∧ Aligned (count + 1) (left * 2 ^ j % one) (roundQuanta (bound * 2 ^ j) 1) := by
  obtain ⟨⟨i, rfl⟩, hdvd, hleft⟩ := h
  obtain ⟨k, hone⟩ : ∃ k, one = 2 ^ k := ⟨1074, one_quanta_eq⟩
  have hscaled := hleft.mul_two_pow j
  rw [roundQuanta_one hscaled, roundQuanta_one ((Representable.two_pow i).mul_two_pow j), hone]
  refine ⟨rfl, ⟨i + j, (Nat.pow_add ..).symm⟩, ?_, hscaled.mod_two_pow k⟩
  rw [← Nat.pow_add]
  refine two_pow_dvd_mod ?_
  rw [Nat.pow_add]
  exact Nat.mul_dvd_mul_right hdvd _

/-- In a power of two nothing is left where the loop ends. -/
theorem Ending.exact {radix total : Nat} {fraction : List Nat × Bool} (hradix : 0 < radix)
    (h : Ending radix total Aligned fraction) :
    numerator radix fraction * one = total * radix ^ fraction.1.length := by
  cases h with
  | @cut count left bound state inside below length value =>
    have hzero : left = 0 := Nat.eq_zero_of_dvd_of_lt state.divides below
    have hpow := Nat.pow_pos (n := count - fraction.1.length) hradix
    refine Nat.eq_of_mul_eq_mul_right hpow ?_
    calc numerator radix fraction * one * radix ^ (count - fraction.1.length)
        = total * radix ^ count := by rw [← value, hzero, Nat.add_zero, Nat.mul_right_comm]
      _ = total * radix ^ fraction.1.length * radix ^ (count - fraction.1.length) := by
        rw [Nat.mul_assoc, ← pow_add, Nat.add_sub_cancel' length]
  | @raised count left bound state half inside past length value =>
    exfalso
    obtain ⟨i, rfl⟩ := state.power
    obtain ⟨k, hone⟩ : ∃ k, one = 2 ^ k := ⟨1074, one_quanta_eq⟩
    rw [hone] at half inside past
    have hpos := Nat.two_pow_pos k
    rcases Nat.le_total i k with hle | hle
    · obtain ⟨c, rfl⟩ := state.divides
      obtain ⟨m, hm⟩ := Nat.pow_dvd_pow 2 hle
      rw [hm] at inside past
      have := Nat.lt_of_mul_lt_mul_left inside
      have := Nat.mul_le_mul_left (2 ^ i) this
      rw [Nat.mul_succ] at this
      omega
    · have hzero := Nat.eq_zero_of_dvd_of_lt ((Nat.pow_dvd_pow 2 hle).trans state.divides) inside
      omega

/-- In a power of two the digits that are stripped off are zeros of the whole part. -/
theorem stripImprecise_two_pow (j fuel : Nat) {n : Nat} (hn : Representable n) :
    ∃ rest count, stripImprecise (2 ^ j) fuel (n * one) = (rest * one, count)
      ∧ n = rest * (2 ^ j) ^ count ∧ Representable rest := by
  induction fuel generalizing n with
  | zero => exact ⟨n, 0, rfl, by simp, hn⟩
  | succ fuel ih =>
    unfold stripImprecise
    simp only [Nat.pow_eq]
    split
    · rename_i hlarge
      have hdvd : 2 ^ j ∣ n := by
        by_contra hdvd
        have hquotient : roundQuanta (n * one) (2 ^ j) ≤ 2 ^ 52 * one := by
          refine roundQuanta_le (Nat.two_pow_pos j) ⟨1, 1126, by decide, by decide +kernel⟩ ?_
          rw [Nat.mul_right_comm, ← pow_add]
          exact Nat.mul_le_mul_right one (hn.le_of_not_dvd hdvd)
        have hsmall : 2 ^ 52 * one < 2 ^ 53 * one :=
          Nat.mul_lt_mul_of_pos_right (by decide) one_quanta_pos
        omega
      obtain ⟨c, rfl⟩ := hdvd
      have hc : Representable c := by
        have := hn.div_two_pow j
        rwa [Nat.mul_div_cancel_left _ (Nat.two_pow_pos j)] at this
      have hquotient : roundQuanta (2 ^ j * c * one) (2 ^ j) = c * one := by
        obtain ⟨k, hone⟩ : ∃ k, one = 2 ^ k := ⟨1074, one_quanta_eq⟩
        rw [Nat.mul_comm (2 ^ j), Nat.mul_right_comm, hone]
        exact roundQuanta_of_representable (Nat.two_pow_pos j) (hc.mul_two_pow k)
      obtain ⟨rest, count, hstrip, hvalue, hrest⟩ := ih hc
      rw [hquotient, hstrip]
      refine ⟨rest, count + 1, rfl, ?_, hrest⟩
      rw [hvalue, pow_succ]
      ring
    · exact ⟨n, 0, rfl, by simp, hn⟩

/-! ## Few binary places -/

/-- A fraction that is a multiple of the unit leaves room for a digit of the radix
within 53 bits, and the tolerance is not below the least bit of a whole. -/
structure Room (radix unit tolerance : Nat) : Prop where
  unitPower : ∃ i, unit = 2 ^ i
  divides : unit ∣ one
  digit : radix * one ≤ 2 ^ 53 * unit
  tolerancePower : ∃ i, tolerance = 2 ^ i
  whole : one ≤ 2 ^ 53 * tolerance

/-- The state of the loop over such a fraction: the bound is exact while it is below
one whole. -/
structure Placed (radix unit tolerance count left bound : Nat) : Prop where
  divides : unit ∣ left
  representable : Representable bound
  exact : bound = tolerance * radix ^ count ∨ one ≤ bound ∧ one ≤ tolerance * radix ^ count

theorem Placed.step {radix unit tolerance count left bound : Nat} (hradix : 0 < radix)
    (room : Room radix unit tolerance) (h : Placed radix unit tolerance count left bound)
    (hle : bound ≤ left) (hlt : left < one) :
    roundQuanta (left * radix) 1 = left * radix
      ∧ Placed radix unit tolerance (count + 1) (left * radix % one)
        (roundQuanta (bound * radix) 1) := by
  refine ⟨roundQuanta_one ?_, ?_, representable_roundQuanta Nat.one_pos, ?_⟩
  · obtain ⟨i, hi⟩ := room.unitPower
    obtain ⟨c, hc⟩ := h.divides
    refine ⟨c * radix, i, ?_, by rw [hc, hi]; ring⟩
    have hscaled : left * radix < 2 ^ 53 * unit :=
      calc left * radix < one * radix := Nat.mul_lt_mul_of_pos_right hlt hradix
        _ ≤ 2 ^ 53 * unit := by rw [Nat.mul_comm]; exact room.digit
    rw [hc, Nat.mul_assoc, Nat.mul_comm unit] at hscaled
    exact Nat.lt_of_mul_lt_mul_right hscaled
  · exact (Nat.dvd_mod_iff room.divides).mpr (h.divides.mul_right radix)
  · rcases h.exact with hexact | ⟨hone, -⟩
    · obtain ⟨i, hi⟩ := room.tolerancePower
      have hnext : bound * radix = tolerance * radix ^ (count + 1) := by
        rw [hexact, pow_succ, Nat.mul_assoc]
      rcases Nat.lt_or_ge (radix ^ (count + 1)) (2 ^ 53) with hsmall | hlarge
      · refine .inl ?_
        rw [hnext, roundQuanta_one ⟨_, i, hsmall, by rw [hi, Nat.mul_comm]⟩]
      · have hover : one ≤ tolerance * radix ^ (count + 1) := by
          refine room.whole.trans ?_
          rw [Nat.mul_comm]
          exact Nat.mul_le_mul_left tolerance hlarge
        refine .inr ⟨?_, hover⟩
        exact le_roundQuanta Nat.one_pos representable_one (by rwa [Nat.mul_one, hnext])
    · omega

/-- What is left where the loop ends is under the tolerance. -/
theorem Ending.near {radix total unit tolerance : Nat} {fraction : List Nat × Bool}
    (h : Ending radix total (Placed radix unit tolerance) fraction) :
    total * radix ^ fraction.1.length
        < numerator radix fraction * one + tolerance * radix ^ fraction.1.length
      ∧ numerator radix fraction * one
        < total * radix ^ fraction.1.length + tolerance * radix ^ fraction.1.length := by
  suffices hscaled : ∃ count, fraction.1.length ≤ count
      ∧ total * radix ^ count
        < numerator radix fraction * radix ^ (count - fraction.1.length) * one
          + tolerance * radix ^ count
      ∧ numerator radix fraction * radix ^ (count - fraction.1.length) * one
        < total * radix ^ count + tolerance * radix ^ count by
    obtain ⟨count, length, hlow, hhigh⟩ := hscaled
    have hpow : radix ^ count
        = radix ^ fraction.1.length * radix ^ (count - fraction.1.length) := by
      rw [← pow_add, Nat.add_sub_cancel' length]
    rw [hpow, ← Nat.mul_assoc, ← Nat.mul_assoc, Nat.mul_right_comm (numerator radix fraction),
      ← Nat.add_mul] at hlow hhigh
    exact ⟨Nat.lt_of_mul_lt_mul_right hlow, Nat.lt_of_mul_lt_mul_right hhigh⟩
  cases h with
  | @cut count left bound state inside below length value =>
    have hleft := state.exact
    exact ⟨count, length, by omega, by omega⟩
  | @raised count left bound state half inside past length value =>
    have hleft := state.exact
    exact ⟨count, length, by omega, by omega⟩

end ScriptRealm.RadixExpansion
