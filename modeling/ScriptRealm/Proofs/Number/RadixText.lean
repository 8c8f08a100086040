import ScriptRealm.Proofs.Number.DefaultText
import ScriptRealm.Proofs.Number.Expansion

/-!
# Radix text — which numbers their digits in a radix identify

The text of a finite number in a radix is a numeral of that radix, and its exact value
rounds to the number (`nearest_toRadix`)

- in base ten, where the text is the default one, with a printer that prints the
  shortest decimals;
- in a power of two, where the digits denote the number exactly
  (`denotes_two_pow`);
- in every radix for numbers of few places (`FewPlaces`), which all are from
  the radix up to `2^53`: the value differs from such a number by less than
  the tolerance (`denotes_fewPlaces`).

Outside of these the roundings of the digit loops add up, and the value may
be nearer to a neighbour (`toRadix_misses`).
-/

namespace ScriptRealm

namespace RadixExpansion

open Binary64

/-! ## The parts of the text -/

/-- The digits of the fraction, the last coming first, and the carry out of it. -/
def fractionOf (radix : Nat) (x : Binary64) : List Nat × Bool :=
  if tolerance x ≤ x.quanta - x.wholePart * one then
    fractionDigits radix steps (x.quanta - x.wholePart * one) (tolerance x) []
  else ([], false)

/-- The digits of a whole part. -/
def integerOf (radix whole : Nat) : List Nat :=
  wholeDigits radix steps (stripImprecise radix steps whole).1
    (List.replicate (stripImprecise radix steps whole).2 0)

/-- The whole part with the carry out of the fraction. -/
def carriedWhole (radix : Nat) (x : Binary64) : Nat :=
  if (fractionOf radix x).2 then roundQuanta (x.wholePart * one + one) 1 else x.wholePart * one

theorem text_eq (radix : Nat) (x : Binary64) :
    text radix x = Numeral.write radix (integerOf radix (carriedWhole radix x))
      (fractionOf radix x).1.reverse := by
  unfold carriedWhole text Numeral.write
  rw [← List.isEmpty_map]
  dsimp only
  rw [← fractionOf.eq_1]
  cases fractionOf radix x
  rfl

theorem wholeDigits_ne_nil {radix fuel whole : Nat} {digits : List Nat} (h : fuel ≠ 0) :
    wholeDigits radix fuel whole digits ≠ [] := by
  have hpush : ∀ fuel whole digits, digits ≠ [] → wholeDigits radix fuel whole digits ≠ [] := by
    intro fuel
    induction fuel with
    | zero => exact fun _ _ h => h
    | succ fuel ih =>
      intro whole digits _
      unfold wholeDigits
      dsimp only
      split
      · exact List.cons_ne_nil _ _
      · exact ih _ _ (List.cons_ne_nil _ _)
  obtain ⟨fuel, rfl⟩ := Nat.exists_eq_succ_of_ne_zero h
  unfold wholeDigits
  dsimp only
  split
  · exact List.cons_ne_nil _ _
  · exact hpush _ _ _ (List.cons_ne_nil _ _)

theorem integerOf_ne_nil (radix whole : Nat) : integerOf radix whole ≠ [] :=
  wholeDigits_ne_nil (by decide)

theorem quanta_sub_wholePart (x : Binary64) : x.quanta - x.wholePart * one = x.quanta % one := by
  have := Nat.div_add_mod' x.quanta one
  unfold wholePart
  omega

/-- The tolerance is a power of two of which the number is a multiple. -/
theorem tolerance_spec (x : Binary64) : ∃ i, tolerance x = 2 ^ i ∧ 2 ^ i ∣ x.quanta := by
  unfold tolerance
  rw [quanta_eq, Nat.pow_eq]
  cases hscale : x.scale with
  | zero => exact ⟨0, rfl, by simp⟩
  | succ scale =>
    refine ⟨scale, ?_, (Nat.pow_dvd_pow 2 (Nat.le_succ scale)).mul_left _⟩
    rw [Nat.pow_succ, Nat.mul_div_cancel _ (by decide)]
    exact Nat.max_eq_left (Nat.two_pow_pos scale)

/-- The fraction is below the tolerance and dropped, or the loop over it runs to its
end. -/
theorem fractionOf_spec {radix : Nat} {x : Binary64} {State : Nat → Nat → Nat → Prop}
    (hradix : 2 ≤ radix)
    (hstep : ∀ count left bound, State count left bound → bound ≤ left → left < one →
      roundQuanta (left * radix) 1 = left * radix
        ∧ State (count + 1) (left * radix % one) (roundQuanta (bound * radix) 1))
    (hbound : ∀ count left bound, State count left bound → Representable bound)
    (hstart : State 0 (x.quanta % one) (tolerance x)) :
    (fractionOf radix x = ([], false) ∧ x.quanta % one < tolerance x)
      ∨ tolerance x ≤ x.quanta % one ∧ (∀ d ∈ (fractionOf radix x).1, d < radix)
        ∧ Ending radix (x.quanta % one) State (fractionOf radix x) := by
  unfold fractionOf
  rw [quanta_sub_wholePart]
  split
  · rename_i hle
    refine .inr ⟨hle, fractionDigits_spec hradix hstep hbound hstart hle
      (Nat.mod_lt _ one_quanta_pos) ?_ (by simp) (by simp)⟩
    have hsteps : one ≤ 2 ^ steps := by decide +kernel
    exact hsteps.trans (Nat.le_mul_of_pos_left _ (Nat.le_max_right ..))
  · rename_i hlt
    exact .inl ⟨rfl, Nat.lt_of_not_le hlt⟩

/-- In a power of two the digits of the fraction are exact. -/
theorem fractionOf_two_pow {j : Nat} (hj : 0 < j) (x : Binary64) :
    (∀ d ∈ (fractionOf (2 ^ j) x).1, d < 2 ^ j)
      ∧ numerator (2 ^ j) (fractionOf (2 ^ j) x) * one
        = x.quanta % one * (2 ^ j) ^ (fractionOf (2 ^ j) x).1.length := by
  obtain ⟨i, htolerance, hdvd⟩ := tolerance_spec x
  obtain ⟨k, hone⟩ : ∃ k, one = 2 ^ k := ⟨1074, one_quanta_eq⟩
  have hmod : 2 ^ i ∣ x.quanta % one := by
    rw [hone]
    exact two_pow_dvd_mod hdvd
  have hstart : Aligned 0 (x.quanta % one) (tolerance x) := by
    refine ⟨⟨i, htolerance⟩, by rwa [htolerance], ?_⟩
    rw [hone]
    exact x.representable_quanta.mod_two_pow k
  have hradix : 2 ≤ 2 ^ j := Nat.pow_le_pow_right (n := 2) (by decide) hj
  rcases fractionOf_spec hradix (fun _ _ _ h _ _ => h.step)
    (fun _ _ _ h => by obtain ⟨i, rfl⟩ := h.power; exact .two_pow i) hstart with
    ⟨hnone, hlt⟩ | ⟨-, hdigits, hend⟩
  · rw [htolerance] at hlt
    rw [hnone, Nat.eq_zero_of_dvd_of_lt hmod hlt]
    simp [numerator]
  · exact ⟨hdigits, hend.exact (by omega)⟩

/-- In a power of two no carry leaves the fraction. -/
theorem fractionOf_two_pow_snd {j : Nat} (hj : 0 < j) (x : Binary64) :
    (fractionOf (2 ^ j) x).2 = false := by
  have hvalue := (fractionOf_two_pow hj x).2
  have hpow := Nat.pow_pos (n := (fractionOf (2 ^ j) x).1.length) (Nat.two_pow_pos j)
  by_contra hcarry
  rw [Bool.not_eq_false] at hcarry
  have hnum : (2 ^ j) ^ (fractionOf (2 ^ j) x).1.length
      ≤ numerator (2 ^ j) (fractionOf (2 ^ j) x) := by
    unfold numerator
    rw [if_pos hcarry]
    exact Nat.le_add_left _ _
  have hlow := Nat.mul_le_mul_right one hnum
  have hhigh := Nat.mul_lt_mul_of_pos_right (Nat.mod_lt x.quanta one_quanta_pos) hpow
  rw [Nat.mul_comm] at hlow
  omega

/-- Whole numbers up to `2^53` are representable. -/
theorem representable_whole {n : Nat} (h : n ≤ 2 ^ 53) : Representable (n * one) :=
  (Representable.of_le h).whole

/-- A whole part up to `2^53` has its digits in every radix. -/
theorem integerOf_of_le {radix n : Nat} (hradix : 2 ≤ radix) (hn : n ≤ 2 ^ 53) :
    (∀ d ∈ integerOf radix (n * one), d < radix)
      ∧ Nat.ofDigits radix (integerOf radix (n * one)).reverse = n := by
  have hstep : ∀ m, m ≤ 2 ^ 53 →
      roundQuanta (roundQuanta (m / radix * radix * one) 1) radix = m / radix * one
        ∧ m / radix ≤ 2 ^ 53 := fun m hm => by
    have hdiv : m / radix ≤ m := Nat.div_le_self _ _
    have hmul : m / radix * radix ≤ m := Nat.div_mul_le_self _ _
    rw [roundQuanta_one (representable_whole (by omega)), Nat.mul_right_comm,
      roundQuanta_of_representable (by omega) (representable_whole (by omega))]
    exact ⟨rfl, by omega⟩
  have hsteps : 2 ^ 53 < 2 ^ steps := by decide +kernel
  obtain ⟨taken, htaken, -, hdigits, hvalue⟩ := wholeDigits_spec hradix hstep []
    hn (Nat.lt_of_le_of_lt hn hsteps) (by decide)
  unfold integerOf
  rw [stripImprecise_of_le hradix hn]
  dsimp only
  rw [List.replicate_zero, htaken, List.append_nil]
  exact ⟨hdigits, hvalue⟩

/-- A representable whole part has its digits in a power of two. -/
theorem integerOf_two_pow {j n : Nat} (hj : 0 < j) (hn : Representable n) (hlt : n < 2 ^ steps) :
    (∀ d ∈ integerOf (2 ^ j) (n * one), d < 2 ^ j)
      ∧ Nat.ofDigits (2 ^ j) (integerOf (2 ^ j) (n * one)).reverse = n := by
  have hradix : 2 ≤ 2 ^ j := Nat.pow_le_pow_right (n := 2) (by decide) hj
  obtain ⟨rest, count, hstrip, hrest, hrepresentable⟩ :=
    stripImprecise_two_pow j steps hn
  have hle : rest ≤ n := by
    rw [hrest]
    exact Nat.le_mul_of_pos_right _ (Nat.pow_pos (Nat.two_pow_pos j))
  have hstep : ∀ m, Representable m →
      roundQuanta (roundQuanta (m / 2 ^ j * 2 ^ j * one) 1) (2 ^ j) = m / 2 ^ j * one
        ∧ Representable (m / 2 ^ j) := fun m hm => by
    have hdiv := hm.div_two_pow j
    rw [roundQuanta_one (hdiv.mul_two_pow j).whole, Nat.mul_right_comm,
      roundQuanta_of_representable (by omega) hdiv.whole]
    exact ⟨rfl, hdiv⟩
  obtain ⟨taken, htaken, -, hdigits, hvalue⟩ := wholeDigits_spec hradix hstep
    (List.replicate count 0) hrepresentable (Nat.lt_of_le_of_lt hle hlt) (by decide)
  unfold integerOf
  rw [hstrip]
  dsimp only
  rw [htaken]
  refine ⟨List.forall_mem_append.mpr ⟨hdigits, fun d hd => ?_⟩, ?_⟩
  · rw [(List.mem_replicate.mp hd).2]
    exact Nat.two_pow_pos j
  · rw [List.reverse_append, List.reverse_replicate, Nat.ofDigits_append,
      Nat.ofDigits_replicate_zero, List.length_replicate, hvalue, Nat.zero_add, Nat.mul_comm,
      ← hrest]

/-! ## The value of the text -/

/-- The text has digits of the radix only, and as a whole they denote `num` over the
radix to the power of the digits after the point. -/
structure Denotes (radix : Nat) (x : Binary64) (num places : Nat) : Prop where
  digits : ∀ d ∈ integerOf radix (carriedWhole radix x) ++ (fractionOf radix x).1.reverse, d < radix
  places : (fractionOf radix x).1.length = places
  num : Nat.ofDigits radix
    (integerOf radix (carriedWhole radix x) ++ (fractionOf radix x).1.reverse).reverse = num

/-- The parts of the text put together. -/
theorem denotes_of_parts {radix n : Nat} {x : Binary64}
    (hwhole : carriedWhole radix x = n * one)
    (hinteger : (∀ d ∈ integerOf radix (n * one), d < radix)
      ∧ Nat.ofDigits radix (integerOf radix (n * one)).reverse = n)
    (hfraction : ∀ d ∈ (fractionOf radix x).1, d < radix) :
    Denotes radix x (Nat.ofDigits radix (fractionOf radix x).1
      + radix ^ (fractionOf radix x).1.length * n) (fractionOf radix x).1.length := by
  refine ⟨?_, rfl, ?_⟩
  · rw [hwhole]
    exact List.forall_mem_append.mpr
      ⟨hinteger.1, fun d hd => hfraction d (List.mem_reverse.mp hd)⟩
  · rw [hwhole, List.reverse_append, List.reverse_reverse, Nat.ofDigits_append, hinteger.2]

/-- In a power of two the text denotes the number exactly. -/
theorem denotes_two_pow {j : Nat} (hj : 0 < j) {x : Binary64} (h : x.isFinite = true) :
    ∃ num places, Denotes (2 ^ j) x num places ∧ num * one = x.quanta * (2 ^ j) ^ places := by
  have hcarry := fractionOf_two_pow_snd hj x
  obtain ⟨hdigits, hvalue⟩ := fractionOf_two_pow hj x
  have hwhole : carriedWhole (2 ^ j) x = x.wholePart * one := by
    unfold carriedWhole
    rw [hcarry, if_neg Bool.false_ne_true]
  have hsteps : 2 ^ 1024 ≤ 2 ^ steps := by decide +kernel
  have hinteger := integerOf_two_pow hj (representable_wholePart x)
    (Nat.lt_of_lt_of_le (wholePart_lt h) hsteps)
  refine ⟨_, _, denotes_of_parts hwhole hinteger hdigits, ?_⟩
  have hsplit := Nat.div_add_mod' x.quanta one
  unfold numerator at hvalue
  rw [hcarry, if_neg Bool.false_ne_true, Nat.add_zero] at hvalue
  rw [Nat.add_mul, hvalue, Nat.mul_assoc, ← Nat.mul_comm (x.wholePart * one), ← Nat.add_mul,
    Nat.add_comm, wholePart, hsplit]

/-! ## Numbers of few places -/

/-- A number from 1 to `2^53` whose binary places leave room for a digit of the radix
within 53 bits. Whole numbers have no places. -/
structure FewPlaces (radix : Nat) (x : Binary64) : Prop where
  least : one ≤ x.quanta
  greatest : x.quanta ≤ 2 ^ 53 * one
  places : ∃ p, radix * 2 ^ p ≤ 2 ^ 53 ∧ one ∣ x.quanta * 2 ^ p

/-- From the radix up to `2^53` every number has few places. -/
theorem FewPlaces.of_radix_le {radix : Nat} {x : Binary64} (hradix : 0 < radix)
    (hlow : radix * one ≤ x.quanta) (hhigh : x.quanta ≤ 2 ^ 53 * one) : FewPlaces radix x := by
  refine ⟨(Nat.le_mul_of_pos_left one hradix).trans hlow, hhigh, ?_⟩
  obtain ⟨k, hone⟩ : ∃ k, one = 2 ^ k := ⟨1074, one_quanta_eq⟩
  rcases Nat.le_total x.scale k with hscale | hscale
  · have hpow : 2 ^ k = 2 ^ (k - x.scale) * 2 ^ x.scale := by
      rw [← pow_add, Nat.sub_add_cancel hscale]
    refine ⟨k - x.scale, ?_, ?_⟩
    · have hquanta := Nat.mul_lt_mul_of_pos_right x.significand_lt (Nat.two_pow_pos x.scale)
      have hscaled := Nat.lt_of_le_of_lt hlow hquanta
      rw [hone, hpow, ← Nat.mul_assoc] at hscaled
      exact Nat.le_of_lt (Nat.lt_of_mul_lt_mul_right hscaled)
    · rw [quanta_eq, Nat.mul_assoc, Nat.mul_comm (2 ^ x.scale), ← hpow, hone]
      exact Nat.dvd_mul_left _ _
  · refine ⟨0, ?_, ?_⟩
    · rw [Nat.pow_zero, Nat.mul_one]
      exact Nat.le_of_mul_le_mul_right (hlow.trans hhigh) one_quanta_pos
    · rw [Nat.pow_zero, Nat.mul_one, hone, quanta_eq]
      exact (Nat.pow_dvd_pow 2 hscale).mul_left _

/-- From 1 on the tolerance is half of the distance between neighbours. -/
theorem two_mul_tolerance {x : Binary64} (h : one ≤ x.quanta) :
    2 * tolerance x = 2 ^ x.scale ∧ one ≤ 2 ^ 53 * tolerance x := by
  obtain ⟨k, hk, hone⟩ : ∃ k, k = 1074 ∧ one = 2 ^ k := ⟨1074, rfl, one_quanta_eq⟩
  have hscale : k < 53 + x.scale := by
    refine (Nat.pow_lt_pow_iff_right (a := 2) (by decide)).mp ?_
    calc 2 ^ k ≤ x.quanta := by rwa [← hone]
      _ < 2 ^ 53 * 2 ^ x.scale :=
        Nat.mul_lt_mul_of_pos_right x.significand_lt (Nat.two_pow_pos _)
      _ = 2 ^ (53 + x.scale) := (pow_add ..).symm
  obtain ⟨s, hs⟩ := Nat.exists_eq_succ_of_ne_zero (show x.scale ≠ 0 by omega)
  have htolerance : tolerance x = 2 ^ s := by
    unfold tolerance
    rw [Nat.pow_eq, hs, Nat.pow_succ, Nat.mul_div_cancel _ (by decide)]
    exact Nat.max_eq_left (Nat.two_pow_pos s)
  rw [htolerance, hs, hone, ← pow_add]
  exact ⟨(pow_succ' 2 s).symm, Nat.pow_le_pow_right (by decide) (by omega)⟩

theorem FewPlaces.room {radix : Nat} {x : Binary64} (hradix : 2 ≤ radix) (h : FewPlaces radix x) :
    ∃ unit, Room radix unit (tolerance x) ∧ unit ∣ x.quanta := by
  obtain ⟨p, hdigit, hdvd⟩ := h.places
  obtain ⟨k, hk, hone⟩ : ∃ k, k = 1074 ∧ one = 2 ^ k := ⟨1074, rfl, one_quanta_eq⟩
  have hp : p ≤ 53 := by
    refine (Nat.pow_le_pow_iff_right (a := 2) (by decide)).mp (Nat.le_trans ?_ hdigit)
    exact Nat.le_mul_of_pos_left _ (by omega)
  have hunit : one = 2 ^ p * 2 ^ (k - p) := by
    rw [hone, ← pow_add, Nat.add_sub_cancel' (by omega)]
  obtain ⟨i, htolerance, -⟩ := tolerance_spec x
  refine ⟨2 ^ (k - p), ⟨⟨_, rfl⟩, ?_, ?_, ⟨i, htolerance⟩, (two_mul_tolerance h.least).2⟩, ?_⟩
  · rw [hunit]
    exact Nat.dvd_mul_left _ _
  · rw [hunit, ← Nat.mul_assoc]
    exact Nat.mul_le_mul_right _ hdigit
  · rw [hunit, Nat.mul_comm] at hdvd
    exact Nat.dvd_of_mul_dvd_mul_right (Nat.two_pow_pos p) hdvd

/-- The carry of a fraction into the whole part is exact up to `2^53`: a number that
has a fraction is below that. -/
theorem carriedWhole_of_fraction (radix : Nat) {x : Binary64} (hhigh : x.quanta ≤ 2 ^ 53 * one)
    (hfraction : 0 < x.quanta % one) :
    carriedWhole radix x = (x.wholePart + if (fractionOf radix x).2 then 1 else 0) * one
      ∧ x.wholePart + (if (fractionOf radix x).2 then 1 else 0) ≤ 2 ^ 53 := by
  have hsplit := Nat.div_add_mod' x.quanta one
  have hbelow : x.wholePart + 1 ≤ 2 ^ 53 := by
    refine Nat.lt_of_mul_lt_mul_right (Nat.lt_of_lt_of_le ?_ hhigh)
    unfold wholePart
    omega
  unfold carriedWhole
  split
  · exact ⟨by rw [← Nat.succ_mul, roundQuanta_one (representable_whole hbelow)], hbelow⟩
  · exact ⟨rfl, Nat.le_of_succ_le hbelow⟩

/-- The digits of the text denote the whole part and the fraction that the loop ended
with, wherever the carry went. -/
theorem ofDigits_carried (radix whole : Nat) (fraction : List Nat × Bool) :
    Nat.ofDigits radix fraction.1
        + radix ^ fraction.1.length * (whole + if fraction.2 then 1 else 0)
      = numerator radix fraction + radix ^ fraction.1.length * whole := by
  unfold numerator
  split <;> ring

/-- The text of a number of few places denotes a value within the tolerance, and a
whole number exactly. -/
theorem denotes_fewPlaces {radix : Nat} {x : Binary64} (hradix : 2 ≤ radix)
    (h : FewPlaces radix x) :
    ∃ num places, Denotes radix x num places
      ∧ (x.quanta % one = 0 → num * one = x.quanta * radix ^ places)
      ∧ x.quanta * radix ^ places < num * one + tolerance x * radix ^ places
      ∧ num * one < x.quanta * radix ^ places + tolerance x * radix ^ places := by
  obtain ⟨unit, room, hunit⟩ := h.room hradix
  have htolerance : 0 < tolerance x := Nat.lt_of_lt_of_le (by decide) (Nat.le_max_right _ 1)
  have hsplit := Nat.div_add_mod' x.quanta one
  have hstart : Placed radix unit (tolerance x) 0 (x.quanta % one) (tolerance x) := by
    refine ⟨(Nat.dvd_mod_iff room.divides).mpr hunit, ?_, .inl (by simp)⟩
    obtain ⟨i, hi⟩ := room.tolerancePower
    rw [hi]
    exact .two_pow i
  rcases fractionOf_spec hradix (fun _ _ _ hp => hp.step (by omega) room)
    (fun _ _ _ hp => hp.representable) hstart with ⟨hnone, hlt⟩ | ⟨hle, hdigits, hend⟩
  · have hwhole : x.wholePart ≤ 2 ^ 53 := by
      refine Nat.le_of_mul_le_mul_right (Nat.le_trans ?_ h.greatest) one_quanta_pos
      exact Nat.div_mul_le_self _ _
    have hcarried : carriedWhole radix x = x.wholePart * one := by
      unfold carriedWhole
      rw [hnone, if_neg Bool.false_ne_true]
    have hdenotes := denotes_of_parts hcarried (integerOf_of_le hradix hwhole) (by simp [hnone])
    rw [hnone] at hdenotes
    simp only [Nat.ofDigits_nil, List.length_nil, Nat.pow_zero, Nat.one_mul, Nat.zero_add]
      at hdenotes
    unfold wholePart at hdenotes
    refine ⟨_, _, hdenotes, ?_⟩
    rw [pow_zero, Nat.mul_one, Nat.mul_one]
    omega
  · obtain ⟨hcarried, hwhole⟩ := carriedWhole_of_fraction radix h.greatest (by omega)
    have hdenotes := denotes_of_parts hcarried (integerOf_of_le hradix hwhole) hdigits
    rw [ofDigits_carried] at hdenotes
    have hquanta : x.quanta * radix ^ (fractionOf radix x).1.length
        = x.quanta % one * radix ^ (fractionOf radix x).1.length
          + radix ^ (fractionOf radix x).1.length * x.wholePart * one := by
      conv_lhs => rw [← hsplit]
      unfold wholePart
      ring
    obtain ⟨hlow, hhigh⟩ := hend.near
    refine ⟨_, _, hdenotes, fun hzero => by omega, ?_⟩
    rw [Nat.add_mul, hquanta]
    omega

/-! ## The text read back -/

/-- The text is read as the value that its digits denote. -/
theorem Denotes.read {radix num places : Nat} {x : Binary64} (hlow : 2 ≤ radix)
    (hhigh : radix ≤ 36) (h : Denotes radix x num places) :
    Numeral.positional? radix (text radix x) = some ((num : ℚ) / (radix ^ places : Nat)) := by
  have hdigits : (integerOf radix (carriedWhole radix x) ++ (fractionOf radix x).1.reverse).map
        (fun d => if d < radix then d else 0)
      = integerOf radix (carriedWhole radix x) ++ (fractionOf radix x).1.reverse := by
    conv_rhs => rw [← List.map_id (integerOf radix (carriedWhole radix x) ++ _)]
    exact List.map_congr_left fun d hd => if_pos (h.digits d hd)
  rw [text_eq, Numeral.positional?_write (by omega) hhigh (integerOf_ne_nil _ _), hdigits,
    List.length_reverse, h.places, Nat.cast_pow, ← h.num,
    Nat.coe_ofDigits]

/-- Where the value of the text rounds to the number, it rounds to its datum. -/
theorem nearest_of_roundQuanta {x : Binary64} {num den : Nat} (hfinite : x.isFinite = true)
    (hzero : x.isZero = false) (hden : 0 < den) (hround : roundQuanta (num * one) den = x.quanta) :
    Numeral.nearest (if x.isNegative then -((num : ℚ) / den) else (num : ℚ) / den) = x := by
  have hpos : 0 < num := by
    refine Nat.pos_of_ne_zero ?_
    rintro rfl
    rw [Nat.zero_mul, roundQuanta_eq_zero hden] at hround
    exact absurd hround (Nat.mul_pos (significand_pos hzero) (Nat.two_pow_pos _)).ne
  rw [Numeral.nearest_of_ratio _ hpos hden]
  exact ofQuanta_eq_of_roundQuanta hfinite hround

theorem roundQuanta_of_exact {x : Binary64} {num den : Nat} (hden : 0 < den)
    (h : num * one = x.quanta * den) : roundQuanta (num * one) den = x.quanta := by
  rw [h]
  exact roundQuanta_of_representable hden x.representable_quanta

/-- From 1 on, a value within the tolerance of a number that is not whole rounds to
the number. -/
theorem roundQuanta_of_near {x : Binary64} {num den : Nat} (hden : 0 < den)
    (hleast : one ≤ x.quanta) (hfraction : x.quanta % one ≠ 0)
    (hlow : x.quanta * den < num * one + tolerance x * den)
    (hhigh : num * one < x.quanta * den + tolerance x * den) :
    roundQuanta (num * one) den = x.quanta := by
  have hgap : den * 2 ^ x.scale = 2 * (tolerance x * den) := by
    rw [← (two_mul_tolerance hleast).1]
    ring
  have hquanta : x.significand * (den * 2 ^ x.scale) = x.quanta * den := by
    rw [quanta_eq]
    ring
  have hpower : ¬ (x.significand = 2 ^ 52 ∧ 0 < x.scale) := by
    rintro ⟨hsignificand, -⟩
    refine hfraction (Nat.mod_eq_zero_of_dvd ?_)
    obtain ⟨k, hone⟩ : ∃ k, one = 2 ^ k := ⟨1074, one_quanta_eq⟩
    rw [quanta_eq, hsignificand, hone, ← pow_add] at hleast ⊢
    exact Nat.pow_dvd_pow 2 ((Nat.pow_le_pow_iff_right (by decide)).mp hleast)
  refine roundQuanta_near hden x.significand_lt x.scale_eq_zero_or ?_ ?_ (.inr ⟨?_, ?_⟩)
  · rw [if_neg hpower, hquanta, hgap]
    omega
  · rw [hquanta, hgap]
    omega
  · rw [hquanta, hgap]
    omega
  · rw [hquanta, hgap]
    omega

end RadixExpansion

namespace Binary64

open RadixExpansion

/-- In a power of two, and for numbers of few places, the digits denote a value that
rounds to the number. -/
theorem denotes_rounds {x : Binary64} {radix : Nat} (hlow : 2 ≤ radix)
    (hfinite : x.isFinite = true) (h : (∃ j, radix = 2 ^ j) ∨ FewPlaces radix x) :
    ∃ num places, Denotes radix x.absolute num places
      ∧ roundQuanta (num * one) (radix ^ places) = x.quanta := by
  rw [← quanta_absolute]
  rcases h with ⟨j, rfl⟩ | h
  · have hj : 0 < j := Nat.pos_of_ne_zero (by rintro rfl; omega)
    obtain ⟨num, places, hdenotes, hvalue⟩ :=
      denotes_two_pow hj (x := x.absolute) (by rw [isFinite_absolute, hfinite])
    exact ⟨num, places, hdenotes,
      roundQuanta_of_exact (Nat.pow_pos (Nat.two_pow_pos j)) hvalue⟩
  · have habsolute : FewPlaces radix x.absolute := by
      obtain ⟨hleast, hgreatest, hplaces⟩ := h
      rw [← quanta_absolute] at hleast hgreatest
      exact ⟨hleast, hgreatest, by rwa [quanta_absolute]⟩
    obtain ⟨num, places, hdenotes, hwhole, hbelow, habove⟩ := denotes_fewPlaces hlow habsolute
    have hden : 0 < radix ^ places := Nat.pow_pos (by omega)
    refine ⟨num, places, hdenotes, ?_⟩
    by_cases hfraction : x.absolute.quanta % one = 0
    · exact roundQuanta_of_exact hden (hwhole hfraction)
    · exact roundQuanta_of_near hden habsolute.least hfraction hbelow habove

/-- The text of a finite number other than zero, in a radix other than ten, is read
as its digits are, with its sign. -/
theorem value?_toRadix [Printer] {x : Binary64} {radix : Nat} (hlow : 2 ≤ radix)
    (hhigh : radix ≤ 36)
    (hten : radix ≠ 10) (hfinite : x.isFinite = true) (hzero : x.isZero = false) :
    Numeral.value? radix (x.toRadix radix)
      = (Numeral.positional? radix (text radix x.absolute)).map
          fun q => if x.isNegative then -q else q := by
  have hnan : x.isNaN = false := decide_eq_false (Nat.lt_asymm (of_decide_eq_true hfinite))
  unfold toRadix
  rw [if_neg (by simp [hten, hfinite, hzero]), signMark_eq hnan hzero,
    Numeral.value?_signed, Numeral.unsigned?, if_neg hten]
  intro rest
  rw [text_eq]
  exact Numeral.write_ne_minus (by omega) hhigh (integerOf_ne_nil _ _) _ rest

/-- Zero is read from its text in every radix. -/
theorem value?_zero {radix : Nat} (hlow : 2 ≤ radix) (hhigh : radix ≤ 36) :
    Numeral.value? radix "0" = some 0 := by
  have htext : "0" = String.ofList ((if false then ['-'] else []) ++ ['0']) := rfl
  rw [htext, Numeral.value?_signed false radix (by simp), Numeral.unsigned?]
  by_cases hten : radix = 10
  · have hparse : Decimal.parse? ['0'] = some ⟨0, 0⟩ := rfl
    rw [if_pos hten, hparse]
    simp
  · have hwrite : ['0'] = Numeral.write radix [0] [] := by
      simp [Numeral.write, digitChar, show ¬ radix ≤ 0 by omega]
    rw [if_neg hten, hwrite, Numeral.positional?_write (by omega) hhigh (List.cons_ne_nil _ _)]
    simp [Nat.ofDigits]

/-- The text of a finite number in a radix is a numeral of that radix. In base ten, in
a power of two, and for numbers of few places, the exact value that it denotes rounds
to the number. Base ten alone depends on the printer. -/
theorem nearest_toRadix [Printer] {x : Binary64} (radix : Nat) (hfinite : x.isFinite = true)
    (hlow : 2 ≤ radix) (hhigh : radix ≤ 36) (hten : radix = 10 → Printer.PrintsShortest) :
    ∃ q, Numeral.value? radix (x.toRadix radix) = some q
      ∧ (radix = 10 ∨ (∃ j, radix = 2 ^ j) ∨ x.isZero = true ∨ FewPlaces radix x →
        (Numeral.nearest q).equal x = true) := by
  have hnan : x.isNaN = false := decide_eq_false (Nat.lt_asymm (of_decide_eq_true hfinite))
  have hself : x.equal x = true := by
    unfold equal
    simp [hnan]
  by_cases hzero : x.isZero = true
  · have htext : x.toRadix radix = "0" := by
      unfold toRadix toText
      rw [if_pos (.inr (.inr hzero)), hnan, if_neg Bool.false_ne_true, if_pos hzero]
    have hnearest : Numeral.nearest 0 = zero := by decide +kernel
    exact ⟨0, by rw [htext, value?_zero hlow hhigh], fun _ => by rw [hnearest, zero_equal hzero]⟩
  · rw [Bool.not_eq_true] at hzero
    by_cases hradix : radix = 10
    · subst hradix
      obtain ⟨q, hq, hnearest⟩ := value?_toText (hten rfl) hfinite hzero
      have htext : x.toRadix 10 = x.toText := by
        unfold toRadix
        rw [if_pos (.inl rfl)]
      exact ⟨q, by rw [htext, hq], fun _ => by rw [hnearest, hself]⟩
    · rw [value?_toRadix hlow hhigh hradix hfinite hzero]
      by_cases hexact : (∃ j, radix = 2 ^ j) ∨ FewPlaces radix x
      · obtain ⟨num, places, hdenotes, hround⟩ := denotes_rounds hlow hfinite hexact
        have hden : 0 < radix ^ places := Nat.pow_pos (by omega)
        rw [hdenotes.read hlow hhigh]
        refine ⟨_, rfl, fun _ => ?_⟩
        rw [nearest_of_roundQuanta hfinite hzero hden hround, hself]
      · rw [text_eq, Numeral.positional?_write (by omega) hhigh (integerOf_ne_nil _ _)]
        refine ⟨_, rfl, fun h => absurd h ?_⟩
        simpa [hradix, hzero] using hexact

/-- The number next to 100.1, in base 36 and, with the printer that searches for the
shortest form, in base ten. -/
theorem nearest_toRadix_hundred :
    @Printer.PrintsShortest Printer.shortest
      ∧ Binary64.isFinite ⟨0x4059066666666666⟩ = true ∧ FewPlaces 36 ⟨0x4059066666666666⟩
      ∧ ∀ radix ∈ [36, 10],
        ∃ q, Numeral.value? radix (Binary64.toRadix ⟨0x4059066666666666⟩ radix) = some q
          ∧ (Numeral.nearest q).equal ⟨0x4059066666666666⟩ = true := by
  have hprints := Printer.shortest_printsShortest
  have hfinite : Binary64.isFinite ⟨0x4059066666666666⟩ = true := by decide
  have hplaces : FewPlaces 36 ⟨0x4059066666666666⟩ :=
    .of_radix_le (by decide) (by decide +kernel) (by decide +kernel)
  obtain ⟨q, hq, hround⟩ := nearest_toRadix 36 hfinite (by decide) (by decide) fun _ => hprints
  obtain ⟨p, hp, hround'⟩ := nearest_toRadix 10 hfinite (by decide) (by decide) fun _ => hprints
  exact ⟨hprints, hfinite, hplaces, List.forall_mem_cons.mpr
    ⟨⟨q, hq, hround (.inr (.inr (.inr hplaces)))⟩, List.forall_mem_singleton.mpr
      ⟨p, hp, hround' (.inl rfl)⟩⟩⟩

/-- Numbers without few places may be missed: one half in base five, whose lower
neighbour is nearer than the tolerance; a number below the radix, in base three; and
`2^58 + 192` in base 36. -/
theorem toRadix_misses :
    ∀ sample ∈ [((5 : Nat), Binary64.mk 0x3fe0000000000000), (3, ⟨0x3ffefb6f8de4ab47⟩),
        (36, ⟨0x4390000000000003⟩)],
      (Numeral.value? sample.1 (sample.2.toRadix sample.1)).map
        (fun q => (Numeral.nearest q).equal sample.2) = some false := by
  decide +kernel

end Binary64

end ScriptRealm
