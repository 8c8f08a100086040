import ScriptRealm.Proofs.Number.Exact
import ScriptRealm.Proofs.Number.RadixText

/-!
# Radix loops — the digit loops end, and with a canonical numeral

The three loops that take digits off a number round after every step. Their runs are
given without a bound on the steps (`FractionRun`, `StripRun`, `WholeRun`), so that a run
exists exactly where the loop ends by itself. They do for every finite number in every
radix (`fractionDigits_run`, `stripImprecise_run`, `wholeDigits_run`): the bound of the
fraction doubles at each digit, rounded or not, and the whole part is halved.

What a run takes off is then settled by induction on the run, a rounded step at a time.
No rounding carries a fraction below one up to the radix (`roundQuanta_mul_lt`), so each
digit is one of the radix. A fraction ends at a digit other than zero, and so does the
whole part, from the last digit on. The text is so a numeral without superfluous zeros
(`Binary64.toRadix_canonical`).
-/

namespace ScriptRealm

namespace Binary64

/-! ## Rounded steps -/

/-- Nothing is rounded to nothing. -/
theorem roundQuanta_zero {den : Nat} (hden : 0 < den) : roundQuanta 0 den = 0 :=
  roundQuanta_eq_zero (by omega)

/-- No rounding carries a product with the radix up to the radix. -/
theorem roundQuanta_mul_lt {left radix : Nat} (hradix : 0 < radix) (hleft : Representable left)
    (hlt : left < one) : roundQuanta (left * radix) 1 < radix * one := by
  obtain ⟨k, s, rfl, hone⟩ : ∃ k s, k = 53 + s ∧ one = 2 ^ k := ⟨1074, 1021, rfl, one_quanta_eq⟩
  rw [hone] at hlt ⊢
  refine Nat.lt_of_not_le fun hle => ?_
  have hgap := Nat.mul_le_mul_right radix (hleft.add_le hlt)
  have hbelow : left * radix < 2 ^ (53 + s) * radix := Nat.mul_lt_mul_of_pos_right hlt hradix
  have hround := (roundQuanta_bounds (left * radix)).1
  -- the product is below the radix by more than half of the unit that it is rounded in
  have hunit : 2 * (2 ^ s * radix) ≤ 2 ^ excessBits (left * radix) := by
    rw [Nat.add_mul] at hgap
    rw [Nat.mul_comm radix] at hle
    omega
  by_cases hexact : excessBits (left * radix) = 0
  · have hpos := Nat.mul_pos (Nat.two_pow_pos s) hradix
    rw [hexact] at hunit
    omega
  · refine absurd (le_of_excessBits hexact) (Nat.not_le_of_lt (hbelow.trans_le ?_))
    calc 2 ^ (53 + s) * radix = 2 ^ 52 * (2 * (2 ^ s * radix)) := by ring
      _ ≤ 2 ^ 52 * 2 ^ excessBits (left * radix) := Nat.mul_le_mul_left _ hunit
      _ = 2 ^ (52 + excessBits (left * radix)) := (Nat.pow_add ..).symm

/-- A rounded quotient is at most half of a count from one on that is not below what is
divided. -/
theorem two_mul_roundQuanta_le {num whole radix : Nat} (hradix : 2 ≤ radix)
    (hwhole : Representable whole) (hone : one ≤ whole) (h : num ≤ whole) :
    2 * roundQuanta num radix ≤ whole := by
  obtain ⟨k, s, rfl, hs⟩ : ∃ k s, k = 52 + (s + 1) ∧ one = 2 ^ k :=
    ⟨1074, 1021, rfl, one_quanta_eq⟩
  rw [hs] at hone
  obtain ⟨half, hhalf⟩ : 2 ∣ whole := by
    refine Nat.dvd_trans ?_ hwhole.two_pow_dvd
    exact Nat.pow_dvd_pow 2 ((Nat.succ_le_succ (Nat.zero_le s)).trans (le_excessBits hone))
  have hrepresentable := hwhole.div_two_pow 1
  rw [hhalf, Nat.pow_one, Nat.mul_div_cancel_left _ (by decide)] at hrepresentable
  rw [hhalf]
  refine Nat.mul_le_mul_left 2 (roundQuanta_le (by omega) hrepresentable ?_)
  calc num ≤ 2 * half := by rwa [← hhalf]
    _ ≤ half * radix := by
      rw [Nat.mul_comm]
      exact Nat.mul_le_mul_left half hradix

end Binary64

namespace RadixExpansion

open Binary64

/-! ## The fraction -/

section Fraction

variable (radix left bound : Nat)

/-- The digit that the loop over the fraction takes off. -/
def nextDigit : Nat := roundQuanta (left * radix) 1 / one

/-- What remains of the fraction behind that digit. -/
def remaining : Nat := roundQuanta (left * radix) 1 % one

/-- The bound at the next digit. -/
def nextBound : Nat := roundQuanta (bound * radix) 1

/-- The digit is rounded up: what remains is more than a half, or a half behind an odd
digit, and within the bound of one. -/
def RoundsUp : Prop :=
  (one < 2 * remaining radix left ∨ 2 * remaining radix left = one ∧ nextDigit radix left % 2 = 1)
    ∧ one < roundQuanta (remaining radix left + nextBound radix bound) 1

instance : Decidable (RoundsUp radix left bound) := inferInstanceAs (Decidable (_ ∧ _))

/-- A run of the loop over the fraction, with the digits taken off before and after it,
the last coming first, and the carry into the whole part. -/
inductive FractionRun (radix : Nat) : Nat → Nat → List Nat → List Nat × Bool → Prop
  | raised {left bound : Nat} {digits : List Nat} (up : RoundsUp radix left bound) :
    FractionRun radix left bound digits (carried radix (nextDigit radix left :: digits))
  | cut {left bound : Nat} {digits : List Nat} (up : ¬ RoundsUp radix left bound)
      (below : remaining radix left < nextBound radix bound) :
    FractionRun radix left bound digits (nextDigit radix left :: digits, false)
  | next {left bound : Nat} {digits : List Nat} {result : List Nat × Bool}
      (up : ¬ RoundsUp radix left bound)
      (above : nextBound radix bound ≤ remaining radix left)
      (rest : FractionRun radix (remaining radix left) (nextBound radix bound)
        (nextDigit radix left :: digits) result) :
    FractionRun radix left bound digits result

end Fraction

/-- The state of the loop where it takes a digit off. -/
structure Running (left bound : Nat) : Prop where
  leftBits : Representable left
  boundBits : Representable bound
  positive : 0 < bound
  above : bound ≤ left
  below : left < one

section

variable {radix left bound : Nat}

theorem Running.next (hradix : 2 ≤ radix) (h : Running left bound)
    (habove : nextBound radix bound ≤ remaining radix left) :
    Running (remaining radix left) (nextBound radix bound) where
  leftBits := by
    unfold remaining
    rw [one_quanta_eq]
    exact (representable_roundQuanta Nat.one_pos).mod_two_pow 1074
  boundBits := representable_roundQuanta Nat.one_pos
  positive := by
    have hdouble := bound_doubles hradix h.boundBits
    have := h.positive
    unfold nextBound
    omega
  above := habove
  below := Nat.mod_lt _ one_quanta_pos

theorem Running.digit_lt (hradix : 2 ≤ radix) (h : Running left bound) :
    nextDigit radix left < radix := by
  unfold nextDigit
  rw [Nat.div_lt_iff_lt_mul one_quanta_pos]
  exact roundQuanta_mul_lt (by omega) h.leftBits h.below

/-- The loop is not left behind a zero: what remains then is not below the bound. -/
theorem Running.digit_ne_zero (h : Running left bound)
    (hbelow : remaining radix left < nextBound radix bound) : nextDigit radix left ≠ 0 := by
  intro hzero
  have hremaining : remaining radix left = roundQuanta (left * radix) 1 := by
    have hsplit := Nat.div_add_mod' (roundQuanta (left * radix) 1) one
    unfold nextDigit at hzero
    unfold remaining
    rw [hzero, Nat.zero_mul] at hsplit
    omega
  refine absurd hbelow (Nat.not_lt_of_le ?_)
  rw [hremaining]
  exact roundQuanta_mono Nat.one_pos (Nat.mul_le_mul_right radix h.above)

/-- A step of the loop where its steps are bounded. -/
theorem fractionDigits_succ (radix left bound fuel : Nat) (digits : List Nat) :
    fractionDigits radix (fuel + 1) left bound digits
      = if RoundsUp radix left bound then carried radix (nextDigit radix left :: digits)
        else if remaining radix left < nextBound radix bound then
          (nextDigit radix left :: digits, false)
        else fractionDigits radix fuel (remaining radix left) (nextBound radix bound)
          (nextDigit radix left :: digits) := by
  have hdigit : roundQuanta (left * radix) 1 / one = nextDigit radix left := rfl
  have hbound : roundQuanta (bound * radix) 1 = nextBound radix bound := rfl
  have hremaining : roundQuanta (left * radix) 1 - nextDigit radix left * one
      = remaining radix left := by
    have hsplit := Nat.div_add_mod' (roundQuanta (left * radix) 1) one
    unfold nextDigit remaining
    omega
  rw [fractionDigits]
  simp only [hdigit, hbound, hremaining, RoundsUp, carried, Bool.and_eq_true, Bool.or_eq_true,
    decide_eq_true_eq, beq_iff_eq]
  congr 1

/-- The loop ends: its bound doubles at each digit and stays below what remains. -/
theorem fractionDigits_run {fuel : Nat} (digits : List Nat) (hradix : 2 ≤ radix)
    (h : Running left bound) (hfuel : one ≤ bound * 2 ^ fuel) :
    FractionRun radix left bound digits (fractionDigits radix fuel left bound digits) := by
  induction fuel generalizing left bound digits with
  | zero =>
    have := h.above
    have := h.below
    omega
  | succ fuel ih =>
    rw [fractionDigits_succ]
    split
    · rename_i hup
      exact .raised hup
    · rename_i hup
      split
      · rename_i hbelow
        exact .cut hup hbelow
      · rename_i habove
        have hnext := h.next hradix (Nat.le_of_not_lt habove)
        refine .next hup (Nat.le_of_not_lt habove) (ih _ hnext (hfuel.trans ?_))
        calc bound * 2 ^ (fuel + 1) = bound * 2 * 2 ^ fuel := by ring
          _ ≤ nextBound radix bound * 2 ^ fuel :=
            Nat.mul_le_mul_right _ (bound_doubles hradix h.boundBits)

/-- A carry ends at a digit other than zero, or leaves no digit. -/
theorem head?_carried (radix : Nat) (digits : List Nat) :
    (carried radix digits).1.head? ≠ some 0 := by
  induction digits with
  | nil => simp [carried, carry]
  | cons digit earlier ih =>
    rw [carried_cons]
    split
    · simp
    · exact ih

/-- The digits of the fraction are digits of the radix, and the last one is not zero. -/
theorem FractionRun.canonical {digits : List Nat} {result : List Nat × Bool} (hradix : 2 ≤ radix)
    (run : FractionRun radix left bound digits result) (h : Running left bound)
    (hdigits : ∀ d ∈ digits, d < radix) :
    (∀ d ∈ result.1, d < radix) ∧ result.1.head? ≠ some 0 := by
  induction run with
  | @raised left bound digits up =>
    have hall : ∀ d ∈ nextDigit radix left :: digits, d < radix :=
      List.forall_mem_cons.mpr ⟨h.digit_lt hradix, hdigits⟩
    exact ⟨(carried_spec hall).1, head?_carried _ _⟩
  | cut up below =>
    refine ⟨List.forall_mem_cons.mpr ⟨h.digit_lt hradix, hdigits⟩, ?_⟩
    simpa using h.digit_ne_zero below
  | next up above rest ih =>
    exact ih (h.next hradix above) (List.forall_mem_cons.mpr ⟨h.digit_lt hradix, hdigits⟩)

end

/-! ## The whole part -/

section Whole

variable (radix : Nat)

/-- What is left of the whole part behind the digit taken off. -/
def wholeRest (whole : Nat) : Nat :=
  roundQuanta (roundQuanta (whole - whole % (radix * one)) 1) radix

/-- A run of the loop that strips the digits below the precision off a whole part, with
what it leaves and how many it strips. -/
inductive StripRun : Nat → Nat → Nat → Prop
  | stop {whole : Nat} (below : roundQuanta whole radix < 2 ^ 53 * one) : StripRun whole whole 0
  | next {whole rest count : Nat} (above : 2 ^ 53 * one ≤ roundQuanta whole radix)
      (run : StripRun (roundQuanta whole radix) rest count) : StripRun whole rest (count + 1)

/-- A run of the loop that takes digits off a whole part, with the digits before and
after it, the leading one coming first. -/
inductive WholeRun : Nat → List Nat → List Nat → Prop
  | last {whole : Nat} {digits : List Nat} (none : wholeRest radix whole = 0) :
    WholeRun whole digits (whole % (radix * one) / one :: digits)
  | next {whole : Nat} {digits result : List Nat} (some : wholeRest radix whole ≠ 0)
      (run : WholeRun (wholeRest radix whole) (whole % (radix * one) / one :: digits) result) :
    WholeRun whole digits result

end Whole

section

variable {radix whole : Nat}

/-- Nothing is left behind the leading digit, which is not zero, and before it at least
one is left. -/
theorem wholeRest_cases (hradix : 0 < radix) (hhigh : radix < 2 ^ 53) (hone : one ≤ whole) :
    (wholeRest radix whole = 0 ∧ whole % (radix * one) / one ≠ 0)
      ∨ one ≤ wholeRest radix whole := by
  rcases Nat.lt_or_ge whole (radix * one) with hlt | hge
  · left
    have hmod := Nat.mod_eq_of_lt hlt
    constructor
    · unfold wholeRest
      rw [hmod, Nat.sub_self, roundQuanta_zero Nat.one_pos, roundQuanta_zero hradix]
    · rw [hmod]
      exact (Nat.div_pos hone one_quanta_pos).ne'
  · right
    have hleast : radix * one ≤ whole - whole % (radix * one) := by
      rw [← Nat.div_mul_self_eq_mod_sub_self]
      exact Nat.le_mul_of_pos_left _ (Nat.div_pos hge (Nat.mul_pos hradix one_quanta_pos))
    refine le_roundQuanta hradix representable_one ?_
    rw [Nat.mul_comm]
    refine le_roundQuanta Nat.one_pos (Representable.of_lt hhigh).whole ?_
    rwa [Nat.mul_one]

theorem two_mul_wholeRest_le (hradix : 2 ≤ radix) (hwhole : Representable whole)
    (hone : one ≤ whole) : 2 * wholeRest radix whole ≤ whole := by
  refine two_mul_roundQuanta_le hradix hwhole hone (roundQuanta_le Nat.one_pos hwhole ?_)
  rw [Nat.mul_one]
  exact Nat.sub_le _ _

theorem wholeDigits_succ (radix fuel whole : Nat) (digits : List Nat) :
    wholeDigits radix (fuel + 1) whole digits
      = if wholeRest radix whole = 0 then whole % (radix * one) / one :: digits
        else wholeDigits radix fuel (wholeRest radix whole)
          (whole % (radix * one) / one :: digits) := rfl

/-- The loop ends: a whole part from one on is halved at least. -/
theorem wholeDigits_run {fuel : Nat} (digits : List Nat) (hradix : 2 ≤ radix)
    (hhigh : radix < 2 ^ 53) (hwhole : Representable whole) (hone : one ≤ whole)
    (hfuel : whole < one * 2 ^ fuel) :
    WholeRun radix whole digits (wholeDigits radix fuel whole digits) := by
  induction fuel generalizing whole digits with
  | zero =>
    omega
  | succ fuel ih =>
    rw [wholeDigits_succ]
    split
    · rename_i hnone
      exact .last hnone
    · rename_i hsome
      have hhalved := two_mul_wholeRest_le hradix hwhole hone
      have hleast : one ≤ wholeRest radix whole :=
        (wholeRest_cases (by omega) hhigh hone).resolve_left fun h => hsome h.1
      refine .next hsome (ih _ (representable_roundQuanta (by omega)) hleast ?_)
      rw [Nat.pow_succ, ← Nat.mul_assoc] at hfuel
      omega

/-- The digits of a whole part are digits of the radix, and the leading one is not zero. -/
theorem WholeRun.canonical {digits result : List Nat} (run : WholeRun radix whole digits result)
    (hradix : 0 < radix) (hhigh : radix < 2 ^ 53) (hone : one ≤ whole)
    (hdigits : ∀ d ∈ digits, d < radix) :
    (∀ d ∈ result, d < radix) ∧ ∃ d, result.head? = some d ∧ d ≠ 0 := by
  have hdigit : ∀ whole, whole % (radix * one) / one < radix := fun whole => by
    rw [Nat.div_lt_iff_lt_mul one_quanta_pos]
    exact Nat.mod_lt _ (Nat.mul_pos hradix one_quanta_pos)
  induction run with
  | last none =>
    refine ⟨List.forall_mem_cons.mpr ⟨hdigit _, hdigits⟩, _, rfl, ?_⟩
    refine ((wholeRest_cases hradix hhigh hone).resolve_right ?_).2
    have := one_quanta_pos
    omega
  | next some run ih =>
    refine ih ?_ (List.forall_mem_cons.mpr ⟨hdigit _, hdigits⟩)
    exact (wholeRest_cases hradix hhigh hone).resolve_left fun h => some h.1

theorem stripImprecise_succ (radix fuel whole : Nat) :
    stripImprecise radix (fuel + 1) whole
      = if 2 ^ 53 * one ≤ roundQuanta whole radix then
          ((stripImprecise radix fuel (roundQuanta whole radix)).1,
            (stripImprecise radix fuel (roundQuanta whole radix)).2 + 1)
        else (whole, 0) := by
  rw [stripImprecise]
  simp only [Nat.pow_eq]

theorem one_le_of_imprecise {n : Nat} (h : 2 ^ 53 * one ≤ n) : one ≤ n := by
  omega

/-- The loop ends likewise. -/
theorem stripImprecise_run {fuel : Nat} (hradix : 2 ≤ radix) (hwhole : Representable whole)
    (hone : one ≤ whole) (hfuel : whole < one * 2 ^ fuel) :
    StripRun radix whole (stripImprecise radix fuel whole).1 (stripImprecise radix fuel whole).2
      := by
  induction fuel generalizing whole with
  | zero =>
    omega
  | succ fuel ih =>
    rw [stripImprecise_succ]
    split
    · rename_i habove
      have hhalved := two_mul_roundQuanta_le hradix hwhole hone le_rfl
      have hleast := one_le_of_imprecise habove
      refine .next habove (ih (representable_roundQuanta (by omega)) hleast ?_)
      rw [Nat.pow_succ, ← Nat.mul_assoc] at hfuel
      omega
    · rename_i hbelow
      exact .stop (Nat.lt_of_not_le hbelow)

/-- What the loop leaves is a count from one on, and no greater. -/
theorem StripRun.left {rest count : Nat} (run : StripRun radix whole rest count)
    (hradix : 2 ≤ radix) (hwhole : Representable whole) (hone : one ≤ whole) :
    Representable rest ∧ one ≤ rest ∧ rest ≤ whole := by
  induction run with
  | stop => exact ⟨hwhole, hone, Nat.le_refl _⟩
  | next above run ih =>
    have hhalved := two_mul_roundQuanta_le hradix hwhole hone le_rfl
    obtain ⟨hrest, hleast, hle⟩ :=
      ih (representable_roundQuanta (by omega)) (one_le_of_imprecise above)
    exact ⟨hrest, hleast, by omega⟩

/-- Zero leaves nothing behind its digit. -/
theorem wholeRest_zero (hradix : 0 < radix) : wholeRest radix 0 = 0 := by
  unfold wholeRest
  rw [Nat.zero_sub, roundQuanta_zero Nat.one_pos, roundQuanta_zero hradix]

end

/-! ## The numeral -/

/-- The digits of a fraction, the last coming first, and the carry into the whole part, once
the loop over it has ended. A fraction below the tolerance is dropped. -/
inductive FractionEnds (radix : Nat) (x : Binary64) : List Nat × Bool → Prop
  | dropped (below : x.quanta % one < tolerance x) : FractionEnds radix x ([], false)
  | looped {result : List Nat × Bool} (above : tolerance x ≤ x.quanta % one)
    (run : FractionRun radix (x.quanta % one) (tolerance x) [] result) : FractionEnds radix x result

/-- The digits of a whole part, once both loops over it have ended. -/
inductive WholeEnds (radix whole : Nat) : List Nat → Prop
  | ended {rest count : Nat} {digits : List Nat} (strip : StripRun radix whole rest count)
    (take : WholeRun radix rest (List.replicate count 0) digits) : WholeEnds radix whole digits

section

variable {radix : Nat} {x : Binary64}

/-- The loop over the fraction is entered where the fraction is not below the tolerance. -/
theorem running_start (h : tolerance x ≤ x.quanta % one) :
    Running (x.quanta % one) (tolerance x) where
  leftBits := by
    rw [one_quanta_eq]
    exact x.representable_quanta.mod_two_pow 1074
  boundBits := by
    obtain ⟨i, htolerance, -⟩ := tolerance_spec x
    rw [htolerance]
    exact .two_pow i
  positive := Nat.lt_of_lt_of_le (by decide) (Nat.le_max_right _ 1)
  above := h
  below := Nat.mod_lt _ one_quanta_pos

theorem fractionOf_ends (hradix : 2 ≤ radix) (x : Binary64) :
    FractionEnds radix x (fractionOf radix x) ∧ (∀ d ∈ (fractionOf radix x).1, d < radix)
      ∧ (fractionOf radix x).1.head? ≠ some 0 := by
  unfold fractionOf
  rw [quanta_sub_wholePart]
  split
  · rename_i habove
    have hstart := running_start habove
    have hsteps : one ≤ 2 ^ steps := by decide +kernel
    have run := fractionDigits_run [] hradix hstart
      (hsteps.trans (Nat.le_mul_of_pos_left _ hstart.positive))
    exact ⟨.looped habove run, run.canonical hradix hstart (by simp)⟩
  · rename_i hbelow
    exact ⟨.dropped (Nat.lt_of_not_le hbelow), by simp, by simp⟩

theorem carriedWhole_spec (radix : Nat) (h : x.isFinite = true) :
    Representable (carriedWhole radix x)
      ∧ (carriedWhole radix x = 0 ∨ one ≤ carriedWhole radix x)
      ∧ carriedWhole radix x < one * 2 ^ steps := by
  have hsteps : 2 ^ 1024 * one < one * 2 ^ steps := by decide +kernel
  have hlast : x.wholePart + 1 ≤ 2 ^ 1024 := wholePart_lt h
  unfold carriedWhole
  split
  · refine ⟨representable_roundQuanta Nat.one_pos, .inr ?_, ?_⟩
    · refine le_roundQuanta Nat.one_pos representable_one ?_
      rw [Nat.mul_one]
      exact Nat.le_add_left _ _
    · refine Nat.lt_of_le_of_lt (roundQuanta_le (k := 2 ^ 1024 * one) Nat.one_pos ?_ ?_) hsteps
      · exact (Representable.two_pow 1024).whole
      · rw [Nat.mul_one, ← Nat.succ_mul]
        exact Nat.mul_le_mul_right one hlast
  · refine ⟨?_, ?_, Nat.lt_of_le_of_lt (Nat.mul_le_mul_right one (by omega)) hsteps⟩
    · exact (representable_wholePart x).whole
    · rcases Nat.eq_zero_or_pos x.wholePart with hzero | hpos
      · exact .inl (by rw [hzero, Nat.zero_mul])
      · exact .inr (Nat.le_mul_of_pos_left one hpos)

/-- The whole part zero is the one digit zero. -/
theorem integerOf_zero (hradix : 2 ≤ radix) :
    WholeEnds radix 0 [0] ∧ integerOf radix 0 = [0] := by
  have hpos : 0 < radix := by omega
  have hnone := wholeRest_zero hpos
  have hstop : StripRun radix 0 0 0 := by
    refine .stop ?_
    rw [roundQuanta_zero hpos]
    exact Nat.mul_pos (by decide) one_quanta_pos
  have htake : WholeRun radix 0 (List.replicate 0 0) [0] := by
    simpa using WholeRun.last hnone
  have hstrip : stripImprecise radix steps 0 = (0, 0) := by
    simpa using stripImprecise_of_le hradix (Nat.zero_le (2 ^ 53))
  refine ⟨.ended hstop htake, ?_⟩
  have hsteps : steps = 1099 + 1 := rfl
  unfold integerOf
  rw [hstrip, hsteps, wholeDigits_succ, if_pos hnone, Nat.zero_mod, Nat.zero_div,
    List.replicate_zero]

theorem integerOf_ends {whole : Nat} (hradix : 2 ≤ radix) (hhigh : radix < 2 ^ 53)
    (hwhole : Representable whole) (hcases : whole = 0 ∨ one ≤ whole)
    (hfuel : whole < one * 2 ^ steps) :
    WholeEnds radix whole (integerOf radix whole) ∧ (∀ d ∈ integerOf radix whole, d < radix)
      ∧ (integerOf radix whole = [0] ∨ ∃ d, (integerOf radix whole).head? = some d ∧ d ≠ 0) := by
  rcases hcases with rfl | hone
  · obtain ⟨hends, hinteger⟩ := integerOf_zero hradix
    rw [hinteger]
    exact ⟨hends, by simpa using (by omega : 0 < radix), .inl rfl⟩
  · have strip := stripImprecise_run hradix hwhole hone hfuel
    obtain ⟨hrest, hleast, hle⟩ := strip.left hradix hwhole hone
    have take := wholeDigits_run (List.replicate (stripImprecise radix steps whole).2 0) hradix
      hhigh hrest hleast (Nat.lt_of_le_of_lt hle hfuel)
    have hzeros : ∀ d ∈ List.replicate (stripImprecise radix steps whole).2 0, d < radix := by
      intro d hd
      rw [(List.mem_replicate.mp hd).2]
      omega
    obtain ⟨hdigits, hleads⟩ := take.canonical (by omega) hhigh hleast hzeros
    exact ⟨.ended strip take, hdigits, .inr hleads⟩

/-- What the four loops give of a finite positive number, each of them ended: the digits
of the whole part and those of the fraction, the leading ones first. -/
inductive Expands (radix : Nat) (x : Binary64) : List Nat → List Nat → Prop
  | ended {fraction : List Nat × Bool} {whole : List Nat} (ends : FractionEnds radix x fraction)
    (wholeEnds : WholeEnds radix
      (if fraction.2 then roundQuanta (x.wholePart * one + one) 1 else x.wholePart * one) whole) :
    Expands radix x whole fraction.1.reverse

end

end RadixExpansion

namespace Numeral

/-- Digits of a radix, a zero leading them only where it is the whole part, and none
ending the fraction. -/
structure Canonical (radix : Nat) (whole fraction : List Nat) : Prop where
  digits : ∀ d ∈ whole ++ fraction, d < radix
  leads : whole = [0] ∨ ∃ d, whole.head? = some d ∧ d ≠ 0
  ends : fraction.getLast? ≠ some 0

end Numeral

namespace Binary64

open RadixExpansion

/-- The digit loops end for every finite number other than zero, in every radix. The text
is a sign where the value is negative, and the digits that the loops give: those of the
radix, without superfluous zeros, and with a point only before digits of a fraction. -/
theorem toRadix_canonical [Printer] {x : Binary64} {radix : Nat} (hfinite : x.isFinite = true)
    (hzero : x.isZero = false) (hlow : 2 ≤ radix) (hhigh : radix ≤ 36) (hten : radix ≠ 10) :
    ∃ whole fraction, Expands radix x.absolute whole fraction
      ∧ Numeral.Canonical radix whole fraction
      ∧ x.toRadix radix = String.ofList
          ((if x.value < 0 then ['-'] else []) ++ Numeral.write radix whole fraction) := by
  obtain ⟨hends, hfraction, hlast⟩ := fractionOf_ends hlow x.absolute
  obtain ⟨hwhole, hcases, hfuel⟩ :=
    carriedWhole_spec radix (x := x.absolute) (by rw [isFinite_absolute, hfinite])
  obtain ⟨hwholeEnds, hinteger, hleads⟩ := integerOf_ends hlow (by omega) hwhole hcases hfuel
  refine ⟨integerOf radix (carriedWhole radix x.absolute), (fractionOf radix x.absolute).1.reverse,
    .ended hends hwholeEnds, ⟨?_, hleads, ?_⟩, ?_⟩
  · exact List.forall_mem_append.mpr
      ⟨hinteger, fun d hd => hfraction d (List.mem_reverse.mp hd)⟩
  · rwa [List.getLast?_reverse]
  · unfold toRadix
    rw [if_neg (by simp [hten, hfinite, hzero]), signMark_eq_ite (isNaN_eq_false hfinite), text_eq]

/-- The number next to minus two thirds, in base 3. -/
theorem toRadix_canonical_two_thirds :
    (⟨0xbfe5555555555555⟩ : Binary64).isFinite = true
      ∧ (⟨0xbfe5555555555555⟩ : Binary64).isZero = false
      ∧ ∃ whole fraction, Expands 3 (⟨0xbfe5555555555555⟩ : Binary64).absolute whole fraction
        ∧ Numeral.Canonical 3 whole fraction
        ∧ toRadix ⟨0xbfe5555555555555⟩ 3 = String.ofList
            ((if (⟨0xbfe5555555555555⟩ : Binary64).value < 0 then ['-'] else [])
              ++ Numeral.write 3 whole fraction) := by
  have hfinite : (⟨0xbfe5555555555555⟩ : Binary64).isFinite = true := by decide
  have hzero : (⟨0xbfe5555555555555⟩ : Binary64).isZero = false := by decide
  exact ⟨hfinite, hzero, toRadix_canonical hfinite hzero (by decide) (by decide) (by decide)⟩

end Binary64

end ScriptRealm
