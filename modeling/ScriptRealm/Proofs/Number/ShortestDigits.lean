import ScriptRealm.Number.Shortest
import ScriptRealm.Proofs.Number.Printer
import ScriptRealm.Proofs.Number.Significant

/-!
# Shortest digits — the search ends with a shortest decimal

`Binary64.shortest` looks at the two neighbours of a number on ever finer decimal
grids. Where a point of a grid rounds to the number, the neighbour on that side does
too, since it lies between (`NearestTo.between`), and it is no farther away
(`exists_neighbour`). So a grid that is passed over has no point that rounds to the
number, and on the grid that the search ends on none is closer than the point taken
(`Binary64.EndsOn`).

A decimal of as many digits as a grid has lies on that grid, or it lies below the
leading power of ten, which then is a closer point of the grid
(`exists_gridPoint`). Therefore the printer that searches prints the shortest decimals
(`Printer.shortest_printsShortest`).
-/

namespace ScriptRealm

namespace Decimal

/-! ## Digits without the zeros at their end -/

/-- The digits that are left out at the end are zeros. -/
theorem digits_eq_append_zeros (n : Nat) :
    ∃ z, digits n = significantDigits n ++ List.replicate z '0' :=
  exists_trailing_zeros (digits n)

theorem length_significantDigits_le (n : Nat) :
    (significantDigits n).length ≤ (digits n).length := by
  obtain ⟨z, hz⟩ := digits_eq_append_zeros n
  rw [hz, List.length_append]
  exact Nat.le_add_right _ _

theorem isDigit_of_mem_significantDigits {n : Nat} {c : Char} (h : c ∈ significantDigits n) :
    c.isDigit = true := by
  obtain ⟨z, hz⟩ := digits_eq_append_zeros n
  refine isDigit_of_mem_digits (n := n) ?_
  rw [hz]
  exact List.mem_append_left _ h

/-- The digits that are left of a positive number begin as its digits do. -/
theorem exists_significantDigits {n : Nat} (h : 0 < n) :
    ∃ first others, significantDigits n = first :: others ∧ first ≠ '0' := by
  obtain ⟨z, hz⟩ := digits_eq_append_zeros n
  have hhead := head?_digits h
  cases hdigits : significantDigits n with
  | nil =>
    have hvalue : ofDigits (digits n) = n := Nat.ofDigitChars_ten_toDigits
    rw [hz, hdigits, List.nil_append, ofDigits_zeros] at hvalue
    exact absurd hvalue h.ne
  | cons first others =>
    rw [hz, hdigits] at hhead
    exact ⟨first, others, rfl, by simpa using hhead⟩

/-- Nothing is lost with the trailing zeros. -/
theorem toRat_value_toScientific (d : Decimal) : d.toScientific.value.toRat = d.toRat := by
  obtain ⟨z, hz⟩ := digits_eq_append_zeros d.coefficient
  have hvalue : ofDigits (digits d.coefficient) = d.coefficient := Nat.ofDigitChars_ten_toDigits
  have hlength := congrArg List.length hz
  rw [List.length_append, List.length_replicate] at hlength
  rw [hz, ofDigits_append, ofDigits_zeros, Nat.add_zero, List.length_replicate] at hvalue
  have hexponent : d.leadingExponent - ((significantDigits d.coefficient).length - 1 : Int)
      = z + d.exponent := by
    unfold leadingExponent
    omega
  unfold Scientific.value toScientific toRat
  dsimp only
  rw [hexponent, zpow_add₀ (by norm_num), zpow_natCast, ← mul_assoc]
  conv_rhs => rw [← hvalue]
  push_cast
  rfl

end Decimal

namespace Binary64

/-! ## Reading intervals -/

/-- The ratios of its reading interval are those that round to a number. -/
theorem holds_iff {x : Binary64} {q : ℚ} {num den : Nat} (hsign : x.isNegative = false)
    (hzero : x.isZero = false) (hden : 0 < den) (hq : q * (one * den) = num) :
    (ReadingInterval.around x).holds num den = true ↔ x.NearestTo q := by
  have hcount : 4 * x.quanta * den = 4 * (x.significand * (den * 2 ^ x.scale)) := by
    rw [quanta_eq]
    ring
  have hgap : 2 ^ x.scale * den = den * 2 ^ x.scale := Nat.mul_comm _ _
  have hunit := Nat.le_mul_of_pos_left (den * 2 ^ x.scale) (significand_pos hzero)
  rw [nearestTo_iff_within hsign hzero hden hq, withinHalfGap_iff]
  unfold ReadingInterval.holds ReadingInterval.around
  simp only [Nat.pow_eq, Nat.sub_mul, Nat.add_mul, ite_mul, hcount, Nat.mul_assoc 2, hgap,
    beq_iff_eq, Bool.and_eq_true, decide_eq_true_eq]
  by_cases heven : x.significand % 2 = 0
  · by_cases hnarrow : x.significand = 2 ^ 52 ∧ 0 < x.scale
    · simp only [if_pos heven, if_pos hnarrow, decide_eq_true_eq]
      omega
    · simp only [if_pos heven, if_neg hnarrow, decide_eq_true_eq]
      omega
  · -- a power of two is even, so the gaps are equal
    have hwide : ¬ (x.significand = 2 ^ 52 ∧ 0 < x.scale) := by
      rintro ⟨hpower, -⟩
      exact heven (hpower ▸ rfl)
    simp only [if_neg heven, if_neg hwide, decide_eq_true_eq]
    omega

/-! ## One grid -/

theorem roundHalfEven_eq_or (num den : Nat) :
    roundHalfEven num den = num / den ∨ roundHalfEven num den = num / den + 1 := by
  unfold roundHalfEven
  dsimp only
  split
  · exact .inl rfl
  · split
    · exact .inr rfl
    · rcases Nat.mod_two_eq_zero_or_one (num / den) with h | h
      · exact .inl (by rw [h, Nat.add_zero])
      · exact .inr (by rw [h])

/-- The point of the grid `10 ^ step` below a number. -/
def gridFloor (x : Binary64) (step : Int) : Nat :=
  x.quanta * 10 ^ (-step).toNat / (one * 10 ^ step.toNat)

/-- The point of the grid `10 ^ step` that a number is rounded to. -/
def gridRound (x : Binary64) (step : Int) : Nat :=
  roundHalfEven (x.quanta * 10 ^ (-step).toNat) (one * 10 ^ step.toNat)

/-- The neighbour of a number on the grid that it is not rounded to. -/
def gridOther (x : Binary64) (step : Int) : Nat :=
  if x.gridRound step = x.gridFloor step then x.gridFloor step + 1 else x.gridFloor step

section

variable {x : Binary64}

/-- The two points of a grid that are tried are the neighbours of the number. -/
theorem neighbour_iff (x : Binary64) (step : Int) (n : Nat) :
    n = x.gridFloor step ∨ n = x.gridFloor step + 1
      ↔ n = x.gridRound step ∨ n = x.gridOther step := by
  have hround : x.gridRound step = x.gridFloor step ∨ x.gridRound step = x.gridFloor step + 1 :=
    roundHalfEven_eq_or _ _
  unfold gridOther
  split <;> omega

/-- The number, counted in a power of ten. -/
theorem value_eq_grid (hsign : x.isNegative = false) (step : Int) :
    x.value = (x.quanta * 10 ^ (-step).toNat : Nat) / (one * 10 ^ step.toNat : Nat) * 10 ^ step := by
  have hone := one_cast_pos.ne'
  rw [value_of_nonneg hsign, Decimal.ten_zpow]
  push_cast
  field_simp

theorem grid_den_pos (step : Int) : 0 < one * 10 ^ step.toNat :=
  Nat.mul_pos one_quanta_pos (Nat.pow_pos (by decide))

theorem grid_mono {m n : Nat} (h : m ≤ n) (step : Int) : (m : ℚ) * 10 ^ step ≤ n * 10 ^ step :=
  mul_le_mul_of_nonneg_right (Nat.cast_le.mpr h) (Decimal.ten_zpow_pos step).le

/-- A power of ten is a point of every finer grid. -/
theorem grid_pow {f : Nat} {s e : Int} (h : f + s = e) :
    ((10 ^ f : Nat) : ℚ) * 10 ^ s = 10 ^ e := by
  rw [Nat.cast_pow]
  exact Decimal.ten_pow_mul f h

/-- The number lies between its neighbours on a grid. -/
theorem gridFloor_bounds (hsign : x.isNegative = false) (step : Int) :
    (x.gridFloor step : ℚ) * 10 ^ step ≤ x.value
      ∧ x.value < ((x.gridFloor step + 1 : Nat) : ℚ) * 10 ^ step := by
  have hunit := Decimal.ten_zpow_pos step
  have hden := grid_den_pos step
  rw [value_eq_grid hsign step]
  unfold gridFloor
  generalize x.quanta * 10 ^ (-step).toNat = num
  generalize one * 10 ^ step.toNat = den at hden ⊢
  constructor
  · refine mul_le_mul_of_nonneg_right ?_ hunit.le
    rw [le_div_iff₀ (Nat.cast_pos.mpr hden)]
    exact_mod_cast Nat.div_mul_le_self num den
  · refine mul_lt_mul_of_pos_right ?_ hunit
    rw [div_lt_iff₀ (Nat.cast_pos.mpr hden)]
    exact_mod_cast Nat.lt_mul_of_div_lt (Nat.lt_succ_self _) hden

/-- Of the points of a grid the rounded one is the closest to the number. -/
theorem gridRound_closest (hsign : x.isNegative = false) (step : Int) (n : Nat) :
    |(x.gridRound step : ℚ) * 10 ^ step - x.value| ≤ |(n : ℚ) * 10 ^ step - x.value| := by
  have hunit := Decimal.ten_zpow_pos step
  have hden := grid_den_pos step
  rw [value_eq_grid hsign step]
  unfold gridRound
  generalize x.quanta * 10 ^ (-step).toNat = num
  generalize one * 10 ^ step.toNat = den at hden ⊢
  have hcast : (0 : ℚ) < den := Nat.cast_pos.mpr hden
  have hdistance : ∀ k : Nat, |(k : ℚ) * 10 ^ step - (num : ℚ) / den * 10 ^ step|
      = ((num : Int) - (k * den : Nat)).natAbs * (10 ^ step / den) := fun k => by
    rw [Nat.cast_natAbs, Int.cast_abs, ← abs_of_pos (div_pos hunit hcast), ← abs_mul, abs_sub_comm]
    congr 1
    push_cast
    field_simp
  rw [hdistance, hdistance]
  exact mul_le_mul_of_nonneg_right (Nat.cast_le.mpr (roundHalfEven_nearest num hden n))
    (div_pos hunit hcast).le

/-- The neighbour on the side of a point that rounds to the number rounds to it too, and it
is as close at least. -/
theorem exists_neighbour (hsign : x.isNegative = false) {step : Int} {m : Nat}
    (h : x.NearestTo (m * 10 ^ step)) :
    ∃ k, (k = x.gridFloor step ∨ k = x.gridFloor step + 1) ∧ x.NearestTo (k * 10 ^ step)
      ∧ |(k : ℚ) * 10 ^ step - x.value| ≤ |(m : ℚ) * 10 ^ step - x.value| := by
  have hself := nearestTo_value hsign
  obtain ⟨hlow, hhigh⟩ := gridFloor_bounds hsign step
  rcases Nat.lt_or_ge (x.gridFloor step) m with hlt | hle
  · have hgrid := grid_mono hlt step
    refine ⟨_, .inr rfl, hself.between h hsign hhigh.le hgrid, ?_⟩
    rw [abs_of_nonneg (by linarith), abs_of_nonneg (by linarith)]
    linarith
  · have hgrid := grid_mono hle step
    refine ⟨_, .inl rfl, h.between hself hsign hgrid hlow, ?_⟩
    rw [abs_of_nonpos (by linarith), abs_of_nonpos (by linarith)]
    linarith

/-- A neighbour of the number on a grid that rounds to the number, and the closest of the
points that do. -/
structure Taken (x : Binary64) (step : Int) (n : Nat) : Prop where
  neighbour : n = x.gridFloor step ∨ n = x.gridFloor step + 1
  nearest : x.NearestTo (n * 10 ^ step)
  closest : ∀ m : Nat, x.NearestTo (m * 10 ^ step) →
    |(n : ℚ) * 10 ^ step - x.value| ≤ |(m : ℚ) * 10 ^ step - x.value|

theorem holds_grid_iff (hsign : x.isNegative = false) (hzero : x.isZero = false) (step : Int)
    (n : Nat) :
    (ReadingInterval.around x).holds (n * (one * 10 ^ step.toNat)) (10 ^ (-step).toNat) = true
      ↔ x.NearestTo (n * 10 ^ step) := by
  refine holds_iff hsign hzero (Nat.pow_pos (by decide)) ?_
  rw [Nat.mul_left_comm, Nat.mul_comm one]
  exact toRat_mul_quanta ⟨n, step⟩

theorem identifiedOnGrid_eq (x : Binary64) (step : Int) : x.identifiedOnGrid step
    = if (ReadingInterval.around x).holds (x.gridRound step * (one * 10 ^ step.toNat))
          (10 ^ (-step).toNat) then some ⟨x.gridRound step, step⟩
      else if (ReadingInterval.around x).holds (x.gridOther step * (one * 10 ^ step.toNat))
          (10 ^ (-step).toNat) then some ⟨x.gridOther step, step⟩
      else none := rfl

/-- A grid gives its closest point that rounds to the number, or it has none. -/
theorem identifiedOnGrid_spec (hsign : x.isNegative = false) (hzero : x.isZero = false)
    (step : Int) :
    (∃ n, x.identifiedOnGrid step = some ⟨n, step⟩ ∧ x.Taken step n)
      ∨ x.identifiedOnGrid step = none ∧ ∀ n : Nat, ¬ x.NearestTo (n * 10 ^ step) := by
  have hfits := holds_grid_iff hsign hzero step
  have hgrid := identifiedOnGrid_eq x step
  have hneighbour : ∀ {m : Nat}, x.NearestTo (m * 10 ^ step) →
      ∃ k, (k = x.gridRound step ∨ k = x.gridOther step) ∧ x.NearestTo (k * 10 ^ step)
        ∧ |(k : ℚ) * 10 ^ step - x.value| ≤ |(m : ℚ) * 10 ^ step - x.value| := fun h => by
    simpa only [neighbour_iff] using exists_neighbour hsign h
  by_cases hround : x.NearestTo (x.gridRound step * 10 ^ step)
  · rw [if_pos ((hfits _).mpr hround)] at hgrid
    exact .inl ⟨_, hgrid, (neighbour_iff x step _).mpr (.inl rfl), hround,
      fun m _ => gridRound_closest hsign step m⟩
  · rw [if_neg (mt (hfits _).mp hround)] at hgrid
    by_cases hother : x.NearestTo (x.gridOther step * 10 ^ step)
    · rw [if_pos ((hfits _).mpr hother)] at hgrid
      refine .inl ⟨_, hgrid, (neighbour_iff x step _).mpr (.inr rfl), hother, fun m hm => ?_⟩
      obtain ⟨k, heq | heq, hk, hcloser⟩ := hneighbour hm
      · exact absurd (heq ▸ hk) hround
      · rwa [heq] at hcloser
    · rw [if_neg (mt (hfits _).mp hother)] at hgrid
      refine .inr ⟨hgrid, fun m hm => ?_⟩
      obtain ⟨k, heq | heq, hk, -⟩ := hneighbour hm
      · exact hround (heq ▸ hk)
      · exact hother (heq ▸ hk)

/-! ## The search -/

/-- What the search finds is on the first grid, of those that it looks at, that gives
anything. -/
theorem identifiedFrom_eq_some {leading : Int} {tries count : Nat} {d : Decimal}
    (h : x.identifiedFrom leading tries count = some d) :
    ∃ c : Nat, count ≤ c ∧ x.identifiedOnGrid (leading - c + 1) = some d
      ∧ ∀ k : Nat, count ≤ k → k < c → x.identifiedOnGrid (leading - k + 1) = none := by
  induction tries generalizing count with
  | zero => cases h
  | succ tries ih =>
    unfold identifiedFrom at h
    cases hgrid : x.identifiedOnGrid (leading - count + 1) with
    | some found =>
      rw [hgrid] at h
      exact ⟨count, le_rfl, hgrid.trans h, fun k hlow hlt => absurd hlt (Nat.not_lt_of_le hlow)⟩
    | none =>
      rw [hgrid] at h
      obtain ⟨c, hcount, hfound, hnone⟩ := ih h
      refine ⟨c, Nat.le_of_succ_le hcount, hfound, fun k hlow hlt => ?_⟩
      rcases Nat.eq_or_lt_of_le hlow with rfl | hless
      · exact hgrid
      · exact hnone k hless hlt

/-- The search finds something where a grid that it looks at gives anything. -/
theorem identifiedFrom_ne_none {leading : Int} {tries count c : Nat} (hlow : count ≤ c)
    (hlt : c < count + tries) (h : x.identifiedOnGrid (leading - c + 1) ≠ none) :
    x.identifiedFrom leading tries count ≠ none := by
  induction tries generalizing count with
  | zero => omega
  | succ tries ih =>
    unfold identifiedFrom
    cases hgrid : x.identifiedOnGrid (leading - count + 1) with
    | some found => exact Option.some_ne_none found
    | none =>
      refine ih (Nat.lt_of_le_of_ne hlow ?_) (by omega)
      rintro rfl
      exact h hgrid

/-! ## The decimal that is found -/

/-- A decimal that rounds to the number lies on the grid that has as many digits, or the
leading power of ten does and is closer. -/
theorem exists_gridPoint (hsign : x.isNegative = false) (hzero : x.isZero = false)
    {leading : Int} (hleast : (10 : ℚ) ^ leading ≤ x.value) {d : Decimal}
    (h : x.NearestTo d.toRat) :
    ∃ m : Nat, x.NearestTo (m * 10 ^ (leading - (Decimal.digits d.coefficient).length + 1))
      ∧ |(m : ℚ) * 10 ^ (leading - (Decimal.digits d.coefficient).length + 1) - x.value|
        ≤ |d.toRat - x.value| := by
  have hpos : 0 < d.coefficient := by
    refine Nat.pos_of_ne_zero fun hnone => (h.pos hsign hzero).ne' ?_
    rw [Decimal.toRat, hnone, Nat.cast_zero, zero_mul]
  rcases lt_or_ge d.leadingExponent leading with hlt | hle
  · -- the decimal is below the leading power of ten
    obtain ⟨f, hf⟩ : ∃ f, (Decimal.digits d.coefficient).length = f + 1 :=
      ⟨_, (Nat.succ_pred_eq_of_pos (Decimal.length_digits_pos _)).symm⟩
    have hpower : ((10 ^ f : Nat) : ℚ) * 10 ^ (leading - (f + 1 : Nat) + 1) = 10 ^ leading :=
      grid_pow (by omega)
    have hbelow : d.toRat < 10 ^ leading :=
      (Decimal.leading_bounds hpos).2.trans_le (zpow_le_zpow_right₀ (by norm_num) hlt)
    refine ⟨10 ^ f, ?_⟩
    rw [hf, hpower, abs_of_nonpos (by linarith), abs_of_nonpos (by linarith)]
    exact ⟨h.between (nearestTo_value hsign) hsign hbelow.le hleast, by linarith⟩
  · obtain ⟨z, hz⟩ : ∃ z : Nat,
        d.exponent = leading - (Decimal.digits d.coefficient).length + 1 + z := by
      unfold Decimal.leadingExponent at hle
      exact ⟨(d.exponent - (leading - (Decimal.digits d.coefficient).length + 1)).toNat, by omega⟩
    have hvalue : ((d.coefficient * 10 ^ z : Nat) : ℚ)
        * 10 ^ (leading - (Decimal.digits d.coefficient).length + 1) = d.toRat := by
      rw [Decimal.toRat]
      conv_rhs => rw [hz, zpow_add₀ (by norm_num), zpow_natCast]
      push_cast
      ring
    refine ⟨d.coefficient * 10 ^ z, ?_⟩
    rw [hvalue]
    exact ⟨h, le_rfl⟩

theorem toRat_toDecimal_of_nonneg (hsign : x.isNegative = false) :
    x.toDecimal.toRat = x.value := by
  rw [toRat_toDecimal, abs_value, value_of_nonneg hsign]

/-- The search ends on the grid of `f + 1` digits below the leading power of ten: there it
takes a point, and no coarser grid has one that rounds to the number. -/
structure EndsOn (x : Binary64) (leading : Int) (f n : Nat) : Prop where
  taken : x.Taken (leading - (f + 1 : Nat) + 1) n
  coarser : ∀ k : Nat, 1 ≤ k → k < f + 1 → ∀ m : Nat, ¬ x.NearestTo (m * 10 ^ (leading - k + 1))

/-- The search does not fail: the exact expansion is a point of the last grid. -/
theorem identifiedFrom_toDecimal_ne_none (hsign : x.isNegative = false)
    (hzero : x.isZero = false) :
    x.identifiedFrom x.toDecimal.leadingExponent
      (Decimal.digits x.toDecimal.coefficient).length 1 ≠ none := by
  have hlast : x.toDecimal.leadingExponent - (Decimal.digits x.toDecimal.coefficient).length + 1
      = x.toDecimal.exponent := by
    unfold Decimal.leadingExponent
    omega
  refine identifiedFrom_ne_none (Decimal.length_digits_pos x.toDecimal.coefficient) (by omega) ?_
  rw [hlast]
  rcases identifiedOnGrid_spec hsign hzero x.toDecimal.exponent with
    ⟨n, hsome, -⟩ | ⟨-, hnone⟩
  · rw [hsome]
    exact Option.some_ne_none _
  · refine absurd ?_ (hnone x.toDecimal.coefficient)
    rw [← Decimal.toRat, toRat_toDecimal_of_nonneg hsign]
    exact nearestTo_value hsign

/-- The shortest form is that of the point on which the search ends. -/
theorem exists_endsOn (hsign : x.isNegative = false) (hzero : x.isZero = false) :
    ∃ f n : Nat, x.EndsOn x.toDecimal.leadingExponent f n ∧ x.shortest
      = (⟨n, x.toDecimal.leadingExponent - (f + 1 : Nat) + 1⟩ : Decimal).toScientific := by
  have hspec := fun c : Nat =>
    identifiedOnGrid_spec hsign hzero (x.toDecimal.leadingExponent - c + 1)
  obtain ⟨d, hd⟩ :=
    Option.ne_none_iff_exists'.mp (identifiedFrom_toDecimal_ne_none hsign hzero)
  obtain ⟨c, hc, hgrid, hfirst⟩ := identifiedFrom_eq_some hd
  obtain ⟨f, rfl⟩ := Nat.exists_eq_succ_of_ne_zero (Nat.pos_iff_ne_zero.mp hc)
  rcases hspec (f + 1) with ⟨n, hsome, htaken⟩ | ⟨hnone, -⟩
  · obtain rfl : d = _ := Option.some.inj (hgrid.symm.trans hsome)
    refine ⟨f, n, ⟨htaken, fun k hk hkc m => ?_⟩, ?_⟩
    · rcases hspec k with ⟨n, hsome, -⟩ | ⟨-, hall⟩
      · rw [hfirst k hk hkc] at hsome
        cases hsome
      · exact hall m
    · unfold shortest
      dsimp only
      rw [hd, Option.getD_some]
  · rw [hnone] at hgrid
    cases hgrid

namespace EndsOn

variable {leading : Int} {f n : Nat}

/-- The point has as many digits as its grid, or it is the power of ten after these. -/
theorem bounds (hsign : x.isNegative = false) (hleast : (10 : ℚ) ^ leading ≤ x.value)
    (hbelow : x.value < 10 ^ (leading + 1)) (h : x.EndsOn leading f n) :
    10 ^ f ≤ n ∧ n ≤ 10 ^ (f + 1) := by
  obtain ⟨hlow, hhigh⟩ := gridFloor_bounds hsign (leading - (f + 1 : Nat) + 1)
  have hunit := (Decimal.ten_zpow_pos (leading - (f + 1 : Nat) + 1)).le
  rw [← grid_pow (f := f) (s := leading - (f + 1 : Nat) + 1) (by omega)] at hleast
  rw [← grid_pow (f := f + 1) (s := leading - (f + 1 : Nat) + 1) (by omega)] at hbelow
  have hleast := Nat.cast_lt.mp (lt_of_mul_lt_mul_right (hleast.trans_lt hhigh) hunit)
  have hbelow := Nat.cast_lt.mp (lt_of_mul_lt_mul_right (hlow.trans_lt hbelow) hunit)
  have hneighbour := h.taken.neighbour
  omega

/-- Digits that carry into the next power of ten are one digit on the coarsest grid, so
they are not looked for on a finer one. -/
theorem length_le (h : x.EndsOn leading f n) (hhigh : n ≤ 10 ^ (f + 1)) :
    (Decimal.significantDigits n).length ≤ f + 1 := by
  rcases Nat.lt_or_eq_of_le hhigh with hless | rfl
  · exact (Decimal.length_significantDigits_le n).trans
      ((Decimal.length_digits_le_iff n f).mpr hless)
  · cases f with
    | zero => decide +kernel
    | succ f =>
      refine absurd ?_ (h.coarser 1 le_rfl (by omega) (10 ^ 1))
      have hpower : ((10 ^ 1 : Nat) : ℚ) * 10 ^ (leading - (1 : Nat) + 1)
          = (10 ^ (f + 1 + 1) : Nat) * 10 ^ (leading - (f + 1 + 1 : Nat) + 1) :=
        (grid_pow (e := leading + 1) (by omega)).trans (grid_pow (by omega)).symm
      rw [hpower]
      exact h.taken.nearest

/-- A decimal that rounds to the number has as many digits as the grid at least. -/
theorem le_length (hsign : x.isNegative = false) (hzero : x.isZero = false)
    (hleast : (10 : ℚ) ^ leading ≤ x.value) (h : x.EndsOn leading f n) {d : Decimal}
    (hd : x.NearestTo d.toRat) : f + 1 ≤ (Decimal.digits d.coefficient).length := by
  by_contra hlt
  obtain ⟨m, hm, -⟩ := exists_gridPoint hsign hzero hleast hd
  exact h.coarser _ (Decimal.length_digits_pos _) (Nat.lt_of_not_le hlt) m hm

/-- Of the decimals with that many digits which round to the number none is closer. -/
theorem closest (hsign : x.isNegative = false) (hzero : x.isZero = false)
    (hleast : (10 : ℚ) ^ leading ≤ x.value) (h : x.EndsOn leading f n) {d : Decimal}
    (hd : x.NearestTo d.toRat) (hlength : (Decimal.digits d.coefficient).length = f + 1) :
    |(n : ℚ) * 10 ^ (leading - (f + 1 : Nat) + 1) - x.value| ≤ |d.toRat - x.value| := by
  obtain ⟨m, hm, hcloser⟩ := exists_gridPoint hsign hzero hleast hd
  rw [hlength] at hm hcloser
  exact (h.taken.closest m hm).trans hcloser

end EndsOn

/-- The search gives a shortest decimal. -/
theorem shortestFor_shortest (hsign : x.isNegative = false) (hzero : x.isZero = false) :
    x.shortest.ShortestFor x := by
  obtain ⟨f, n, hends, hform⟩ := exists_endsOn hsign hzero
  obtain ⟨hleast, hbelow⟩ := Decimal.leading_bounds (coefficient_pos hzero)
  rw [toRat_toDecimal_of_nonneg hsign] at hleast hbelow
  obtain ⟨hlow, hhigh⟩ := hends.bounds hsign hleast hbelow
  have hdigits : x.shortest.digits = Decimal.significantDigits n := by
    rw [hform]
    rfl
  have hvalue : x.shortest.value.toRat
      = n * 10 ^ (x.toDecimal.leadingExponent - (f + 1 : Nat) + 1) := by
    rw [hform, Decimal.toRat_value_toScientific]
    rfl
  have hlength := hends.length_le hhigh
  rw [← hdigits] at hlength
  refine ⟨?_, ?_, ?_, fun d hd => ?_, fun d hd hsame => ?_⟩
  · rw [hdigits]
    exact fun c => Decimal.isDigit_of_mem_significantDigits
  · rw [hdigits]
    exact Decimal.exists_significantDigits (Nat.lt_of_lt_of_le (Nat.pow_pos (by decide)) hlow)
  · rw [hvalue]
    exact hends.taken.nearest
  · exact hlength.trans (hends.le_length hsign hzero hleast hd)
  · rw [hvalue]
    exact hends.closest hsign hzero hleast hd
      (Nat.le_antisymm (hsame.trans_le hlength) (hends.le_length hsign hzero hleast hd))

end

end Binary64

/-- The printer that searches for the shortest form prints the shortest decimals. -/
theorem Printer.shortest_printsShortest : @Printer.PrintsShortest Printer.shortest := by
  intro x _ hpos
  obtain ⟨hsign, hzero⟩ := Binary64.of_value_pos hpos
  exact ⟨x.shortest, Binary64.shortestFor_shortest hsign hzero, rfl⟩

end ScriptRealm
