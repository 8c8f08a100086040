import ScriptRealm.Number.Decimal
import ScriptRealm.Proofs.Number.Rounding

/-!
# Reading — which decimals a number is read from

A finite number is a representable count of quanta (`representable_quanta`),
and the datum of that count is the number (`ofQuanta_quanta`). Below `2^1024`
every representable count is that of a number (`quanta_ofMagnitude`).

`ofDecimal` is the rounding of the value that the decimal has, also where it
answers without writing the power of ten out (`ofDecimal_eq`). So decimals of
one value read as one number (`ofDecimal_mul_pow`).
-/

namespace ScriptRealm.Binary64

/-! ## A number as a count -/

theorem magnitude_lt (x : Binary64) : x.magnitude < 2 ^ 63 := Nat.mod_lt _ (Nat.two_pow_pos 63)

/-- A datum is its sign and its magnitude. -/
theorem ofMagnitude_magnitude (x : Binary64) : ofMagnitude x.isNegative x.magnitude = x := by
  obtain ⟨bits⟩ := x
  have hbits := bits.toNat_lt
  unfold ofMagnitude isNegative magnitude
  congr 1
  refine UInt64.toNat_inj.mp ?_
  rw [UInt64.toNat_ofNat']
  simp only [decide_eq_true_eq, Nat.pow_eq]
  split <;> omega

theorem toNat_ofMagnitude {m : Nat} (negative : Bool) (h : m < 2 ^ 63) :
    (ofMagnitude negative m).bits.toNat = (if negative then 2 ^ 63 else 0) + m := by
  unfold ofMagnitude
  rw [UInt64.toNat_ofNat']
  simp only [Nat.pow_eq]
  split <;> omega

theorem magnitude_ofMagnitude {m : Nat} (negative : Bool) (h : m < 2 ^ 63) :
    (ofMagnitude negative m).magnitude = m := by
  unfold magnitude
  rw [toNat_ofMagnitude negative h]
  simp only [Nat.pow_eq]
  split <;> omega

theorem isNegative_ofMagnitude {m : Nat} (negative : Bool) (h : m < 2 ^ 63) :
    (ofMagnitude negative m).isNegative = negative := by
  unfold isNegative
  rw [toNat_ofMagnitude negative h]
  simp only [Nat.pow_eq]
  cases negative with
  | false => exact decide_eq_false (by simpa using h)
  | true => exact decide_eq_true (Nat.le_add_right _ _)

theorem significand_lt (x : Binary64) : x.significand < 2 ^ 53 := by
  unfold significand
  simp only [Nat.pow_eq]
  split <;> omega

/-- Only subnormal numbers lack the leading bit, and they have the least unit. -/
theorem scale_eq_zero_or (x : Binary64) : x.scale = 0 ∨ 2 ^ 52 ≤ x.significand := by
  unfold scale significand
  simp only [Nat.pow_eq]
  split <;> omega

theorem quanta_eq (x : Binary64) : x.quanta = x.significand * 2 ^ x.scale := rfl

theorem representable_quanta (x : Binary64) : Representable x.quanta :=
  ⟨x.significand, x.scale, x.significand_lt, rfl⟩

theorem excessBits_quanta (x : Binary64) : excessBits x.quanta = x.scale := by
  rw [quanta_eq]
  refine excessBits_eq (x.scale_eq_zero_or.imp_right fun h => ?_) ?_
  · rw [Nat.pow_add]
    exact Nat.mul_le_mul_right _ h
  · rw [Nat.pow_add]
    exact Nat.mul_lt_mul_of_pos_right x.significand_lt (Nat.two_pow_pos _)

/-- The count of a finite number has the magnitude of the number. -/
theorem magnitudeOfQuanta_quanta {x : Binary64} (h : x.isFinite = true) :
    magnitudeOfQuanta x.quanta = x.magnitude := by
  have hfinite : x.magnitude < infiniteMagnitude := of_decide_eq_true h
  unfold magnitudeOfQuanta
  simp only [Nat.pow_eq]
  rw [excessBits_quanta, quanta_eq, Nat.mul_div_cancel _ (Nat.two_pow_pos _)]
  suffices x.scale * 2 ^ 52 + x.significand = x.magnitude by
    rw [this]
    exact Nat.min_eq_right (Nat.le_of_lt hfinite)
  unfold scale significand
  simp only [Nat.pow_eq]
  split <;> omega

theorem quanta_absolute (x : Binary64) : x.absolute.quanta = x.quanta := by
  have hmagnitude := magnitude_ofMagnitude false x.magnitude_lt
  unfold quanta significand scale absolute
  rw [hmagnitude]

theorem isFinite_absolute (x : Binary64) : x.absolute.isFinite = x.isFinite := by
  have hmagnitude := magnitude_ofMagnitude false x.magnitude_lt
  unfold isFinite absolute
  rw [hmagnitude]

/-- What rounds to the count of a finite number reads as the number. -/
theorem ofQuanta_eq_of_roundQuanta {x : Binary64} {num den : Nat} (h : x.isFinite = true)
    (hround : roundQuanta num den = x.quanta) : ofQuanta x.isNegative num den = x := by
  unfold ofQuanta
  rw [hround, magnitudeOfQuanta_quanta h, ofMagnitude_magnitude]

/-- The count of a finite number reads as the number. -/
theorem ofQuanta_quanta {x : Binary64} {den : Nat} (h : x.isFinite = true) (hden : 0 < den) :
    ofQuanta x.isNegative (x.quanta * den) den = x :=
  ofQuanta_eq_of_roundQuanta h (roundQuanta_of_representable hden x.representable_quanta)

/-! ## Whole parts -/

theorem one_quanta_eq : one = 2 ^ 1074 := by decide +kernel

theorem one_quanta_pos : 0 < one := by
  have hpow : ∀ k, 0 < Nat.pow 2 k := Nat.two_pow_pos
  unfold one
  exact hpow 1074

/-- A whole number of at most 53 significant bits is a representable count of quanta. -/
theorem Representable.whole {n : Nat} (h : Representable n) : Representable (n * one) := by
  rw [one_quanta_eq]
  exact h.mul_two_pow 1074

theorem representable_wholePart (x : Binary64) : Representable x.wholePart := by
  unfold wholePart
  rw [one_quanta_eq]
  exact x.representable_quanta.div_two_pow 1074

theorem wholePart_lt {x : Binary64} (h : x.isFinite = true) : x.wholePart < 2 ^ 1024 := by
  have hfinite : x.magnitude < infiniteMagnitude := of_decide_eq_true h
  have hscale : x.scale ≤ 2045 := by
    unfold scale
    unfold infiniteMagnitude at hfinite
    simp only [Nat.pow_eq] at hfinite ⊢
    omega
  have hquanta : ∀ e, x.scale ≤ e → x.quanta < 2 ^ 53 * 2 ^ e := fun e he =>
    calc x.quanta < 2 ^ 53 * 2 ^ x.scale :=
          Nat.mul_lt_mul_of_pos_right x.significand_lt (Nat.two_pow_pos _)
      _ ≤ 2 ^ 53 * 2 ^ e := Nat.mul_le_mul_left _ (Nat.pow_le_pow_right (by decide) he)
  have hlargest : 2 ^ 1024 * one = 2 ^ 53 * 2 ^ 2045 := by decide +kernel
  unfold wholePart
  rw [Nat.div_lt_iff_lt_mul one_quanta_pos, hlargest]
  exact hquanta 2045 hscale

/-! ## The number of a count -/

theorem magnitudeOfQuanta_le (n : Nat) : magnitudeOfQuanta n ≤ infiniteMagnitude :=
  Nat.min_le_left _ _

theorem magnitudeOfQuanta_units {m s : Nat} (hlow : 2 ^ 52 ≤ m) (hhigh : m < 2 ^ 53) :
    magnitudeOfQuanta (m * 2 ^ s) = min infiniteMagnitude (s * 2 ^ 52 + m) := by
  unfold magnitudeOfQuanta
  simp only [Nat.pow_eq]
  rw [excessBits_units hlow hhigh, Nat.mul_div_cancel _ (Nat.two_pow_pos s)]

/-- Counts from `2^1024` on are past the largest finite number. -/
theorem magnitudeOfQuanta_of_le {n : Nat} (h : 2 ^ 1024 * one ≤ n) :
    magnitudeOfQuanta n = infiniteMagnitude := by
  rw [one_quanta_eq, ← pow_add, show 1024 + 1074 = 52 + 2046 from rfl] at h
  have hbits : 2046 ≤ excessBits n := le_excessBits (e := 2046) h
  have hlead : 2 ^ 52 ≤ n / 2 ^ excessBits n := by
    rw [Nat.le_div_iff_mul_le (Nat.two_pow_pos _), ← Nat.pow_add]
    exact le_of_excessBits (by omega)
  unfold magnitudeOfQuanta infiniteMagnitude
  simp only [Nat.pow_eq]
  refine Nat.min_eq_left ?_
  have := Nat.mul_le_mul_right (2 ^ 52) hbits
  omega

/-- The magnitude of a representable count below `2^1024` is that of a finite number with
the count. -/
theorem quanta_ofMagnitude (negative : Bool) {n : Nat} (h : Representable n)
    (hlt : n < 2 ^ 1024 * one) :
    (ofMagnitude negative (magnitudeOfQuanta n)).isFinite = true
      ∧ (ofMagnitude negative (magnitudeOfQuanta n)).quanta = n := by
  have hmagnitude : (ofMagnitude negative (magnitudeOfQuanta n)).magnitude = magnitudeOfQuanta n :=
    magnitude_ofMagnitude negative ((magnitudeOfQuanta_le n).trans_lt (by decide))
  unfold isFinite quanta significand scale
  rw [hmagnitude]
  rcases h.cases with hsmall | ⟨m, s, hlow, hhigh, rfl⟩
  · -- a subnormal number is its magnitude
    have hself : magnitudeOfQuanta n = n := by
      unfold magnitudeOfQuanta
      rw [excessBits_eq (.inl rfl) (by omega)]
      unfold infiniteMagnitude
      simp only [Nat.pow_eq]
      omega
    rw [hself]
    unfold infiniteMagnitude
    simp only [Nat.pow_eq, decide_eq_true_eq, if_pos hsmall]
    rw [Nat.div_eq_of_lt hsmall]
    exact ⟨by omega, Nat.mul_one n⟩
  · have hbelow : ∀ e, m * 2 ^ s < 2 ^ (52 + e) → s < e := fun e h => by
      have hpow := (Nat.mul_le_mul_right (2 ^ s) hlow).trans_lt h
      rw [← Nat.pow_add, Nat.pow_lt_pow_iff_right (by decide)] at hpow
      omega
    rw [one_quanta_eq, ← pow_add, show 1024 + 1074 = 52 + 2046 from rfl] at hlt
    have hs : s < 2046 := hbelow 2046 hlt
    have hself : magnitudeOfQuanta (m * 2 ^ s) = s * 2 ^ 52 + m := by
      rw [magnitudeOfQuanta_units hlow hhigh]
      unfold infiniteMagnitude
      simp only [Nat.pow_eq]
      omega
    have hscale : (s * 2 ^ 52 + m) / 2 ^ 52 - 1 = s := by omega
    have hsignificand : 2 ^ 52 + (s * 2 ^ 52 + m) % 2 ^ 52 = m := by omega
    rw [hself]
    unfold infiniteMagnitude
    simp only [Nat.pow_eq, decide_eq_true_eq]
    rw [if_neg (by omega), hscale, hsignificand]
    exact ⟨by omega, rfl⟩

/-! ## Decimals -/

/-- A ratio below one half rounds to nothing. -/
theorem roundQuanta_eq_zero {num den : Nat} (h : 2 * num < den) : roundQuanta num den = 0 := by
  have hunit : den * 2 ^ 0 = den := by rw [Nat.pow_zero, Nat.mul_one]
  rw [roundQuanta_of_units (m := 0) (s := 0) (by omega), Nat.zero_mul]
  · exact excessBits_div_eq (by omega) (.inl rfl) (by omega)
  · omega
  · omega
  · exact .inl rfl

/-- A power of ten is above the power of two of the threefold exponent. -/
theorem two_pow_le_ten_pow {j k : Nat} (h : j ≤ 3 * k) : 2 ^ j ≤ 10 ^ k :=
  calc 2 ^ j ≤ 2 ^ (3 * k) := Nat.pow_le_pow_right (by decide) h
    _ = 8 ^ k := Nat.pow_mul ..
    _ ≤ 10 ^ k := Nat.pow_le_pow_left (by decide) k

/-- An exponent above 400 puts every decimal past the largest finite number. -/
theorem ofQuanta_of_huge (negative : Bool) {c e : Nat} (hc : c ≠ 0) (he : 400 < e) :
    ofQuanta negative (c * 10 ^ e * one) 1 = infinity negative := by
  have hpow := two_pow_le_ten_pow (j := 1024) (k := e) (by omega)
  have hvalue := Nat.mul_le_mul_right one
    (hpow.trans (Nat.le_mul_of_pos_left _ (Nat.pos_of_ne_zero hc)))
  unfold ofQuanta infinity
  rw [magnitudeOfQuanta_of_le
    (le_roundQuanta (by decide) (Representable.two_pow 1024).whole (by rwa [Nat.mul_one]))]

/-- A decimal with that many places is under half of the least positive number. -/
theorem ofQuanta_of_tiny (negative : Bool) {c places : Nat}
    (h : c.log2 + 1076 ≤ 3 * places) :
    ofQuanta negative (c * one) (10 ^ places) = ofMagnitude negative 0 := by
  have hbelow : ∀ j u, u = 2 ^ j → c.log2 + 1 + j ≤ 3 * places → c * u < 10 ^ places := by
    rintro j u rfl hj
    calc c * 2 ^ j < 2 ^ (c.log2 + 1) * 2 ^ j :=
          Nat.mul_lt_mul_of_pos_right Nat.lt_log2_self (Nat.two_pow_pos j)
      _ = 2 ^ (c.log2 + 1 + j) := (Nat.pow_add ..).symm
      _ ≤ 10 ^ places := two_pow_le_ten_pow hj
  have hhalf : 2 * (c * one) < 10 ^ places := by
    rw [Nat.mul_left_comm]
    exact hbelow 1075 (2 * one) (by decide +kernel) (by omega)
  unfold ofQuanta
  rw [roundQuanta_eq_zero hhalf]
  rfl

/-- A number is read from a decimal by one rounding of the decimal's value. -/
theorem ofDecimal_eq (negative : Bool) (d : Decimal) :
    ofDecimal negative d = ofQuanta negative (d.coefficient * 10 ^ d.exponent.toNat * one)
      (10 ^ (-d.exponent).toNat) := by
  unfold ofDecimal
  split
  · rename_i hzero
    unfold ofQuanta
    rw [hzero, Nat.zero_mul, Nat.zero_mul, roundQuanta_eq_zero (Nat.pow_pos (by decide))]
    rfl
  · rename_i hpos
    split
    · rename_i hexp
      rw [show (-d.exponent).toNat = 0 by omega, Nat.pow_zero]
      split
      · rename_i hlarge
        exact (ofQuanta_of_huge negative hpos (by omega)).symm
      · rfl
    · rename_i hexp
      rw [show d.exponent.toNat = 0 by omega, Nat.pow_zero, Nat.mul_one]
      dsimp only
      split
      · rename_i hsmall
        exact (ofQuanta_of_tiny negative hsmall).symm
      · rfl

/-- Zeros moved between coefficient and exponent do not change what is read. -/
theorem ofDecimal_mul_pow (negative : Bool) (c z : Nat) (e : Int) :
    ofDecimal negative ⟨c * 10 ^ z, e⟩ = ofDecimal negative ⟨c, e + z⟩ := by
  rw [ofDecimal_eq, ofDecimal_eq]
  unfold ofQuanta
  rw [roundQuanta_congr (Nat.pow_pos (show 0 < 10 by decide))
    (Nat.pow_pos (show 0 < 10 by decide))]
  have hpow : ∀ a b, c * 10 ^ a * one * 10 ^ b = c * one * 10 ^ (a + b) := fun a b => by
    rw [Nat.pow_add]
    ring
  dsimp only
  rw [hpow, Nat.mul_assoc c, ← Nat.pow_add, hpow]
  congr 2
  omega

end ScriptRealm.Binary64
