import Mathlib.Tactic.Ring
import ScriptRealm.Number.Rounding

/-!
# Rounding — which number a ratio reads as

`roundQuanta` takes the ratio of two natural numbers, counted in quanta, to
the nearest count that 53 significant bits hold (`Representable`), and of two
equally near to the even one (`roundQuanta_nearest`, `roundQuanta_tie`). It
depends on the ratio alone (`roundQuanta_mul`) and leaves representable counts
as they are (`roundQuanta_of_representable`).

Turned around, the ratios within half a gap of a representable count are
rounded to it (`roundQuanta_near`). A whole count is taken apart at the unit of
its last kept bit, and what lies above full units decides (`roundQuanta_parts`).
-/

namespace ScriptRealm.Binary64

/-! ## The nearest integer -/

/-- Two multiples of a number are the same, or one is larger by that number at
least. -/
theorem mul_trichotomy (m n d : Nat) :
    m * d + d ≤ n * d ∨ m = n ∨ n * d + d ≤ m * d := by
  rcases Nat.lt_trichotomy m n with h | h | h
  · exact .inl (by have := Nat.mul_le_mul_right d h; rwa [Nat.succ_mul] at this)
  · exact .inr (.inl h)
  · exact .inr (.inr (by have := Nat.mul_le_mul_right d h; rwa [Nat.succ_mul] at this))

/-- An integer that is within a half of the ratio, or at a half and even, is the
rounded one. -/
theorem roundHalfEven_eq {num den n : Nat} (hden : 0 < den)
    (hlow : 2 * (n * den) ≤ 2 * num + den) (hhigh : 2 * num ≤ 2 * (n * den) + den)
    (htie : n % 2 = 0 ∨ 2 * (n * den) < 2 * num + den ∧ 2 * num < 2 * (n * den) + den) :
    roundHalfEven num den = n := by
  have hnum := Nat.div_add_mod' num den
  have hrest := Nat.mod_lt num hden
  unfold roundHalfEven
  dsimp only
  rcases mul_trichotomy n (num / den) den with h | rfl | h
  · -- the ratio is at least one larger
    omega
  · split
    · rfl
    · split
      · omega
      · omega
  · have hnext : n = num / den + 1 := by
      rcases mul_trichotomy n (num / den + 1) den with h' | h' | h'
      · rw [Nat.succ_mul] at h'
        omega
      · exact h'
      · rw [Nat.succ_mul] at h'
        omega
    subst hnext
    rw [Nat.succ_mul] at hlow hhigh htie
    split
    · omega
    · split
      · rfl
      · omega

/-- The rounded integer is within a half of the ratio. -/
theorem roundHalfEven_bounds (num : Nat) {den : Nat} (hden : 0 < den) :
    2 * (roundHalfEven num den * den) ≤ 2 * num + den
      ∧ 2 * num ≤ 2 * (roundHalfEven num den * den) + den := by
  have hnum := Nat.div_add_mod' num den
  have hrest := Nat.mod_lt num hden
  have hsucc := Nat.succ_mul (num / den) den
  unfold roundHalfEven
  dsimp only
  split
  · omega
  · split
    · rw [hsucc]
      omega
    · rcases Nat.mod_two_eq_zero_or_one (num / den) with h | h <;> rw [h]
      · rw [Nat.add_zero]
        omega
      · rw [hsucc]
        omega

/-- At a half the rounded integer is even. -/
theorem roundHalfEven_even (num : Nat) {den : Nat} (hden : 0 < den)
    (hhalf : 2 * num = 2 * (roundHalfEven num den * den) + den
      ∨ 2 * (roundHalfEven num den * den) = 2 * num + den) : roundHalfEven num den % 2 = 0 := by
  have hnum := Nat.div_add_mod' num den
  have hrest := Nat.mod_lt num hden
  have hsucc := Nat.succ_mul (num / den) den
  unfold roundHalfEven at hhalf ⊢
  dsimp only at hhalf ⊢
  split at hhalf
  · omega
  · split at hhalf
    · rw [hsucc] at hhalf
      omega
    · rename_i h h'
      rw [if_neg h, if_neg h']
      omega

/-- No integer is nearer to the ratio than the rounded one. -/
theorem roundHalfEven_nearest (num : Nat) {den : Nat} (hden : 0 < den) (n : Nat) :
    ((num : Int) - (roundHalfEven num den * den : Nat)).natAbs
      ≤ ((num : Int) - (n * den : Nat)).natAbs := by
  have hhalf := roundHalfEven_bounds num hden
  rcases mul_trichotomy (roundHalfEven num den) n den with h | rfl | h <;> omega

/-- Every other integer is at least half an integer away. -/
theorem roundHalfEven_far (num : Nat) {den n : Nat} (hden : 0 < den)
    (hn : n ≠ roundHalfEven num den) :
    den ≤ 2 * ((num : Int) - (n * den : Nat)).natAbs := by
  have hhalf := roundHalfEven_bounds num hden
  rcases mul_trichotomy (roundHalfEven num den) n den with h | h | h
  · omega
  · exact absurd h.symm hn
  · omega

/-- A ratio below an integer rounds to that integer at most. -/
theorem roundHalfEven_le {num den n : Nat} (hden : 0 < den) (h : num < n * den) :
    roundHalfEven num den ≤ n := by
  refine Nat.le_of_not_lt fun hlt => ?_
  have hround := (roundHalfEven_bounds num hden).1
  have := Nat.mul_le_mul_right den hlt
  rw [Nat.succ_mul] at this
  omega

theorem roundHalfEven_of_eq {num den n : Nat} (hden : 0 < den) (h : num = n * den) :
    roundHalfEven num den = n :=
  roundHalfEven_eq hden (by omega) (by omega) (.inr (by omega))

theorem roundHalfEven_mul (num den : Nat) {k : Nat} (hk : 0 < k) :
    roundHalfEven (num * k) (den * k) = roundHalfEven num den := by
  unfold roundHalfEven
  rw [Nat.mul_div_mul_right _ _ hk, Nat.mul_mod_mul_right]
  have hlt : ∀ a b : Nat, 2 * (a * k) < b * k ↔ 2 * a < b := fun a b => by
    rw [← Nat.mul_assoc]
    exact Nat.mul_lt_mul_right hk
  have hgt : ∀ a b : Nat, b * k < 2 * (a * k) ↔ b < 2 * a := fun a b => by
    rw [← Nat.mul_assoc]
    exact Nat.mul_lt_mul_right hk
  simp only [hlt, hgt]

/-! ## Representable counts -/

/-- A count of quanta that 53 significant bits hold. -/
def Representable (n : Nat) : Prop := ∃ m s, m < 2 ^ 53 ∧ n = m * 2 ^ s

theorem Representable.of_lt {n : Nat} (h : n < 2 ^ 53) : Representable n := ⟨n, 0, h, by simp⟩

theorem Representable.mul_two_pow {n : Nat} (h : Representable n) (k : Nat) :
    Representable (n * 2 ^ k) := by
  obtain ⟨m, s, hm, rfl⟩ := h
  exact ⟨m, s + k, hm, by rw [Nat.pow_add, Nat.mul_assoc]⟩

/-- The bits below a place are representable with the whole. -/
theorem Representable.mod_two_pow {n : Nat} (h : Representable n) (k : Nat) :
    Representable (n % 2 ^ k) := by
  obtain ⟨m, s, hm, rfl⟩ := h
  rcases Nat.le_total k s with hk | hk
  · rw [Nat.mod_eq_zero_of_dvd ((Nat.pow_dvd_pow 2 hk).mul_left m)]
    exact .of_lt (by decide)
  · rw [← Nat.sub_add_cancel hk, Nat.pow_add, Nat.mul_mod_mul_right]
    exact ⟨_, s, Nat.lt_of_le_of_lt (Nat.mod_le _ _) hm, rfl⟩

/-- The bits from a place on are representable with the whole. -/
theorem Representable.div_two_pow {n : Nat} (h : Representable n) (k : Nat) :
    Representable (n / 2 ^ k) := by
  obtain ⟨m, s, hm, rfl⟩ := h
  rcases Nat.le_total k s with hk | hk
  · rw [← Nat.sub_add_cancel hk, Nat.pow_add, ← Nat.mul_assoc,
      Nat.mul_div_cancel _ (Nat.two_pow_pos k)]
    exact ⟨m, s - k, hm, rfl⟩
  · rw [← Nat.sub_add_cancel hk, Nat.pow_add, Nat.mul_div_mul_right _ _ (Nat.two_pow_pos s)]
    exact .of_lt (Nat.lt_of_le_of_lt (Nat.div_le_self _ _) hm)

theorem Representable.two_pow (k : Nat) : Representable (2 ^ k) := ⟨1, k, by decide, by simp⟩

theorem Representable.of_le {n : Nat} (h : n ≤ 2 ^ 53) : Representable n := by
  rcases Nat.lt_or_eq_of_le h with h | rfl
  · exact .of_lt h
  · exact .two_pow 53

/-- A count below a power of two has no more excess bits than that gives. -/
theorem excessBits_le {n e : Nat} (h : n < 2 ^ (53 + e)) : excessBits n ≤ e := by
  by_cases hn : n = 0
  · rw [hn]
    exact Nat.zero_le _
  · have := (Nat.log2_lt hn).mpr h
    unfold excessBits
    omega

/-- A count that reaches a power of two has the excess bits that it gives. -/
theorem le_excessBits {n e : Nat} (h : 2 ^ (52 + e) ≤ n) : e ≤ excessBits n := by
  have hn : n ≠ 0 := by
    have := Nat.two_pow_pos (52 + e)
    omega
  have := (Nat.le_log2 hn).mpr h
  unfold excessBits
  omega

/-- Between two neighbouring powers of two the excess bits are known. -/
theorem excessBits_eq {n e : Nat} (hlow : e = 0 ∨ 2 ^ (52 + e) ≤ n) (hhigh : n < 2 ^ (53 + e)) :
    excessBits n = e := by
  refine Nat.le_antisymm (excessBits_le hhigh) ?_
  rcases hlow with rfl | hlow
  · exact Nat.zero_le _
  · exact le_excessBits hlow

/-- A count lies below the power of two that its excess bits give. -/
theorem lt_of_excessBits (n : Nat) : n < 2 ^ (53 + excessBits n) := by
  by_cases hn : n = 0
  · rw [hn]
    exact Nat.two_pow_pos _
  · refine (Nat.log2_lt hn).mp ?_
    unfold excessBits
    omega

/-- A count with excess bits is at least the power of two that they give. -/
theorem le_of_excessBits {n : Nat} (h : excessBits n ≠ 0) : 2 ^ (52 + excessBits n) ≤ n := by
  have hn : n ≠ 0 := by
    rintro rfl
    exact h rfl
  refine (Nat.le_log2 hn).mp ?_
  unfold excessBits at h ⊢
  omega

/-- A representable count is a whole number of the units that its excess bits
give. -/
theorem Representable.two_pow_dvd {n : Nat} (h : Representable n) : 2 ^ excessBits n ∣ n := by
  obtain ⟨m, s, hm, rfl⟩ := h
  by_cases hs : excessBits (m * 2 ^ s) ≤ s
  · exact (Nat.pow_dvd_pow 2 hs).mul_left m
  · have hle := le_of_excessBits (n := m * 2 ^ s) (by omega)
    have hpow : 2 ^ (53 + s) ≤ 2 ^ (52 + excessBits (m * 2 ^ s)) :=
      Nat.pow_le_pow_right (by decide) (by omega)
    have hlt : m * 2 ^ s < 2 ^ (53 + s) := by
      rw [Nat.pow_add]
      exact Nat.mul_lt_mul_of_pos_right hm (Nat.two_pow_pos s)
    omega

/-! ## The nearest representable count -/

theorem roundQuanta_eq (num den : Nat) :
    roundQuanta num den = roundHalfEven num (den * 2 ^ excessBits (num / den))
      * 2 ^ excessBits (num / den) := rfl

/-- The rounding depends on the ratio alone. -/
theorem roundQuanta_mul (num den : Nat) {k : Nat} (hk : 0 < k) :
    roundQuanta (num * k) (den * k) = roundQuanta num den := by
  rw [roundQuanta_eq, roundQuanta_eq, Nat.mul_div_mul_right _ _ hk, Nat.mul_right_comm den k,
    roundHalfEven_mul _ _ hk]

/-- Equal ratios round to one count. -/
theorem roundQuanta_congr {num den num' den' : Nat} (hden : 0 < den) (hden' : 0 < den')
    (h : num * den' = num' * den) : roundQuanta num den = roundQuanta num' den' := by
  rw [← roundQuanta_mul num den hden', h, Nat.mul_comm den, roundQuanta_mul num' den' hden]

theorem roundQuanta_of_representable {n den : Nat} (hden : 0 < den) (hn : Representable n) :
    roundQuanta (n * den) den = n := by
  obtain ⟨c, hc⟩ := hn.two_pow_dvd
  rw [roundQuanta_eq, Nat.mul_div_cancel _ hden]
  rw [roundHalfEven_of_eq (n := c) (Nat.mul_pos hden (Nat.two_pow_pos _))]
  · rw [Nat.mul_comm, ← hc]
  · conv_lhs => rw [hc]
    ring

theorem roundQuanta_one {n : Nat} (hn : Representable n) : roundQuanta n 1 = n := by
  have hround := roundQuanta_of_representable Nat.one_pos hn
  rwa [Nat.mul_one] at hround

/-- A representable count that is not a whole number of units is below all counts
that have those units. -/
theorem Representable.le_of_not_dvd {k e : Nat} (hk : Representable k) (hdvd : ¬ 2 ^ e ∣ k) :
    k ≤ 2 ^ (52 + e) := by
  obtain ⟨m, s, hm, rfl⟩ := hk
  have hs : s + 1 ≤ e := by
    refine Nat.lt_of_not_le fun hle => hdvd ?_
    exact (Nat.pow_dvd_pow 2 hle).mul_left m
  calc m * 2 ^ s ≤ 2 ^ 53 * 2 ^ s := Nat.mul_le_mul_right _ (Nat.le_of_lt hm)
    _ = 2 ^ (53 + s) := (Nat.pow_add ..).symm
    _ ≤ 2 ^ (52 + e) := Nat.pow_le_pow_right (by decide) (by omega)

/-- The rounding may carry into a 54th bit, and then leaves no other. -/
theorem roundHalfEven_units_le (num : Nat) {den : Nat} (hden : 0 < den) :
    roundHalfEven num (den * 2 ^ excessBits (num / den)) ≤ 2 ^ 53 := by
  refine roundHalfEven_le (Nat.mul_pos hden (Nat.two_pow_pos _)) ?_
  have := (Nat.div_lt_iff_lt_mul hden).mp (lt_of_excessBits (num / den))
  rwa [Nat.pow_add, Nat.mul_assoc, Nat.mul_comm (2 ^ _) den] at this

/-- A rounded ratio is representable. -/
theorem representable_roundQuanta {num den : Nat} (hden : 0 < den) :
    Representable (roundQuanta num den) := by
  rw [roundQuanta_eq]
  exact (Representable.of_le (roundHalfEven_units_le num hden)).mul_two_pow _

/-- A ratio with excess bits is at least the least count of its unit. -/
theorem le_of_excessBits_div (num : Nat) {den : Nat} (hden : 0 < den)
    (h : excessBits (num / den) ≠ 0) :
    2 ^ (52 + excessBits (num / den)) * den ≤ num :=
  (Nat.le_div_iff_mul_le hden).mp (le_of_excessBits h)

theorem mul_unit (n den e : Nat) : n * 2 ^ e * den = n * (den * 2 ^ e) := by
  rw [Nat.mul_assoc, Nat.mul_comm den]

/-- No representable count is nearer to the ratio than the rounded one. -/
theorem roundQuanta_nearest (num : Nat) {den k : Nat} (hden : 0 < den) (hk : Representable k) :
    ((num : Int) - (roundQuanta num den * den : Nat)).natAbs
      ≤ ((num : Int) - (k * den : Nat)).natAbs := by
  have hunits := roundHalfEven_nearest num
    (Nat.mul_pos hden (Nat.two_pow_pos (excessBits (num / den))))
  have hlow := le_of_excessBits_div num hden
  rw [roundQuanta_eq, mul_unit]
  generalize excessBits (num / den) = e at hunits hlow ⊢
  by_cases hdvd : 2 ^ e ∣ k
  · obtain ⟨j, rfl⟩ := hdvd
    rw [Nat.mul_comm _ j, mul_unit]
    exact hunits j
  · -- a count of finer units lies below all counts of this one, and these below the ratio
    have hle := Nat.mul_le_mul_right den (hk.le_of_not_dvd hdvd)
    have hbottom := hunits (2 ^ 52)
    rw [← mul_unit (2 ^ 52), ← Nat.pow_add] at hbottom
    have := hlow fun he => hdvd (by rw [he]; exact Nat.one_dvd k)
    omega

theorem le_roundQuanta {num den k : Nat} (hden : 0 < den) (hk : Representable k)
    (h : k * den ≤ num) : k ≤ roundQuanta num den := by
  have hnear := roundQuanta_nearest num hden hk
  refine Nat.le_of_mul_le_mul_right ?_ hden
  omega

theorem roundQuanta_le {num den k : Nat} (hden : 0 < den) (hk : Representable k)
    (h : num ≤ k * den) : roundQuanta num den ≤ k := by
  have hnear := roundQuanta_nearest num hden hk
  refine Nat.le_of_mul_le_mul_right ?_ hden
  omega

/-- An even number of units, at most `2^53`, has an even significand. -/
theorem two_pow_succ_dvd_of_even {c e : Nat} (hc : c ≤ 2 ^ 53) (heven : c % 2 = 0) :
    2 ^ (excessBits (c * 2 ^ e) + 1) ∣ c * 2 ^ e := by
  rcases Nat.lt_or_eq_of_le hc with hlt | rfl
  · have hbits : excessBits (c * 2 ^ e) ≤ e := excessBits_le (by
      rw [Nat.pow_add]
      exact Nat.mul_lt_mul_of_pos_right hlt (Nat.two_pow_pos e))
    calc 2 ^ (excessBits (c * 2 ^ e) + 1) ∣ 2 ^ (e + 1) := Nat.pow_dvd_pow 2 (by omega)
      _ = 2 * 2 ^ e := Nat.pow_succ'
      _ ∣ c * 2 ^ e := Nat.mul_dvd_mul_right (Nat.dvd_of_mod_eq_zero heven) _
  · rw [← Nat.pow_add]
    refine Nat.pow_dvd_pow 2 ?_
    have : excessBits (2 ^ (53 + e)) ≤ e + 1 :=
      excessBits_le (Nat.pow_lt_pow_right (by decide) (by omega))
    omega

/-- Of two representable counts that are equally near the one with the even
significand is taken. -/
theorem roundQuanta_tie {num den k : Nat} (hden : 0 < den) (hk : Representable k)
    (hne : k ≠ roundQuanta num den)
    (htie : ((num : Int) - (roundQuanta num den * den : Nat)).natAbs
      = ((num : Int) - (k * den : Nat)).natAbs) :
    2 ^ (excessBits (roundQuanta num den) + 1) ∣ roundQuanta num den := by
  have hpos := Nat.mul_pos hden (Nat.two_pow_pos (excessBits (num / den)))
  rw [roundQuanta_eq] at hne htie ⊢
  refine two_pow_succ_dvd_of_even (roundHalfEven_units_le num hden) (roundHalfEven_even num hpos ?_)
  have hhalf := roundHalfEven_bounds num hpos
  have hfar := fun j => roundHalfEven_far num (n := j) hpos
  have hlow := le_of_excessBits_div num hden
  rw [mul_unit] at htie
  generalize excessBits (num / den) = e at hhalf hfar hlow hne htie ⊢
  by_cases hdvd : 2 ^ e ∣ k
  · obtain ⟨j, rfl⟩ := hdvd
    have hj := hfar j fun h => hne (by rw [h, Nat.mul_comm])
    rw [Nat.mul_comm _ j, mul_unit] at htie
    omega
  · -- a count of finer units is no nearer than the least count of this one, which is the
    -- rounded count or farther away than it
    have hbelow : k * den < 2 ^ (52 + e) * den := by
      refine Nat.mul_lt_mul_of_pos_right (Nat.lt_of_le_of_ne (hk.le_of_not_dvd hdvd) ?_) hden
      rintro rfl
      exact hdvd (Nat.pow_dvd_pow 2 (by omega))
    have hratio := hlow fun he => hdvd (by rw [he]; exact Nat.one_dvd k)
    rw [Nat.pow_add, mul_unit] at hbelow hratio
    by_cases hbottom : 2 ^ 52 = roundHalfEven num (den * 2 ^ e)
    · rw [← hbottom] at htie hhalf ⊢
      omega
    · have := hfar _ hbottom
      omega

/-! ## The ratios that round to a count -/

/-- Where the unit is known, the nearest number of units decides. -/
theorem roundQuanta_of_units {num den m s : Nat} (hden : 0 < den)
    (hbits : excessBits (num / den) = s) (hlow : 2 * (m * (den * 2 ^ s)) ≤ 2 * num + den * 2 ^ s)
    (hhigh : 2 * num ≤ 2 * (m * (den * 2 ^ s)) + den * 2 ^ s)
    (htie : m % 2 = 0 ∨ 2 * (m * (den * 2 ^ s)) < 2 * num + den * 2 ^ s
      ∧ 2 * num < 2 * (m * (den * 2 ^ s)) + den * 2 ^ s) :
    roundQuanta num den = m * 2 ^ s := by
  rw [roundQuanta_eq, hbits]
  rw [roundHalfEven_eq (Nat.mul_pos hden (Nat.two_pow_pos s)) hlow hhigh htie]

/-- The excess bits of a ratio, by the powers of two that it lies between. -/
theorem excessBits_div_eq {num den e : Nat} (hden : 0 < den)
    (hlow : e = 0 ∨ 2 ^ 52 * (den * 2 ^ e) ≤ num) (hhigh : num < 2 ^ 53 * (den * 2 ^ e)) :
    excessBits (num / den) = e := by
  have hpow : ∀ k, 2 ^ (k + e) * den = 2 ^ k * (den * 2 ^ e) := fun k => by
    rw [Nat.pow_add]
    ring
  refine excessBits_eq (hlow.imp_right fun h => ?_) ?_
  · rwa [Nat.le_div_iff_mul_le hden, hpow]
  · rwa [Nat.div_lt_iff_lt_mul hden, hpow]

/-- A ratio within half the gap of a representable count rounds to it, at half the
gap when the significand is even. Just below a power of two the gap is half as
wide. -/
theorem roundQuanta_near {num den m s : Nat} (hden : 0 < den) (hm : m < 2 ^ 53)
    (hs : s = 0 ∨ 2 ^ 52 ≤ m)
    (hlow : if m = 2 ^ 52 ∧ 0 < s then 4 * (m * (den * 2 ^ s)) ≤ 4 * num + den * 2 ^ s
      else 2 * (m * (den * 2 ^ s)) ≤ 2 * num + den * 2 ^ s)
    (hhigh : 2 * num ≤ 2 * (m * (den * 2 ^ s)) + den * 2 ^ s)
    (htie : m % 2 = 0 ∨ 2 * (m * (den * 2 ^ s)) < 2 * num + den * 2 ^ s
      ∧ 2 * num < 2 * (m * (den * 2 ^ s)) + den * 2 ^ s) :
    roundQuanta num den = m * 2 ^ s := by
  have hunit : 0 < den * 2 ^ s := Nat.mul_pos hden (Nat.two_pow_pos s)
  have hlt : num < 2 ^ 53 * (den * 2 ^ s) := by
    have := Nat.mul_le_mul_right (den * 2 ^ s) (Nat.succ_le_of_lt hm)
    rw [Nat.succ_mul] at this
    omega
  have hwide : 2 * (m * (den * 2 ^ s)) ≤ 2 * num + den * 2 ^ s := by
    split at hlow <;> omega
  by_cases hbits : s = 0 ∨ 2 ^ 52 * (den * 2 ^ s) ≤ num
  · exact roundQuanta_of_units hden (excessBits_div_eq hden hbits hlt) hwide hhigh htie
  · -- below the least count of this unit the half as wide one is in force
    obtain ⟨hpos, hbelow⟩ := not_or.mp hbits
    have hpower : m = 2 ^ 52 := by
      have := hs.resolve_left hpos
      rcases mul_trichotomy m (2 ^ 52) (den * 2 ^ s) with h | h | h
      · have := Nat.mul_le_mul_right (den * 2 ^ s) this
        omega
      · exact h
      · omega
    subst hpower
    rw [if_pos ⟨rfl, by omega⟩] at hlow
    obtain ⟨t, rfl⟩ := Nat.exists_eq_succ_of_ne_zero hpos
    have hhalf : den * 2 ^ (t + 1) = 2 * (den * 2 ^ t) := by
      rw [Nat.pow_succ]
      ring
    simp only [Nat.succ_eq_add_one, hhalf] at hlow hbelow ⊢
    have hround : roundQuanta num den = 2 ^ 53 * 2 ^ t :=
      roundQuanta_of_units hden (excessBits_div_eq hden (.inr (by omega)) (by omega)) (by omega)
        (by omega) (.inl rfl)
    rw [hround, Nat.pow_succ]
    ring

/-! ## Whole counts -/

/-- The excess bits of a count are those of its unit. -/
theorem excessBits_parts {low rest s : Nat} (hlow : 2 ^ 52 ≤ low) (hhigh : low < 2 ^ 53)
    (hrest : rest < 2 ^ s) : excessBits (low * 2 ^ s + rest) = s := by
  refine excessBits_eq (.inr ?_) ?_
  · rw [Nat.pow_add]
    exact (Nat.mul_le_mul_right _ hlow).trans (Nat.le_add_right _ _)
  · rw [Nat.pow_add]
    calc low * 2 ^ s + rest < (low + 1) * 2 ^ s := by
          rw [Nat.succ_mul]
          exact Nat.add_lt_add_left hrest _
      _ ≤ 2 ^ 53 * 2 ^ s := Nat.mul_le_mul_right _ hhigh

theorem excessBits_units {m s : Nat} (hlow : 2 ^ 52 ≤ m) (hhigh : m < 2 ^ 53) :
    excessBits (m * 2 ^ s) = s := by
  have hbits := excessBits_parts hlow hhigh (Nat.two_pow_pos s)
  rwa [Nat.add_zero] at hbits

theorem roundHalfEven_parts (low : Nat) {rest den : Nat} (h : rest < den) :
    roundHalfEven (low * den + rest) den
      = if 2 * rest < den then low else if den < 2 * rest then low + 1 else low + low % 2 := by
  have hquotient : (low * den + rest) / den = low := by
    rw [Nat.mul_comm, Nat.mul_add_div (by omega), Nat.div_eq_of_lt h, Nat.add_zero]
  have hremainder : (low * den + rest) % den = rest := by
    rw [Nat.mul_comm, Nat.mul_add_mod, Nat.mod_eq_of_lt h]
  unfold roundHalfEven
  rw [hquotient, hremainder]

/-- What lies above full units decides which count is taken. -/
theorem roundQuanta_parts {low rest s : Nat} (hlow : 2 ^ 52 ≤ low) (hhigh : low < 2 ^ 53)
    (hrest : rest < 2 ^ s) :
    roundQuanta (low * 2 ^ s + rest) 1
      = (if 2 * rest < 2 ^ s then low
          else if 2 ^ s < 2 * rest then low + 1 else low + low % 2) * 2 ^ s := by
  rw [roundQuanta_eq, Nat.div_one, excessBits_parts hlow hhigh hrest, Nat.one_mul,
    roundHalfEven_parts low hrest]

/-- A count of 53 bits or more is taken apart at the unit of the last bit that is kept. -/
theorem exists_parts {n : Nat} (h : 2 ^ 52 ≤ n) :
    ∃ low rest s, n = low * 2 ^ s + rest ∧ 2 ^ 52 ≤ low ∧ low < 2 ^ 53 ∧ rest < 2 ^ s := by
  have hpos := Nat.two_pow_pos (excessBits n)
  refine ⟨n / 2 ^ excessBits n, n % 2 ^ excessBits n, excessBits n, (Nat.div_add_mod' ..).symm, ?_,
    ?_, Nat.mod_lt _ hpos⟩
  · rw [Nat.le_div_iff_mul_le hpos, ← Nat.pow_add]
    by_cases hzero : excessBits n = 0
    · rwa [hzero]
    · exact le_of_excessBits hzero
  · rw [Nat.div_lt_iff_lt_mul hpos, ← Nat.pow_add]
    exact lt_of_excessBits n

/-- A representable count is below 53 bits, or full bits and their unit. -/
theorem Representable.cases {n : Nat} (h : Representable n) :
    n < 2 ^ 52 ∨ ∃ m s, 2 ^ 52 ≤ m ∧ m < 2 ^ 53 ∧ n = m * 2 ^ s := by
  rcases Nat.lt_or_ge n (2 ^ 52) with hsmall | hlarge
  · exact .inl hsmall
  · obtain ⟨m, rest, s, rfl, hlow, hhigh, hrest⟩ := exists_parts hlarge
    have hunits := h.two_pow_dvd
    rw [excessBits_parts hlow hhigh hrest] at hunits
    obtain rfl : rest = 0 :=
      Nat.eq_zero_of_dvd_of_lt ((Nat.dvd_add_right (Nat.dvd_mul_left _ _)).mp hunits) hrest
    exact .inr ⟨m, s, hlow, hhigh, Nat.add_zero _⟩

theorem excessBits_mul_two_pow {n : Nat} (h : 2 ^ 52 ≤ n) (j : Nat) :
    excessBits (n * 2 ^ j) = excessBits n + j := by
  obtain ⟨low, rest, s, rfl, hlow, hhigh, hrest⟩ := exists_parts h
  have hscaled : rest * 2 ^ j < 2 ^ (s + j) := by
    rw [Nat.pow_add]
    exact Nat.mul_lt_mul_of_pos_right hrest (Nat.two_pow_pos j)
  rw [excessBits_parts hlow hhigh hrest, Nat.add_mul, Nat.mul_assoc, ← Nat.pow_add,
    excessBits_parts hlow hhigh hscaled]

/-- A power of two is carried through the rounding. -/
theorem roundQuanta_mul_two_pow (n j : Nat) :
    roundQuanta (n * 2 ^ j) 1 = roundQuanta n 1 * 2 ^ j := by
  rcases Nat.lt_or_ge n (2 ^ 53) with hsmall | hlarge
  · have hn := Representable.of_lt hsmall
    rw [roundQuanta_one hn, roundQuanta_one (hn.mul_two_pow j)]
  · rw [roundQuanta_eq, roundQuanta_eq, Nat.div_one, Nat.div_one,
      excessBits_mul_two_pow (by omega), Nat.pow_add, ← Nat.mul_assoc 1,
      roundHalfEven_mul _ _ (Nat.two_pow_pos j), Nat.mul_assoc]

/-- What is less than half of the last bit of a representable count is dropped. -/
theorem roundQuanta_add_of_lt {u t : Nat} (hu : Representable u) (ht : 2 * t < 2 ^ excessBits u) :
    roundQuanta (u + t) 1 = u := by
  rcases hu.cases with hsmall | ⟨m, s, hlow, hhigh, rfl⟩
  · have hbits : excessBits u = 0 := excessBits_eq (.inl rfl) (by omega)
    rw [hbits] at ht
    obtain rfl : t = 0 := by omega
    exact roundQuanta_one hu
  · rw [excessBits_units hlow hhigh] at ht
    rw [roundQuanta_parts hlow hhigh (by omega), if_pos ht]

/-- A greater ratio is rounded to no less. -/
theorem roundQuanta_mono {a b den : Nat} (hden : 0 < den) (h : a ≤ b) :
    roundQuanta a den ≤ roundQuanta b den := by
  rcases Nat.eq_or_lt_of_le h with rfl | hlt
  · exact Nat.le_refl _
  refine Nat.le_of_not_lt fun hless => ?_
  have hleft : Representable (roundQuanta a den) := representable_roundQuanta hden
  have hright : Representable (roundQuanta b den) := representable_roundQuanta hden
  have ha := roundQuanta_nearest a hden hright
  have hb := roundQuanta_nearest b hden hleft
  have hscaled := Nat.mul_lt_mul_of_pos_right hless hden
  omega

/-- A rounded count is within half of the unit of its excess bits. -/
theorem roundQuanta_bounds (n : Nat) :
    2 * roundQuanta n 1 ≤ 2 * n + 2 ^ excessBits n
      ∧ 2 * n ≤ 2 * roundQuanta n 1 + 2 ^ excessBits n := by
  have hbounds := roundHalfEven_bounds n (Nat.mul_pos Nat.one_pos (Nat.two_pow_pos (excessBits n)))
  rw [roundQuanta_eq, Nat.div_one]
  rwa [Nat.one_mul] at hbounds ⊢

/-- A representable count below a power of two is below it by the last bit at least. -/
theorem Representable.add_le {n s : Nat} (h : Representable n) (hlt : n < 2 ^ (53 + s)) :
    n + 2 ^ s ≤ 2 ^ (53 + s) := by
  obtain ⟨m, t, hm, rfl⟩ := h
  rcases Nat.le_total s t with hle | hle
  · obtain ⟨c, rfl⟩ := Nat.exists_eq_add_of_le hle
    have hunits : m * 2 ^ (s + c) = m * 2 ^ c * 2 ^ s := by ring
    rw [hunits, Nat.pow_add] at hlt ⊢
    rw [← Nat.succ_mul]
    exact Nat.mul_le_mul_right _ (Nat.lt_of_mul_lt_mul_right hlt)
  · have hpow : 2 ^ t ≤ 2 ^ s := Nat.pow_le_pow_right (by decide) hle
    have hscaled : m * 2 ^ t ≤ (2 ^ 53 - 1) * 2 ^ s := Nat.mul_le_mul (by omega) hpow
    rw [Nat.pow_add]
    omega

end ScriptRealm.Binary64
