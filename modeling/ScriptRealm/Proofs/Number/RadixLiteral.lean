import Mathlib.Data.List.Induction
import ScriptRealm.Proofs.Number.Grammar
import ScriptRealm.Proofs.Number.Numeral

/-!
# Radix literal — which number the digits behind a prefix read as

The digits behind `0x`, `0o` and `0b` are read from the left with a rounding at every
digit. The radix is a power of two, so the digits are taken exactly until they fill 53
bits, the digit that does so is rounded, and every later one is less than half of the
last bit that is kept and changes nothing (`Binary64.foldl_appendDigit`). What is read
is therefore the number nearest to the integer whose later digits are zeros.

That is the number nearest to the integer of all digits but where the later ones would
have broken a tie (`Literal.Missed`), and there it is the number below
(`Binary64.ofScriptText_prefixed_iff`).
-/

namespace ScriptRealm

namespace Literal

/-- The value of a digit, letters in either case. -/
def digitValue (c : Char) : Nat :=
  ['0', '1', '2', '3', '4', '5', '6', '7', '8', '9', 'a', 'b', 'c', 'd', 'e', 'f'].idxOf c.toLower

/-- The integer that digits of a radix denote. -/
def integer (radix : Nat) (digits : List Char) : Nat :=
  Nat.ofDigits radix (digits.map digitValue).reverse

/-- The finite integers that a literal in the radix misses. Without some of its last
digits such an integer is halfway between two neighbours of 53 bits, the lower of which
has the even significand, and the digits left off are not all zeros. -/
structure Missed (radix n : Nat) : Prop where
  finite : n < 2 ^ 1024
  halfway : ∃ k m e, 2 ^ 52 ≤ m ∧ m < 2 ^ 53 ∧ m % 2 = 0
    ∧ n / radix ^ k = (2 * m + 1) * 2 ^ e ∧ n % radix ^ k ≠ 0

end Literal

namespace Binary64

/-! ## The digits, one after the other -/

theorem overflowQuanta_eq : overflowQuanta = 2 ^ 1024 * one := by decide +kernel

theorem representable_overflowQuanta : Representable overflowQuanta :=
  overflowQuanta_eq ▸ (Representable.two_pow 1024).whole

theorem le_overflowQuanta {n : Nat} (h : n ≤ 2 ^ 53) : n * one ≤ overflowQuanta := by
  have hpow : ∀ e, 53 ≤ e → n ≤ 2 ^ e := fun e he =>
    h.trans (Nat.pow_le_pow_right (by decide) he)
  rw [overflowQuanta_eq]
  exact Nat.mul_le_mul_right one (hpow 1024 (by decide))

/-- While 53 bits are not filled a digit is taken as it is, up to one rounding. -/
theorem appendDigit_of_lt {n : Nat} (j d : Nat) (h : n < 2 ^ 53) :
    appendDigit (2 ^ j) (n * one) d
      = min overflowQuanta (roundQuanta ((n * 2 ^ j + d) * one) 1) := by
  have hscaled : Representable (n * one * 2 ^ j) := (Representable.of_lt h).whole.mul_two_pow j
  unfold appendDigit
  rw [roundQuanta_one hscaled, Nat.mul_right_comm, ← Nat.add_mul]

/-- Once 53 bits are filled a digit changes nothing. -/
theorem appendDigit_of_le {j d u : Nat} (hu : Representable u) (h : 2 ^ 53 * one ≤ u)
    (hd : d < 2 ^ j) : appendDigit (2 ^ j) u d = min overflowQuanta (u * 2 ^ j) := by
  obtain ⟨k, hone⟩ : ∃ k, one = 2 ^ k := ⟨1074, one_quanta_eq⟩
  have hscaled := hu.mul_two_pow j
  unfold appendDigit
  rw [roundQuanta_one hscaled]
  rw [hone] at h ⊢
  have hbits : k + j + 1 ≤ excessBits (u * 2 ^ j) := by
    refine le_excessBits ?_
    calc 2 ^ (52 + (k + j + 1)) = 2 ^ 53 * 2 ^ k * 2 ^ j := by ring
      _ ≤ u * 2 ^ j := Nat.mul_le_mul_right _ h
  have hdropped : 2 * (d * 2 ^ k) < 2 ^ excessBits (u * 2 ^ j) := by
    calc 2 * (d * 2 ^ k) < 2 * (2 ^ j * 2 ^ k) := by
          refine Nat.mul_lt_mul_of_pos_left ?_ (by decide)
          exact Nat.mul_lt_mul_of_pos_right hd (Nat.two_pow_pos k)
      _ = 2 ^ (k + j + 1) := by ring
      _ ≤ _ := Nat.pow_le_pow_right (by decide) hbits
  rw [roundQuanta_add_of_lt hscaled hdropped]

/-- How many digits of an integer come after those that fill 53 bits. -/
structure Fills (radix n k : Nat) : Prop where
  filled : k = 0 ∨ 2 ^ 53 ≤ n / radix ^ k
  notBefore : n / radix ^ k < 2 ^ 53 * radix

/-- An integer with its last digits set to zero. -/
def cut (radix n k : Nat) : Nat := n / radix ^ k * radix ^ k

/-- What is read of the digits of an integer, the last of them left out. -/
def readCut (radix n k : Nat) : Nat := min overflowQuanta (roundQuanta (cut radix n k * one) 1)

theorem readCut_zero {radix n : Nat} (h : n < 2 ^ 53) : readCut radix n 0 = n * one := by
  unfold readCut cut
  rw [Nat.pow_zero, Nat.div_one, Nat.mul_one, roundQuanta_one (Representable.of_lt h).whole]
  exact Nat.min_eq_right (le_overflowQuanta h.le)

theorem representable_readCut (radix n k : Nat) : Representable (readCut radix n k) := by
  unfold readCut
  rcases min_choice overflowQuanta (roundQuanta (cut radix n k * one) 1) with h | h
  · rw [h]
    exact representable_overflowQuanta
  · rw [h]
    exact representable_roundQuanta Nat.one_pos

theorem le_readCut {radix n k : Nat} (h : 2 ^ 53 ≤ cut radix n k) :
    2 ^ 53 * one ≤ readCut radix n k := by
  refine Nat.le_min.mpr ⟨le_overflowQuanta le_rfl,
    le_roundQuanta Nat.one_pos (Representable.two_pow 53).whole ?_⟩
  rw [Nat.mul_one]
  exact Nat.mul_le_mul_right one h

/-- What has overflowed stays so. -/
theorem min_overflow_mul (u : Nat) {r : Nat} (hr : 0 < r) :
    min overflowQuanta (min overflowQuanta u * r) = min overflowQuanta (u * r) := by
  rcases Nat.le_total overflowQuanta u with h | h
  · rw [Nat.min_eq_left h, Nat.min_eq_left (Nat.le_mul_of_pos_right _ hr),
      Nat.min_eq_left (h.trans (Nat.le_mul_of_pos_right u hr))]
  · rw [Nat.min_eq_right h]

section Radix

variable {j n d k : Nat}

theorem Fills.next_of_lt (hd : d < 2 ^ j) (h : n < 2 ^ 53) : Fills (2 ^ j) (n * 2 ^ j + d) 0 := by
  refine ⟨.inl rfl, ?_⟩
  rw [Nat.pow_zero, Nat.div_one]
  calc n * 2 ^ j + d < (n + 1) * 2 ^ j := by rw [Nat.succ_mul]; exact Nat.add_lt_add_left hd _
    _ ≤ 2 ^ 53 * 2 ^ j := Nat.mul_le_mul_right _ h

theorem div_pow_succ (hd : d < 2 ^ j) :
    (n * 2 ^ j + d) / (2 ^ j) ^ (k + 1) = n / (2 ^ j) ^ k := by
  rw [Nat.pow_succ', ← Nat.div_div_eq_div_mul, Nat.mul_comm n,
    Nat.mul_add_div (Nat.two_pow_pos j), Nat.div_eq_of_lt hd, Nat.add_zero]

theorem Fills.le (h : Fills (2 ^ j) n k) (hn : 2 ^ 53 ≤ n) : 2 ^ 53 ≤ n / (2 ^ j) ^ k := by
  rcases h.filled with rfl | hkept
  · rwa [Nat.pow_zero, Nat.div_one]
  · exact hkept

theorem Fills.next (h : Fills (2 ^ j) n k) (hd : d < 2 ^ j) (hn : 2 ^ 53 ≤ n) :
    Fills (2 ^ j) (n * 2 ^ j + d) (k + 1) := by
  constructor
  · rw [div_pow_succ hd]
    exact .inr (h.le hn)
  · rw [div_pow_succ hd]
    exact h.notBefore

theorem appendDigit_readCut (h : Fills (2 ^ j) n k) (hd : d < 2 ^ j) (hn : 2 ^ 53 ≤ n) :
    appendDigit (2 ^ j) (readCut (2 ^ j) n k) d = readCut (2 ^ j) (n * 2 ^ j + d) (k + 1) := by
  have hcut : cut (2 ^ j) (n * 2 ^ j + d) (k + 1) = cut (2 ^ j) n k * 2 ^ j := by
    unfold cut
    rw [div_pow_succ hd, Nat.pow_succ, Nat.mul_assoc]
  have hkept : 2 ^ 53 ≤ cut (2 ^ j) n k :=
    (h.le hn).trans (Nat.le_mul_of_pos_right _ (Nat.pow_pos (Nat.two_pow_pos j)))
  rw [appendDigit_of_le (representable_readCut _ _ _) (le_readCut hkept) hd]
  unfold readCut
  rw [min_overflow_mul _ (Nat.two_pow_pos j), hcut, Nat.mul_right_comm, roundQuanta_mul_two_pow]

/-- One digit more is read as the integer of one digit more is, with those digits set to
zero that come after 53 bits are filled. -/
theorem exists_appendDigit (h : Fills (2 ^ j) n k) (hd : d < 2 ^ j) :
    ∃ k', Fills (2 ^ j) (n * 2 ^ j + d) k'
      ∧ appendDigit (2 ^ j) (readCut (2 ^ j) n k) d = readCut (2 ^ j) (n * 2 ^ j + d) k' := by
  rcases Nat.lt_or_ge n (2 ^ 53) with hn | hn
  · obtain rfl : k = 0 := by
      refine h.filled.resolve_right fun hle => ?_
      have := Nat.div_le_self n ((2 ^ j) ^ k)
      omega
    refine ⟨0, .next_of_lt hd hn, ?_⟩
    rw [readCut_zero hn, appendDigit_of_lt j d hn]
    simp [readCut, cut]
  · exact ⟨k + 1, h.next hd hn, appendDigit_readCut h hd hn⟩

end Radix

/-- Digits are read as their integer is, with those digits set to zero that come after
53 bits are filled. -/
theorem foldl_appendDigit {j : Nat} (digits : List Nat) (h : ∀ d ∈ digits, d < 2 ^ j) :
    ∃ k, Fills (2 ^ j) (Nat.ofDigits (2 ^ j) digits.reverse) k
      ∧ digits.foldl (appendDigit (2 ^ j)) 0
        = readCut (2 ^ j) (Nat.ofDigits (2 ^ j) digits.reverse) k := by
  induction digits using List.reverseRecOn with
  | nil =>
    refine ⟨0, ⟨.inl rfl, ?_⟩, ?_⟩
    · simp
    · simp [readCut_zero]
  | append_singleton digits d ih =>
    rw [List.forall_mem_append, List.forall_mem_singleton] at h
    obtain ⟨k, hfills, hread⟩ := ih h.1
    have hnumber : Nat.ofDigits (2 ^ j) (digits ++ [d]).reverse
        = Nat.ofDigits (2 ^ j) digits.reverse * 2 ^ j + d := by
      rw [List.reverse_append, List.reverse_singleton, List.singleton_append, Nat.ofDigits_cons,
        Nat.add_comm, Nat.mul_comm]
    rw [hnumber, List.foldl_append, List.foldl_cons, List.foldl_nil, hread]
    exact exists_appendDigit hfills h.2

/-! ## The digits that come too late -/

/-- What is halfway between two counts, and more, in parts. -/
theorem halfway_parts (m e t : Nat) :
    (2 * m + 1) * 2 ^ e + t = m * 2 ^ (e + 1) + (2 ^ e + t) := by ring

theorem excessBits_halfway {m e t : Nat} (hlow : 2 ^ 52 ≤ m) (hhigh : m < 2 ^ 53)
    (ht : t < 2 ^ e) : excessBits ((2 * m + 1) * 2 ^ e + t) = e + 1 := by
  rw [halfway_parts]
  exact excessBits_parts hlow hhigh (by omega)

/-- Halfway between two counts the even one is taken. -/
theorem roundQuanta_halfway {m : Nat} (e : Nat) (hlow : 2 ^ 52 ≤ m) (hhigh : m < 2 ^ 53)
    (heven : m % 2 = 0) : roundQuanta ((2 * m + 1) * 2 ^ e) 1 = m * 2 ^ (e + 1) := by
  have hpos := Nat.two_pow_pos e
  have hparts := halfway_parts m e 0
  rw [Nat.add_zero, Nat.add_zero] at hparts
  rw [hparts, roundQuanta_parts hlow hhigh (by omega), if_neg (by omega), if_neg (by omega), heven,
    Nat.add_zero]

/-- Above that the upper one is taken. -/
theorem roundQuanta_above_halfway {m e t : Nat} (hlow : 2 ^ 52 ≤ m) (hhigh : m < 2 ^ 53)
    (hpos : 0 < t) (ht : t < 2 ^ e) :
    roundQuanta ((2 * m + 1) * 2 ^ e + t) 1 = (m + 1) * 2 ^ (e + 1) := by
  rw [halfway_parts, roundQuanta_parts hlow hhigh (by omega), if_neg (by omega),
    if_pos (by omega)]

/-- Behind 53 bits and more, the last digits matter for the rounding only where the others
are halfway between two counts, the lower of which is even. -/
theorem roundQuanta_mul_add {n b t : Nat} (hn : 2 ^ 53 ≤ n) (ht : t < 2 ^ b)
    (htie : ∀ m e, 2 ^ 52 ≤ m → m < 2 ^ 53 → m % 2 = 0 → n = (2 * m + 1) * 2 ^ e → t = 0) :
    roundQuanta (n * 2 ^ b + t) 1 = roundQuanta (n * 2 ^ b) 1 := by
  obtain ⟨low, rest, s, rfl, hlow, hhigh, hrest⟩ := exists_parts (by omega : 2 ^ 52 ≤ n)
  obtain ⟨e, rfl⟩ : ∃ e, s = e + 1 := by
    refine Nat.exists_eq_succ_of_ne_zero fun hs => ?_
    subst hs
    omega
  have hunit : 2 ^ (e + 1 + b) = 2 * (2 ^ e * 2 ^ b) := by ring
  have hbound : (rest + 1) * 2 ^ b ≤ 2 * (2 ^ e * 2 ^ b) := by
    rw [← hunit, Nat.pow_add]
    exact Nat.mul_le_mul_right _ hrest
  rw [Nat.succ_mul] at hbound
  rw [Nat.add_mul, Nat.mul_assoc, ← Nat.pow_add, Nat.add_assoc,
    roundQuanta_parts hlow hhigh (by omega), roundQuanta_parts hlow hhigh (by omega)]
  congr 1
  rcases Nat.lt_trichotomy rest (2 ^ e) with hless | hequal | hmore
  · have hstep : (rest + 1) * 2 ^ b ≤ 2 ^ e * 2 ^ b := Nat.mul_le_mul_right _ hless
    rw [Nat.succ_mul] at hstep
    rw [if_pos (by omega), if_pos (by omega)]
  · by_cases hzero : t = 0
    · rw [hzero, Nat.add_zero]
    · have hodd : low % 2 = 1 := by
        refine (Nat.mod_two_eq_zero_or_one low).resolve_left fun heven => hzero ?_
        refine htie low e hlow hhigh heven ?_
        rw [hequal]
        ring
      rw [hequal, if_neg (by omega), if_pos (by omega), if_neg (by omega), if_neg (by omega), hodd]
  · have hstep : (2 ^ e + 1) * 2 ^ b ≤ rest * 2 ^ b := Nat.mul_le_mul_right _ hmore
    have hpos := Nat.two_pow_pos b
    rw [Nat.succ_mul] at hstep
    rw [if_neg (by omega), if_pos (by omega), if_neg (by omega), if_pos (by omega)]

/-- The digits that come too late matter only where those before them are halfway between
two counts, the lower of which is even. -/
theorem roundQuanta_cut {j n k : Nat} (h : Fills (2 ^ j) n k)
    (htie : ∀ m e, 2 ^ 52 ≤ m → m < 2 ^ 53 → m % 2 = 0 →
      n / (2 ^ j) ^ k = (2 * m + 1) * 2 ^ e → n % (2 ^ j) ^ k = 0) :
    roundQuanta (cut (2 ^ j) n k) 1 = roundQuanta n 1 := by
  unfold cut
  rcases h.filled with rfl | hkept
  · rw [Nat.pow_zero, Nat.div_one, Nat.mul_one]
  · have hmod := Nat.mod_lt n (Nat.pow_pos (n := k) (Nat.two_pow_pos j))
    have hsplit := Nat.div_add_mod' n ((2 ^ j) ^ k)
    simp only [← Nat.pow_mul] at htie hkept hmod hsplit ⊢
    rw [← roundQuanta_mul_add hkept hmod htie, hsplit]

/-- Where some digits are halfway between two counts, the lower of which is even, and not
all later ones are zeros, the later ones come too late, and the lower count is taken in
the place of the upper. -/
theorem roundQuanta_cut_of_halfway {j n k i m e : Nat} (h : Fills (2 ^ j) n k)
    (hlow : 2 ^ 52 ≤ m) (hhigh : m < 2 ^ 53) (heven : m % 2 = 0)
    (hhalfway : n / (2 ^ j) ^ i = (2 * m + 1) * 2 ^ e) (hlater : n % (2 ^ j) ^ i ≠ 0) :
    ∃ s, roundQuanta (cut (2 ^ j) n k) 1 = m * 2 ^ s ∧ roundQuanta n 1 = (m + 1) * 2 ^ s
      ∧ 2 ^ (52 + s) ≤ n ∧ n < 2 ^ (53 + s) := by
  have hmod := Nat.mod_lt n (Nat.pow_pos (n := i) (Nat.two_pow_pos j))
  have hsplit := Nat.div_add_mod' n ((2 ^ j) ^ i)
  have hnotBefore := h.notBefore
  have hfilled := h.filled
  unfold cut
  simp only [← Nat.pow_mul] at hhalfway hlater hmod hsplit hnotBefore hfilled ⊢
  have hn : n = (2 * m + 1) * 2 ^ (e + j * i) + n % 2 ^ (j * i) := by
    conv_lhs => rw [← hsplit, hhalfway]
    ring
  generalize n % 2 ^ (j * i) = t at hlater hmod hn
  have ht : t < 2 ^ (e + j * i) :=
    hmod.trans_le (Nat.pow_le_pow_right (by decide) (Nat.le_add_left _ _))
  have hbits := excessBits_halfway hlow hhigh ht
  rw [← hn] at hbits
  -- 53 bits are filled before the digits that are left off, but not much before
  have hik : j * i ≤ j * k := by
    refine Nat.mul_le_mul_left j (Nat.le_of_not_lt fun hki => ?_)
    have hstep : j * k + j ≤ j * i := Nat.mul_le_mul_left j hki
    rw [Nat.div_lt_iff_lt_mul (Nat.two_pow_pos _)] at hnotBefore
    refine absurd hnotBefore (Nat.not_lt_of_le ?_)
    calc 2 ^ 53 * 2 ^ j * 2 ^ (j * k) = 2 ^ 53 * 2 ^ (j * k + j) := by ring
      _ ≤ (2 * m + 1) * 2 ^ (e + j * i) :=
        Nat.mul_le_mul (by omega) (Nat.pow_le_pow_right (by decide) (by omega))
      _ ≤ n := hn ▸ Nat.le_add_right _ _
  have hke : j * k ≤ e + j * i := by
    rcases hfilled with rfl | hle
    · omega
    · rw [Nat.le_div_iff_mul_le (Nat.two_pow_pos _), ← Nat.pow_add] at hle
      have hlt := hle.trans_lt (lt_of_excessBits n)
      rw [hbits, Nat.pow_lt_pow_iff_right (by decide)] at hlt
      omega
  have hcut : n / 2 ^ (j * k) * 2 ^ (j * k) = (2 * m + 1) * 2 ^ (e + j * i) := by
    obtain ⟨c, hc⟩ := Nat.exists_eq_add_of_le' hke
    have htail : t < 2 ^ (j * k) := hmod.trans_le (Nat.pow_le_pow_right (by decide) hik)
    have hwhole : (2 * m + 1) * 2 ^ (e + j * i) = 2 ^ (j * k) * ((2 * m + 1) * 2 ^ c) := by
      rw [hc]
      ring
    rw [hn, hwhole, Nat.mul_add_div (Nat.two_pow_pos _), Nat.div_eq_of_lt htail, Nat.add_zero,
      Nat.mul_comm]
  refine ⟨e + j * i + 1, ?_, ?_, ?_, ?_⟩
  · rw [hcut, roundQuanta_halfway _ hlow hhigh heven]
  · rw [hn, roundQuanta_above_halfway hlow hhigh (Nat.pos_of_ne_zero hlater) ht]
  · rw [← hbits]
    exact le_of_excessBits (by omega)
  · rw [← hbits]
    exact lt_of_excessBits n

/-! ## The number that is read -/

/-- What has overflowed is infinite. -/
theorem magnitudeOfQuanta_min_overflow (n : Nat) :
    magnitudeOfQuanta (min overflowQuanta n) = magnitudeOfQuanta n := by
  rcases Nat.le_total overflowQuanta n with h | h
  · rw [Nat.min_eq_left h, magnitudeOfQuanta_of_le (overflowQuanta_eq ▸ le_rfl),
      magnitudeOfQuanta_of_le (overflowQuanta_eq ▸ h)]
  · rw [Nat.min_eq_right h]

theorem ofQuanta_readCut (radix n k : Nat) :
    ofQuanta false (readCut radix n k) 1 = ofQuanta false (cut radix n k * one) 1 := by
  unfold ofQuanta
  rw [roundQuanta_one (representable_readCut radix n k), readCut, magnitudeOfQuanta_min_overflow]

theorem nearest_natCast (n : Nat) : Numeral.nearest (n : ℚ) = ofQuanta false (n * one) 1 := by
  have hsign : ¬ (n : ℚ) < 0 := not_lt_of_ge (Nat.cast_nonneg n)
  unfold Numeral.nearest
  rw [decide_eq_false hsign, Rat.num_natCast, Rat.den_natCast, Int.natAbs_natCast]

/-- The number nearest to an integer, by the rounded integer. -/
theorem nearest_eq (n : Nat) :
    Numeral.nearest (n : ℚ)
      = ofMagnitude false (magnitudeOfQuanta (roundQuanta n 1 * 2 ^ 1074)) := by
  rw [nearest_natCast, ofQuanta, one_quanta_eq, roundQuanta_mul_two_pow]

/-- Two neighbouring counts of full bits are two numbers where the integer is in the range
of the finite ones. -/
theorem magnitudeOfQuanta_neighbours {n m s : Nat} (hlow : 2 ^ 52 ≤ m) (hhigh : m + 1 < 2 ^ 53)
    (hleast : 2 ^ (52 + s) ≤ n) (hbelow : n < 2 ^ (53 + s)) :
    magnitudeOfQuanta (m * 2 ^ s * 2 ^ 1074) = magnitudeOfQuanta ((m + 1) * 2 ^ s * 2 ^ 1074)
      ↔ ¬ n < 2 ^ 1024 := by
  rw [Nat.mul_assoc m, Nat.mul_assoc (m + 1), ← Nat.pow_add,
    magnitudeOfQuanta_units hlow (by omega), magnitudeOfQuanta_units (by omega) hhigh]
  have hfinite : ∀ b, n < 2 ^ (53 + b) ↔ s ≤ b := by
    intro b
    constructor
    · intro h
      have := (Nat.pow_lt_pow_iff_right (a := 2) (by decide)).mp (hleast.trans_lt h)
      omega
    · intro h
      exact hbelow.trans_le (Nat.pow_le_pow_right (by decide) (by omega))
  rw [show 1024 = 53 + 971 from rfl, hfinite]
  unfold infiniteMagnitude
  simp only [Nat.pow_eq]
  omega

/-- What is read is the nearest number but where later digits would have broken a tie. -/
theorem nearest_cut_iff {j n k : Nat} (h : Fills (2 ^ j) n k) :
    Numeral.nearest (cut (2 ^ j) n k : ℚ) = Numeral.nearest (n : ℚ)
      ↔ ¬ Literal.Missed (2 ^ j) n := by
  rw [nearest_eq, nearest_eq]
  constructor
  · rintro hequal ⟨hfinite, i, m, e, hlow, hhigh, heven, hhalfway, hlater⟩
    obtain ⟨s, hcut, hround, hleast, hbelow⟩ :=
      roundQuanta_cut_of_halfway h hlow hhigh heven hhalfway hlater
    rw [hcut, hround] at hequal
    have hmagnitude := congrArg magnitude hequal
    rw [magnitude_ofMagnitude _ ((magnitudeOfQuanta_le _).trans_lt (by decide)),
      magnitude_ofMagnitude _ ((magnitudeOfQuanta_le _).trans_lt (by decide)),
      magnitudeOfQuanta_neighbours hlow (by omega) hleast hbelow] at hmagnitude
    exact hmagnitude hfinite
  · intro hmissed
    by_cases htie : ∀ m e, 2 ^ 52 ≤ m → m < 2 ^ 53 → m % 2 = 0 →
        n / (2 ^ j) ^ k = (2 * m + 1) * 2 ^ e → n % (2 ^ j) ^ k = 0
    · rw [roundQuanta_cut h htie]
    · push Not at htie
      obtain ⟨m, e, hlow, hhigh, heven, hhalfway, hlater⟩ := htie
      obtain ⟨s, hcut, hround, hleast, hbelow⟩ :=
        roundQuanta_cut_of_halfway h hlow hhigh heven hhalfway hlater
      rw [hcut, hround, (magnitudeOfQuanta_neighbours hlow (by omega) hleast hbelow).mpr]
      exact fun hfinite => hmissed ⟨hfinite, k, m, e, hlow, hhigh, heven, hhalfway, hlater⟩

end Binary64

namespace Literal

/-- The radixes that have a prefix are powers of two. -/
theorem exists_two_pow {mark : Char} {radix : Nat} (h : (mark, radix) ∈ radixMarks) :
    ∃ j, radix = 2 ^ j := by
  have hall : ∀ p ∈ radixMarks, p.2 = 2 ^ 4 ∨ p.2 = 2 ^ 3 ∨ p.2 = 2 ^ 1 := by decide
  rcases hall _ h with h | h | h
  · exact ⟨4, h⟩
  · exact ⟨3, h⟩
  · exact ⟨1, h⟩

/-- The reader of a digit gives its value. -/
theorem radixDigit?_eq {mark c : Char} {radix : Nat} (h : (mark, radix) ∈ radixMarks)
    (hc : c ∈ digitsOf radix) :
    radixDigit? radix c = some (digitValue c) ∧ digitValue c < radix := by
  have hall : radixMarks.all (fun p => (digitsOf p.2).all fun c =>
      radixDigit? p.2 c = some (digitValue c) ∧ digitValue c < p.2) = true := by decide +kernel
  simpa using List.all_eq_true.mp (List.all_eq_true.mp hall _ h) c hc

theorem Run.mapM {mark : Char} {radix : Nat} {digits : List Char}
    (h : (mark, radix) ∈ radixMarks) (hrun : Run radix digits) :
    digits.mapM (radixDigit? radix) = some (digits.map digitValue) := by
  have hdigits := hrun.digits
  clear hrun
  induction digits with
  | nil => rfl
  | cons c digits ih =>
    rw [List.forall_mem_cons] at hdigits
    simp [(radixDigit?_eq h hdigits.1).1, ih hdigits.2]

/-- No digit is blank. -/
theorem not_blank_of_mem_digitsOf {mark c : Char} {radix : Nat} (h : (mark, radix) ∈ radixMarks)
    (hc : c ∈ digitsOf radix) : ¬ Blank.script c = true := by
  have hall : radixMarks.all (fun p => (digitsOf p.2).all fun c => !Blank.script c) = true := by
    decide +kernel
  simpa using List.all_eq_true.mp (List.all_eq_true.mp hall _ h) c hc

end Literal

namespace Binary64

open Literal (radixMarks Run integer Missed)

/-- A literal with a prefix is read as the number nearest to its integer, with those
digits set to zero that come after 53 bits are filled. -/
theorem ofScriptText_prefixed {mark : Char} {radix : Nat} {digits : List Char}
    (hmark : (mark, radix) ∈ radixMarks) (hrun : Run radix digits) :
    ∃ k, Fills radix (integer radix digits) k
      ∧ ofScriptText (String.ofList ('0' :: mark :: digits))
        = Numeral.nearest (cut radix (integer radix digits) k : ℚ) := by
  obtain ⟨last, hlast⟩ : ∃ c, digits.getLast? = some c :=
    Option.ne_none_iff_exists'.mp (by simpa using hrun.nonempty)
  have hvalues : ∀ d ∈ digits.map Literal.digitValue, d < radix := by
    intro d hd
    obtain ⟨c, hc, rfl⟩ := List.mem_map.mp hd
    exact (Literal.radixDigit?_eq hmark (hrun.digits c hc)).2
  have htrim : Blank.trim Blank.script ('0' :: mark :: digits) = '0' :: mark :: digits := by
    apply Blank.trim_of_ends
    · rintro c ⟨⟩
      decide
    · intro c hc
      have hmem : c ∈ digits := by
        refine List.mem_of_getLast? ?_
        simpa [List.getLast?_cons, hlast] using hc
      exact Literal.not_blank_of_mem_digitsOf hmark (hrun.digits c hmem)
  have hread : ofScriptText (String.ofList ('0' :: mark :: digits))
      = ofQuanta false ((digits.map Literal.digitValue).foldl (appendDigit radix) 0) 1 := by
    have hempty : digits.isEmpty = false := by simpa using hrun.nonempty
    unfold ofScriptText
    rw [String.toList_ofList, htrim, ofTrimmedText_prefixed hmark, ofRadixDigits, hempty,
      hrun.mapM hmark]
    rfl
  obtain ⟨j, rfl⟩ := Literal.exists_two_pow hmark
  obtain ⟨k, hfills, hfold⟩ := foldl_appendDigit _ hvalues
  refine ⟨k, hfills, ?_⟩
  rw [hread, hfold, ofQuanta_readCut, nearest_natCast]
  rfl

/-- A literal with a prefix is read as the number nearest to its integer, with those
digits set to zero that come after 53 bits are filled. It is read as the number nearest
to its integer exactly where these digits do not break a tie. -/
theorem ofScriptText_prefixed_iff {mark : Char} {radix : Nat} {digits : List Char}
    (hmark : (mark, radix) ∈ radixMarks) (hrun : Run radix digits) :
    (∃ k, Fills radix (integer radix digits) k
      ∧ ofScriptText (String.ofList ('0' :: mark :: digits))
        = Numeral.nearest (cut radix (integer radix digits) k : ℚ))
      ∧ (ofScriptText (String.ofList ('0' :: mark :: digits))
          = Numeral.nearest (integer radix digits : ℚ)
        ↔ ¬ Missed radix (integer radix digits)) := by
  obtain ⟨k, hfills, hread⟩ := ofScriptText_prefixed hmark hrun
  refine ⟨⟨k, hfills, hread⟩, ?_⟩
  obtain ⟨j, rfl⟩ := Literal.exists_two_pow hmark
  rw [hread, nearest_cut_iff hfills]

/-- Fourteen digits are halfway between `2^53` and the next number, and the last digit, which
breaks the tie, comes too late. -/
theorem ofScriptText_prefixed_iff_tie :
    ('x', 16) ∈ radixMarks ∧ Run 16 "200000000000011".toList
      ∧ Missed 16 (integer 16 "200000000000011".toList)
      ∧ ofScriptText "0x200000000000011"
        ≠ Numeral.nearest (integer 16 "200000000000011".toList : ℚ) := by
  have hmark : ('x', 16) ∈ radixMarks := by decide
  have hdigits : "200000000000011".toList.all (· ∈ Literal.digitsOf 16) = true := by decide +kernel
  have hrun : Run 16 "200000000000011".toList := ⟨by decide, by simpa using hdigits⟩
  have hvalue : integer 16 "200000000000011".toList = 0x200000000000011 := by decide +kernel
  have hmissed : Missed 16 (integer 16 "200000000000011".toList) := by
    rw [hvalue]
    exact ⟨by decide +kernel, 1, 2 ^ 52, 0, by decide, by decide, by decide, by decide, by decide⟩
  refine ⟨hmark, hrun, hmissed, fun hread => ?_⟩
  exact (ofScriptText_prefixed_iff hmark hrun).2.mp hread hmissed

end Binary64

end ScriptRealm
