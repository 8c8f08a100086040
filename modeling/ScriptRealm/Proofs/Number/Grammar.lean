import ScriptRealm.Proofs.Number.RoundTrip

/-!
# Grammar — which texts are numeric literals

`Literal.Numeric` is the grammar of the texts that a script converts to a number:
nothing, digits of a radix that is named after a zero, and with at most one sign the
word for infinity or a decimal. A text converts to a number other than NaN exactly
when it belongs to the grammar once the blanks at its ends are removed, and blanks
put around a text make no difference (`Binary64.ofScriptText_accepts`).

The parts of the grammar are settled one by one against their readers: a digit of a
radix (`Literal.isSome_radixDigit?`), an exponent (`Literal.isSome_parseExponent?`) and
a decimal (`Literal.isSome_parse?`). No conversion rounds to NaN
(`Binary64.isNaN_ofQuanta`), so a reader that accepts gives a number, and membership in
the grammar is decided by converting (`Binary64.isNaN_ofTrimmedText_iff`).
-/

namespace ScriptRealm

namespace Literal

/-! ## The grammar -/

/-- The digits of a radix up to sixteen, letters in either case. -/
def digitsOf (radix : Nat) : List Char :=
  ['0', '1', '2', '3', '4', '5', '6', '7', '8', '9', 'a', 'b', 'c', 'd', 'e', 'f'].take radix
    ++ ['A', 'B', 'C', 'D', 'E', 'F'].take (radix - 10)

/-- The letters that name a radix after a zero. -/
def radixMarks : List (Char × Nat) :=
  [('x', 16), ('X', 16), ('o', 8), ('O', 8), ('b', 2), ('B', 2)]

/-- One or more digits of a radix. -/
structure Run (radix : Nat) (text : List Char) : Prop where
  nonempty : text ≠ []
  digits : ∀ c ∈ text, c ∈ digitsOf radix

/-- At most one sign. -/
inductive Sign : List Char → Prop
  | none : Sign []
  | plus : Sign ['+']
  | minus : Sign ['-']

/-- An exponent, which may be missing: a letter, at most one sign, and digits. -/
inductive Exponent : List Char → Prop
  | absent : Exponent []
  | marked {mark : Char} {sign digits : List Char} (letter : mark = 'e' ∨ mark = 'E')
      (atMostOne : Sign sign) (run : Run 10 digits) : Exponent (mark :: (sign ++ digits))

/-- A decimal without a sign: digits, or digits and a point that more digits may follow, or
a point and digits; then an exponent. -/
inductive Unsigned : List Char → Prop
  | whole {whole exponent : List Char} (run : Run 10 whole) (exp : Exponent exponent) :
    Unsigned (whole ++ exponent)
  | point {whole fraction exponent : List Char} (run : Run 10 whole)
      (digits : ∀ c ∈ fraction, c ∈ digitsOf 10) (exp : Exponent exponent) :
    Unsigned (whole ++ '.' :: (fraction ++ exponent))
  | fraction {fraction exponent : List Char} (run : Run 10 fraction) (exp : Exponent exponent) :
    Unsigned ('.' :: (fraction ++ exponent))

/-- A numeric literal of the script language. -/
inductive Numeric : List Char → Prop
  | empty : Numeric []
  | prefixed {mark : Char} {radix : Nat} {digits : List Char} (named : (mark, radix) ∈ radixMarks)
      (run : Run radix digits) : Numeric ('0' :: mark :: digits)
  | infinity {sign : List Char} (atMostOne : Sign sign) : Numeric (sign ++ "Infinity".toList)
  | decimal {sign text : List Char} (atMostOne : Sign sign) (unsigned : Unsigned text) :
    Numeric (sign ++ text)

/-! ## Digits -/

theorem mem_digitsOf_lt {radix : Nat} {c : Char} (h : c ∈ digitsOf radix) : c.toNat < 128 := by
  have hall : ∀ c ∈ ['0', '1', '2', '3', '4', '5', '6', '7', '8', '9', 'a', 'b', 'c', 'd', 'e', 'f',
      'A', 'B', 'C', 'D', 'E', 'F'], c.toNat < 128 := by simp
  refine hall c ?_
  rcases List.mem_append.mp h with h | h
  · exact List.mem_append_left ['A', 'B', 'C', 'D', 'E', 'F'] (List.mem_of_mem_take h)
  · exact List.mem_append_right
      ['0', '1', '2', '3', '4', '5', '6', '7', '8', '9', 'a', 'b', 'c', 'd', 'e', 'f']
      (List.mem_of_mem_take h)

/-- What accepts the digits of a radix among the ASCII characters, and none outside, accepts
its digits. -/
theorem accepts_iff_mem_digitsOf {radix : Nat} (accepts : Char → Bool)
    (hlow : ∀ n < 128, (accepts (Char.ofNat n) = true ↔ Char.ofNat n ∈ digitsOf radix))
    (hhigh : ∀ c : Char, 128 ≤ c.toNat → accepts c = false) (c : Char) :
    accepts c = true ↔ c ∈ digitsOf radix := by
  rcases Nat.lt_or_ge c.toNat 128 with hc | hc
  · have hiff := hlow c.toNat hc
    rwa [Char.ofNat_toNat] at hiff
  · rw [hhigh c hc]
    simp only [Bool.false_eq_true, false_iff]
    exact fun h => Nat.not_lt_of_le hc (mem_digitsOf_lt h)

theorem not_le_of_ascii {c d : Char} (h : 128 ≤ c.toNat) (hd : d.toNat < 128) : ¬ c ≤ d := by
  intro hle
  rw [Char.le_def, UInt32.le_iff_toNat_le] at hle
  exact absurd (h.trans hle) (Nat.not_le_of_lt hd)

theorem isDigit_eq_false {c : Char} (h : 128 ≤ c.toNat) : c.isDigit = false := by
  have habove : ¬ c.val ≤ '9'.val := not_le_of_ascii (d := '9') h (by decide)
  unfold Char.isDigit
  rw [decide_eq_false habove, Bool.and_false]

theorem isDigit_iff (c : Char) : c.isDigit = true ↔ c ∈ digitsOf 10 :=
  accepts_iff_mem_digitsOf Char.isDigit (by decide +kernel) (fun _ => isDigit_eq_false) c

/-- The reader of a digit accepts those that the radix has. -/
theorem isSome_radixDigit? {radix : Nat} (hradix : radix ≤ 16) (c : Char) :
    (radixDigit? radix c).isSome = true ↔ c ∈ digitsOf radix := by
  have hall : ∀ radix ≤ 16, ∀ n < 128, ((radixDigit? radix (Char.ofNat n)).isSome = true
      ↔ Char.ofNat n ∈ digitsOf radix) := by decide +kernel
  refine accepts_iff_mem_digitsOf (fun c => (radixDigit? radix c).isSome) (hall radix hradix)
    (fun c hc => ?_) c
  have hlower : ¬ ('a' ≤ c ∧ c ≤ 'f') := fun h => not_le_of_ascii hc (by decide) h.2
  have hupper : ¬ ('A' ≤ c ∧ c ≤ 'F') := fun h => not_le_of_ascii hc (by decide) h.2
  unfold radixDigit?
  simp only [isDigit_eq_false hc, hlower, hupper, if_false, Bool.false_eq_true,
    Option.filter_none, Option.isSome_none]

theorem Run.isDigit {text : List Char} (h : Run 10 text) : ∀ c ∈ text, c.isDigit = true :=
  fun c hc => (isDigit_iff c).mpr (h.digits c hc)

/-! ## Signs -/

/-- The text does not begin with a sign. -/
def Signless (text : List Char) : Prop := ∀ c ∈ text.head?, c ≠ '-' ∧ c ≠ '+'

theorem Signless.cons {c : Char} (rest : List Char) (h : c ≠ '-' ∧ c ≠ '+') :
    Signless (c :: rest) := by
  rintro _ ⟨⟩
  exact h

/-- Texts without a sign may have one put before them, and that one is split off. -/
theorem splitSign_iff {accepted : List Char → Prop}
    (hsignless : ∀ rest, accepted rest → Signless rest) (text : List Char) :
    accepted (Binary64.splitSign text).2
      ↔ ∃ sign rest, Sign sign ∧ accepted rest ∧ text = sign ++ rest := by
  constructor
  · intro h
    unfold Binary64.splitSign at h
    split at h
    · exact ⟨_, _, .minus, h, rfl⟩
    · exact ⟨_, _, .plus, h, rfl⟩
    · exact ⟨_, _, .none, h, rfl⟩
  · rintro ⟨sign, rest, hsign, hrest, rfl⟩
    cases hsign with
    | minus => exact hrest
    | plus => exact hrest
    | none =>
      rw [List.nil_append]
      unfold Binary64.splitSign
      split
      · exact absurd rfl (hsignless _ hrest _ rfl).1
      · exact absurd rfl (hsignless _ hrest _ rfl).2
      · exact hrest

theorem Run.signless {text : List Char} (h : Run 10 text) (rest : List Char) :
    Signless (text ++ rest) := by
  obtain ⟨c, tail, rfl⟩ := List.exists_cons_of_ne_nil h.nonempty
  have hsign : ∀ d ∈ digitsOf 10, d ≠ '-' ∧ d ≠ '+' := by simp [digitsOf]
  exact Signless.cons _ (hsign c (h.digits c List.mem_cons_self))

/-! ## Decimals -/

theorem run_iff (text : List Char) :
    (text.isEmpty || !text.all Char.isDigit) = false ↔ Run 10 text := by
  rw [Bool.or_eq_false_iff, List.isEmpty_eq_false_iff, Bool.not_eq_false', List.all_eq_true]
  constructor
  · rintro ⟨hne, hall⟩
    exact ⟨hne, fun c hc => (isDigit_iff c).mp (hall c hc)⟩
  · exact fun h => ⟨h.nonempty, h.isDigit⟩

theorem isSome_parseExponent?_cons (mark : Char) (rest : List Char) :
    (Decimal.parseExponent? (mark :: rest)).isSome = true
      ↔ (mark = 'e' ∨ mark = 'E') ∧ Run 10 (Binary64.splitSign rest).2 := by
  -- the sign of an exponent is split off as that of a whole text is
  have hread : Decimal.parseExponent? (mark :: rest)
      = if mark = 'e' ∨ mark = 'E' then
          if (Binary64.splitSign rest).2.isEmpty || !(Binary64.splitSign rest).2.all Char.isDigit
          then none
          else some (if (Binary64.splitSign rest).1
            then -(Decimal.ofDigits (Binary64.splitSign rest).2 : Int)
            else Decimal.ofDigits (Binary64.splitSign rest).2)
        else none := rfl
  rw [hread, ← run_iff]
  generalize (Binary64.splitSign rest).2 = digits
  by_cases hmark : mark = 'e' ∨ mark = 'E'
  · rw [if_pos hmark]
    cases digits.isEmpty || !digits.all Char.isDigit <;> simp [hmark]
  · rw [if_neg hmark]
    simp [hmark]

/-- The reader of an exponent accepts those of the grammar. -/
theorem isSome_parseExponent? (text : List Char) :
    (Decimal.parseExponent? text).isSome = true ↔ Exponent text := by
  have hsignless : ∀ rest, Run 10 rest → Signless rest := fun rest h => by
    simpa using h.signless []
  constructor
  · intro h
    cases text with
    | nil => exact .absent
    | cons mark rest =>
      obtain ⟨hletter, hrun⟩ := (isSome_parseExponent?_cons mark rest).mp h
      obtain ⟨sign, digits, hsign, hdigits, rfl⟩ := (splitSign_iff hsignless rest).mp hrun
      exact .marked hletter hsign hdigits
  · intro h
    cases h with
    | absent => rfl
    | marked hletter hsign hrun =>
      refine (isSome_parseExponent?_cons _ _).mpr ⟨hletter, ?_⟩
      exact (splitSign_iff hsignless _).mpr ⟨_, _, hsign, hrun, rfl⟩

/-- Neither a digit nor a point begins an exponent. -/
theorem Exponent.head {text : List Char} (h : Exponent text) :
    Decimal.Stops text ∧ text.head? ≠ some '.' := by
  cases h with
  | absent => exact ⟨Scientific.stops_nil, nofun⟩
  | marked hletter =>
    rcases hletter with rfl | rfl
    all_goals
      refine ⟨?_, by simp⟩
      rintro _ ⟨⟩
      rfl

/-- The digits at the beginning of a text. -/
theorem mem_digitsOf_of_mem_takeWhile (text : List Char) :
    ∀ c ∈ text.takeWhile Char.isDigit, c ∈ digitsOf 10 :=
  fun c hc => (isDigit_iff c).mp (List.mem_takeWhile_imp hc)

theorem isSome_parse?_of_unsigned {text : List Char} (h : Unsigned text) :
    (Decimal.parse? text).isSome = true := by
  cases h with
  | whole hrun hexp =>
    rw [Decimal.parse?_whole hrun.isDigit hrun.nonempty hexp.head.1 hexp.head.2,
      Option.isSome_map]
    exact (isSome_parseExponent? _).mpr hexp
  | point hrun hdigits hexp =>
    rw [Decimal.parse?_point hrun.isDigit (fun c hc => (isDigit_iff c).mpr (hdigits c hc))
      (List.append_ne_nil_of_left_ne_nil hrun.nonempty _) hexp.head.1, Option.isSome_map]
    exact (isSome_parseExponent? _).mpr hexp
  | fraction hrun hexp =>
    have hread := Decimal.parse?_point (List.forall_mem_nil _) hrun.isDigit hrun.nonempty
      hexp.head.1
    rw [List.nil_append] at hread
    rw [hread, Option.isSome_map]
    exact (isSome_parseExponent? _).mpr hexp

theorem unsigned_of_isSome_parse? {text : List Char} (h : (Decimal.parse? text).isSome = true) :
    Unsigned text := by
  have hwhole := mem_digitsOf_of_mem_takeWhile text
  have htext := List.takeWhile_append_dropWhile (p := Char.isDigit) (l := text)
  unfold Decimal.parse? at h
  generalize text.takeWhile Char.isDigit = whole at h hwhole htext
  generalize text.dropWhile Char.isDigit = after at h htext
  subst htext
  dsimp only at h
  split at h
  · rename_i tail
    have hfraction := mem_digitsOf_of_mem_takeWhile tail
    rw [← List.takeWhile_append_dropWhile (p := Char.isDigit) (l := tail)]
    dsimp only at h
    split at h
    · exact absurd h Bool.false_ne_true
    rename_i hsome
    rw [Option.isSome_map, isSome_parseExponent?] at h
    by_cases hne : whole = []
    · subst hne
      exact .fraction ⟨by simpa using hsome, hfraction⟩ h
    · exact .point ⟨hne, hwhole⟩ hfraction h
  · dsimp only at h
    split at h
    · exact absurd h Bool.false_ne_true
    rename_i hsome
    rw [Option.isSome_map, isSome_parseExponent?] at h
    exact .whole ⟨by simpa using hsome, hwhole⟩ h

/-- The reader of a decimal accepts those of the grammar. -/
theorem isSome_parse? (text : List Char) :
    (Decimal.parse? text).isSome = true ↔ Unsigned text :=
  ⟨unsigned_of_isSome_parse?, isSome_parse?_of_unsigned⟩

theorem Unsigned.signless {text : List Char} (h : Unsigned text) : Signless text := by
  cases h with
  | whole hrun => exact hrun.signless _
  | point hrun => exact hrun.signless _
  | fraction => exact Signless.cons _ (by decide)

/-! ## Radixes -/

/-- A letter names one radix. -/
theorem radix_unique {mark : Char} {radix other : Nat} (h : (mark, radix) ∈ radixMarks)
    (hother : (mark, other) ∈ radixMarks) : radix = other := by
  have hall : ∀ p ∈ radixMarks, ∀ q ∈ radixMarks, p.1 = q.1 → p.2 = q.2 := by decide
  exact hall _ h _ hother rfl

/-- No decimal begins as the digits of a named radix do. -/
theorem not_unsigned_of_mark {mark : Char} {radix : Nat} (h : (mark, radix) ∈ radixMarks)
    (rest : List Char) : ¬ Unsigned ('0' :: mark :: rest) := by
  have hall : ∀ p ∈ radixMarks, p.1.isDigit = false ∧ p.1 ≠ '.' ∧ ¬ (p.1 = 'e' ∨ p.1 = 'E') := by
    decide
  obtain ⟨hdigit, hpoint, hletter⟩ := hall _ h
  have hzero : ∀ c ∈ ['0'], c.isDigit = true := List.forall_mem_singleton.mpr rfl
  have hstops : Decimal.Stops (mark :: rest) := by
    rintro _ ⟨⟩
    exact hdigit
  have hread := Decimal.parse?_whole hzero (List.cons_ne_nil _ _) hstops (by simpa using hpoint)
  rw [← isSome_parse?, ← List.singleton_append, hread, Option.isSome_map,
    isSome_parseExponent?_cons]
  exact fun hread => hletter hread.1

/-- After a zero and a letter that names a radix, the grammar has digits of the radix only. -/
theorem numeric_prefixed_iff {mark : Char} {radix : Nat} (h : (mark, radix) ∈ radixMarks)
    (digits : List Char) : Numeric ('0' :: mark :: digits) ↔ Run radix digits := by
  refine ⟨fun hnumeric => ?_, .prefixed h⟩
  generalize htext : '0' :: mark :: digits = text at hnumeric
  cases hnumeric with
  | empty => exact absurd htext (List.cons_ne_nil _ _)
  | prefixed hnamed hrun =>
    cases htext
    rwa [radix_unique h hnamed]
  | infinity hsign => cases hsign <;> exact absurd (List.cons.inj htext).1 (by decide)
  | decimal hsign hunsigned =>
    -- a zero leads, so there is no sign, and the letter after it ends no decimal
    cases hsign with
    | none =>
      rw [List.nil_append] at htext
      exact absurd (htext ▸ hunsigned) (not_unsigned_of_mark h digits)
    | plus => exact absurd (List.cons.inj htext).1 (by decide)
    | minus => exact absurd (List.cons.inj htext).1 (by decide)

/-- Without such a beginning, the grammar has infinity and the decimals. -/
theorem numeric_unmarked_iff {text : List Char} (hne : text ≠ [])
    (hmark : ∀ mark rest, text = '0' :: mark :: rest → ∀ radix, (mark, radix) ∉ radixMarks) :
    Numeric text ↔ (Binary64.splitSign text).2 = "Infinity".toList
      ∨ Unsigned (Binary64.splitSign text).2 := by
  have hsignless : ∀ rest, rest = "Infinity".toList ∨ Unsigned rest → Signless rest := by
    rintro rest (rfl | h)
    · exact Signless.cons _ (by decide)
    · exact h.signless
  rw [splitSign_iff hsignless]
  constructor
  · intro h
    cases h with
    | empty => exact absurd rfl hne
    | prefixed hnamed => exact absurd hnamed (hmark _ _ rfl _)
    | infinity hsign => exact ⟨_, _, hsign, .inl rfl, rfl⟩
    | decimal hsign hunsigned => exact ⟨_, _, hsign, .inr hunsigned, rfl⟩
  · rintro ⟨sign, rest, hsign, rfl | hunsigned, rfl⟩
    · exact .infinity hsign
    · exact .decimal hsign hunsigned

end Literal

namespace Binary64

/-! ## Readers that give numbers -/

theorem isNaN_ofMagnitude (negative : Bool) {m : Nat} (h : m ≤ infiniteMagnitude) :
    (ofMagnitude negative m).isNaN = false := by
  unfold isNaN
  rw [magnitude_ofMagnitude negative (h.trans_lt (by decide))]
  exact decide_eq_false (Nat.not_lt_of_le h)

/-- Rounding gives a number. -/
theorem isNaN_ofQuanta (negative : Bool) (num den : Nat) :
    (ofQuanta negative num den).isNaN = false :=
  isNaN_ofMagnitude negative (Nat.min_le_left _ _)

theorem isNaN_ofDecimal (negative : Bool) (d : Decimal) : (ofDecimal negative d).isNaN = false := by
  rw [ofDecimal_eq]
  exact isNaN_ofQuanta negative _ _

/-- A traversal has an outcome where every element has one. -/
theorem isSome_mapM_iff {α β : Type} (f : α → Option β) (xs : List α) :
    (xs.mapM f).isSome = true ↔ ∀ x ∈ xs, (f x).isSome = true := by
  induction xs with
  | nil => simp
  | cons x xs ih =>
    rw [List.forall_mem_cons, ← ih, List.mapM_cons]
    cases f x with
    | none => simp
    | some y => cases xs.mapM f <;> simp

/-- Digits of a radix give a number, and nothing else does. -/
theorem isNaN_ofRadixDigits_iff {radix : Nat} (hradix : radix ≤ 16) (text : List Char) :
    (ofRadixDigits radix text).isNaN = false ↔ Literal.Run radix text := by
  have hdigits : (text.mapM (radixDigit? radix)).isSome = true
      ↔ ∀ c ∈ text, c ∈ Literal.digitsOf radix :=
    (isSome_mapM_iff _ _).trans (forall₂_congr fun c _ => Literal.isSome_radixDigit? hradix c)
  have hrun : Literal.Run radix text
      ↔ text ≠ [] ∧ (text.mapM (radixDigit? radix)).isSome = true := by
    rw [hdigits]
    exact ⟨fun h => ⟨h.nonempty, h.digits⟩, fun h => ⟨h.1, h.2⟩⟩
  have hnan : nan.isNaN = true := by decide
  rw [hrun]
  unfold ofRadixDigits
  split
  · rename_i hempty
    simp [List.isEmpty_iff.mp hempty, hnan]
  · rename_i hne
    rw [List.isEmpty_iff] at hne
    cases text.mapM (radixDigit? radix) with
    | none => simp [hnan]
    | some digits => simp [hne, isNaN_ofQuanta]

theorem ofTrimmedText_prefixed {mark : Char} {radix : Nat}
    (h : (mark, radix) ∈ Literal.radixMarks) (digits : List Char) :
    ofTrimmedText ('0' :: mark :: digits) = ofRadixDigits radix digits := by
  simp only [Literal.radixMarks, List.mem_cons, Prod.mk.injEq, List.not_mem_nil, or_false] at h
  rcases h with ⟨rfl, rfl⟩ | ⟨rfl, rfl⟩ | ⟨rfl, rfl⟩ | ⟨rfl, rfl⟩ | ⟨rfl, rfl⟩ | ⟨rfl, rfl⟩
  all_goals rfl

/-- A text without blanks at its ends converts to a number when the grammar has it. -/
theorem isNaN_ofTrimmedText_iff (text : List Char) :
    (ofTrimmedText text).isNaN = false ↔ Literal.Numeric text := by
  by_cases hne : text = []
  · subst hne
    exact iff_of_true (by decide) .empty
  by_cases hprefixed : ∃ mark radix digits, (mark, radix) ∈ Literal.radixMarks
      ∧ text = '0' :: mark :: digits
  · obtain ⟨mark, radix, digits, hmark, rfl⟩ := hprefixed
    have hall : ∀ p ∈ Literal.radixMarks, p.2 ≤ 16 := by decide
    rw [ofTrimmedText_prefixed hmark, isNaN_ofRadixDigits_iff (hall _ hmark),
      Literal.numeric_prefixed_iff hmark]
  · have hunmarked : ∀ mark rest, text = '0' :: mark :: rest →
        ∀ radix, (mark, radix) ∉ Literal.radixMarks :=
      fun mark rest htext radix h => hprefixed ⟨mark, radix, rest, h, htext⟩
    have hletters : ∀ mark ∈ ['x', 'X', 'o', 'O', 'b', 'B'],
        ∃ p ∈ Literal.radixMarks, p.1 = mark := by simp [Literal.radixMarks]
    rw [Literal.numeric_unmarked_iff hne hunmarked, ← Literal.isSome_parse?,
      ofTrimmedText_unmarked hne]
    · split
      · rename_i hinfinity
        exact iff_of_true (isNaN_ofMagnitude _ le_rfl) (.inl hinfinity)
      · rename_i hinfinity
        cases Decimal.parse? (splitSign text).2 with
        | none =>
          have hnan : ¬ nan.isNaN = false := by decide
          refine iff_of_false hnan ?_
          rintro (h | h)
          · exact hinfinity h
          · exact Bool.false_ne_true h
        | some d => simp [isNaN_ofDecimal]
    · intro mark rest htext hmark
      obtain ⟨⟨_, radix⟩, hmem, rfl⟩ := hletters mark hmark
      exact hunmarked _ rest htext radix hmem

instance : DecidablePred Literal.Numeric := fun text =>
  decidable_of_iff _ (isNaN_ofTrimmedText_iff text)

example : Literal.Numeric "-5.e3".toList ∧ ¬ Literal.Numeric "+0x1".toList
    ∧ ¬ Literal.Numeric "1e+".toList := by decide +kernel

/-! ## The conversion of a script -/

/-- A text converts to a number other than NaN exactly when the grammar of numeric literals
has what is left of it without the white space and the line terminators at its two ends.
Nothing left is zero, and such characters put around a text make no difference. -/
theorem ofScriptText_accepts (s : String) :
    ∃ body, (∀ b, Blank.Trimmed Blank.IsScript s.toList b ↔ b = body)
      ∧ ((ofScriptText s).isNaN = false ↔ Literal.Numeric body)
      ∧ (body = [] → ofScriptText s = zero)
      ∧ ∀ before after, (∀ c ∈ before ++ after, Blank.IsScript c) →
        ofScriptText (String.ofList (before ++ s.toList ++ after)) = ofScriptText s := by
  have hscript : (fun c => Blank.script c = true) = Blank.IsScript :=
    funext fun c => propext (Blank.script_iff c)
  refine ⟨Blank.trim Blank.script s.toList, fun b => ?_, isNaN_ofTrimmedText_iff _,
    fun hempty => ?_, fun before after hblank => ?_⟩
  · rw [← hscript, Blank.trimmed_iff]
  · unfold ofScriptText
    rw [hempty]
    rfl
  · unfold ofScriptText
    rw [String.toList_ofList, Blank.trim_append]
    exact fun c hc => (Blank.script_iff c).mpr (hblank c hc)

end Binary64

end ScriptRealm
