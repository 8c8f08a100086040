import ScriptRealm.Proofs.Number.Numeral
import ScriptRealm.Proofs.Number.ShortestDigits

/-!
# Default text — the text of a number reads as the number

The default text of a finite number other than zero is its sign and what is printed for
the number without the sign (`Binary64.toText_eq`). With a printer that prints the
shortest decimals this is laid out from digits that round to the number, so the number is
read from it again, by scripts (`Binary64.ofScriptText_toText`) and as a numeral
(`Binary64.value?_toText`).

The printer is a hypothesis and no more is asked of it; the one that searches for the
shortest form fulfils it.
-/

namespace ScriptRealm

/-- The layout of the default text writes the form. -/
theorem Scientific.Lawful.writes {s : Scientific} (h : s.Lawful) : s.Writes s.layout := by
  unfold layout
  split
  · exact writes_positional h
  · exact writes_exponential h

/-- The form of what is printed for a number without its sign. -/
theorem Printer.PrintsShortest.exists_form [Printer] (h : Printer.PrintsShortest) {x : Binary64}
    (hfinite : x.isFinite = true) (hzero : x.isZero = false) :
    ∃ s : Scientific, s.ShortestFor x.absolute ∧ Printer.print x.absolute = s.layout :=
  h x.absolute (by rwa [Binary64.isFinite_absolute]) (Binary64.value_absolute_pos hzero)

namespace Binary64

/-- The text of a finite number other than zero is its sign and what is printed for the
number without it. -/
theorem toText_eq [Printer] {x : Binary64} (hfinite : x.isFinite = true)
    (hzero : x.isZero = false) :
    x.toText
      = String.ofList ((if x.isNegative then ['-'] else []) ++ Printer.print x.absolute) := by
  have hmagnitude : x.magnitude < infiniteMagnitude := of_decide_eq_true hfinite
  have hnan : x.isNaN = false := decide_eq_false (Nat.lt_asymm hmagnitude)
  have hinfinite : x.isInfinite = false := beq_false_of_ne (Nat.ne_of_lt hmagnitude)
  unfold toText
  rw [hnan, hzero, hinfinite, signMark_eq hnan hzero]
  rfl

/-- A finite number other than zero is what its text reads as, bit by bit. -/
theorem ofScriptText_toText_of_isFinite [Printer] (h : Printer.PrintsShortest) {x : Binary64}
    (hfinite : x.isFinite = true) (hzero : x.isZero = false) : ofScriptText x.toText = x := by
  obtain ⟨s, hs, hprint⟩ := h.exists_form hfinite hzero
  rw [toText_eq hfinite hzero, hprint, ofScriptText_of_writes hs.lawful.writes,
    hs.nearest.reads hfinite hzero]

/-- The text of a finite number other than zero is a numeral in base ten, and its value
rounds to the number. -/
theorem value?_toText [Printer] (h : Printer.PrintsShortest) {x : Binary64}
    (hfinite : x.isFinite = true) (hzero : x.isZero = false) :
    ∃ q, Numeral.value? 10 x.toText = some q ∧ Numeral.nearest q = x := by
  obtain ⟨s, hs, hprint⟩ := h.exists_form hfinite hzero
  have hpos := hs.nearest.pos (isNegative_absolute x) ((isZero_absolute x).trans hzero)
  rw [toText_eq hfinite hzero, hprint, hs.lawful.writes.value?]
  exact ⟨_, rfl, by rw [Numeral.nearest_toRat _ hpos, hs.nearest.reads hfinite hzero]⟩

/-- Every number is the same, up to the sign of zero, as the one that its text reads
as: finite numbers of every size, the zeros, the infinities and NaN. -/
theorem ofScriptText_toText [Printer] (h : Printer.PrintsShortest) (x : Binary64) :
    (ofScriptText x.toText).sameValueZero x = true := by
  by_cases hnan : x.isNaN = true
  · have htext : x.toText = "NaN" := by
      unfold toText
      rw [if_pos hnan]
    have hread : (ofScriptText "NaN").isNaN = true := by decide +kernel
    unfold sameValueZero
    rw [htext, hread, hnan]
    rfl
  · rw [Bool.not_eq_true] at hnan
    by_cases hzero : x.isZero = true
    · have htext : x.toText = "0" := by
        unfold toText
        rw [hnan, if_neg Bool.false_ne_true, if_pos hzero]
      have hread : ofScriptText "0" = zero := by decide +kernel
      unfold sameValueZero
      rw [htext, hread, zero_equal hzero, Bool.or_true]
    · rw [Bool.not_eq_true] at hzero
      suffices ofScriptText x.toText = x by
        rw [this]
        exact sameValueZero_refl x
      by_cases hinfinite : x.isInfinite = true
      · have hmagnitude : x.magnitude = infiniteMagnitude := beq_iff_eq.mp hinfinite
        unfold toText
        rw [hnan, hzero, if_neg Bool.false_ne_true, if_neg Bool.false_ne_true, if_pos hinfinite,
          signMark_eq hnan hzero, ofScriptText_infinity, infinity, ← hmagnitude,
          ofMagnitude_magnitude]
      · refine ofScriptText_toText_of_isFinite h (decide_eq_true ?_) hzero
        have hle := Nat.le_of_not_lt (of_decide_eq_false hnan)
        exact Nat.lt_of_le_of_ne hle fun h => hinfinite (beq_iff_eq.mpr h)

/-- The least positive number has one digit far behind the point. -/
theorem ofScriptText_toText_least :
    @Printer.PrintsShortest Printer.shortest ∧ toText ⟨1⟩ = "5e-324"
      ∧ (ofScriptText "5e-324").sameValueZero ⟨1⟩ = true := by
  have htext : toText ⟨1⟩ = "5e-324" := by decide +kernel
  have hread := ofScriptText_toText Printer.shortest_printsShortest ⟨1⟩
  rw [htext] at hread
  exact ⟨Printer.shortest_printsShortest, htext, hread⟩

end Binary64

end ScriptRealm
