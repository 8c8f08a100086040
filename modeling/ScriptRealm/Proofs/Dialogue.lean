import ScriptRealm.Proofs.Conversion

/-!
# Dialogue — the lines of a dialogue do not influence one another

All lines of a dialogue are converted in one realm, in which the errors of
earlier lines stay. A conversion that begins in a pristine realm gives the same
text or report in all of them and leaves a pristine realm (`convertIn_eq`), so
by induction on the lines each is answered as the first would be, in strict code
and in sloppy code alike.

`lines_independent` says so of the whole program: what it prints for an input is
put together from what it prints for the lines of the input one by one.
-/

namespace ScriptRealm.Console

/-! ## Lines -/

/-- A line calls methods with primitive arguments only. -/
theorem Command.ofLine?_arguments {line : String} {c : Command}
    (hc : Command.ofLine? line = some c) : ∀ v ∈ c.call.arguments, v.handle? = none := by
  have hword : ∀ word, (Command.wordValue word).handle? = none := by
    intro word
    unfold Command.wordValue
    cases Binary64.parse? word <;> rfl
  unfold Command.ofLine? at hc
  split at hc
  · cases hc
  · cases hc
    exact nofun
  · cases hc
    exact nofun
  · cases hc
    intro v hv
    rw [List.mem_singleton.mp hv]
    exact hword _

/-- The answer that a line has as the first of a dialogue. -/
def answer [Printer] (line : String) : Outcome := (respond (Realm.fresh false ()) line).1

/-- Every pristine realm answers a line as a fresh one, and stays pristine. -/
theorem respond_eq [Printer] {r : ConsoleRealm} (hr : r.Pristine) (line : String) :
    ∃ r', respond r line = (answer line, r') ∧ r'.Pristine := by
  unfold answer respond
  cases hc : Command.ofLine? line with
  | none => exact ⟨r, rfl, hr⟩
  | some c =>
    obtain ⟨e, he, hmethod⟩ : (RealmM.callMethod (.number (Binary64.ofScriptText c.text))
        c.call.method c.call.arguments : RealmM Unit Completion).SettlesInPrimitive runner :=
      RealmM.callMethod_settles 15 _ _ (Command.ofLine?_arguments hc)
    obtain ⟨r', hhere, hr'⟩ := convertIn_eq he hmethod hr
    obtain ⟨_, hfresh, -⟩ := convertIn_eq he hmethod (Realm.Pristine.fresh false ())
    refine ⟨r', ?_, hr'⟩
    simp only [hhere, hfresh]

example : answer "1 nope" = ⟨1, "", "Uncaught TypeError: number.nope is not a function\n"⟩ := by
  decide +kernel

/-- The rest of a dialogue from a pristine realm on. -/
theorem dialogueFrom_eq [Printer] {r : ConsoleRealm} (hr : r.Pristine) (lines : List String) :
    dialogueFrom r (lines.map some)
      = ⟨0, String.join (lines.map fun line => prompt ++ (answer line).out) ++ (prompt ++ "\n"),
          String.join (lines.map fun line => (answer line).err)⟩ := by
  induction lines generalizing r with
  | nil => rfl
  | cons line rest ih =>
    obtain ⟨r', hrespond, hr'⟩ := respond_eq hr line
    simp only [List.map_cons, dialogueFrom, hrespond, ih hr', String.join_cons, String.append_assoc]

/-- A dialogue is put together from the answers to its lines. -/
theorem dialogue_eq [Printer] (strict : Bool) (lines : List String) :
    dialogue strict (lines.map some)
      = ⟨0, banner ++ (String.join (lines.map fun line => prompt ++ (answer line).out)
            ++ (prompt ++ "\n")),
          String.join (lines.map fun line => (answer line).err)⟩ := by
  rw [dialogue, dialogueFrom_eq (Realm.Pristine.fresh strict ())]

/-! ## Inputs -/

/-- A line is an input of one line. -/
theorem splitLines_of_mem {bytes line : List UInt8} (hline : line ∈ splitLines bytes) :
    splitLines line = [line] := by
  induction bytes generalizing line with
  | nil => cases hline
  | cons b rest ih =>
    unfold splitLines at hline
    split at hline
    · rename_i hb
      rcases List.mem_cons.mp hline with rfl | hline
      · rw [splitLines, if_pos hb, splitLines]
      · exact ih hline
    · rename_i hb
      split at hline
      · rename_i first others hrest
        rw [hrest] at ih
        rcases List.mem_cons.mp hline with rfl | hline
        · rw [splitLines, if_neg hb, ih List.mem_cons_self]
        · exact ih (List.mem_cons_of_mem _ hline)
      · rw [List.mem_singleton.mp hline, splitLines, if_neg hb, splitLines]

theorem toList_loop (bytes : ByteArray) (i : Nat) (before : List UInt8) :
    ByteArray.toList.loop bytes i before = before.reverse ++ bytes.data.toList.drop i := by
  induction i, before using ByteArray.toList.loop.induct bytes with
  | case1 i before hlt ih =>
    have hi : i < bytes.data.toList.length := hlt
    have hget : bytes.get! i = bytes.data.toList[i] := getElem!_pos bytes.data i hlt
    rw [ByteArray.toList.loop, if_pos hlt, ih, List.drop_eq_getElem_cons hi, hget,
      List.reverse_cons, List.append_assoc, List.singleton_append]
  | case2 i before hge =>
    have hi : bytes.data.toList.length ≤ i := Nat.le_of_not_lt hge
    rw [ByteArray.toList.loop, if_neg hge, List.drop_eq_nil_of_le hi, List.append_nil]

/-- The text of a line. -/
def lineText (line : List UInt8) : String := (String.fromUTF8? ⟨line.toArray⟩).getD ""

/-- An input of one line, which is text. -/
theorem linesOf_line {line : List UInt8} (hsplit : splitLines line = [line])
    (htext : (String.fromUTF8? ⟨line.toArray⟩).isSome = true) :
    linesOf ⟨line.toArray⟩ = [lineText line].map some := by
  have htoList : (⟨line.toArray⟩ : ByteArray).toList = line := by
    rw [ByteArray.toList, toList_loop]
    rfl
  obtain ⟨text, htext⟩ := Option.isSome_iff_exists.mp htext
  simp only [linesOf, htoList, hsplit, List.map_cons, List.map_nil, lineText, htext,
    Option.getD_some]

/-- An input all of whose lines are text. -/
theorem linesOf_eq {input : ByteArray} (htext : ∀ line ∈ linesOf input, line.isSome = true) :
    linesOf input = ((splitLines input.toList).map lineText).map some := by
  rw [linesOf, List.map_map]
  refine List.map_congr_left fun line hline => ?_
  obtain ⟨text, hline⟩ := Option.isSome_iff_exists.mp (htext _ (List.mem_map_of_mem hline))
  simp only [Function.comp, lineText, hline, Option.getD_some]

/-- The arguments start a dialogue: they are understood and name no text. -/
def StartsDialogue (parse : List String → Invocation) (arguments : List String) : Prop :=
  ∃ o, parse arguments = .run o ∧ o.text? = none

section

variable {parse : List String → Invocation} {arguments : List String} {input : ByteArray}

theorem run_eq_dialogue [Printer] (hstart : StartsDialogue parse arguments)
    {lines : List String} (hlines : linesOf input = lines.map some) :
    run parse arguments input = some
      ⟨0, banner ++ (String.join (lines.map fun line => prompt ++ (answer line).out)
            ++ (prompt ++ "\n")),
          String.join (lines.map fun line => (answer line).err)⟩ := by
  obtain ⟨o, hparse, hnone⟩ := hstart
  simp only [run, hparse, hnone, hlines, dialogue_eq]

end

/-! ## The whole program -/

/-- What is printed for a line. -/
structure Printed where
  out : String
  err : String

/-- With whatever arguments a process of its own is started, this is what it
prints for the line when that is its only one. -/
def PrintsAlone [Printer] (parse : List String → Invocation) (line : List UInt8) (p : Printed) :
    Prop :=
  ∀ arguments, StartsDialogue parse arguments →
    run parse arguments ⟨line.toArray⟩
      = some ⟨0, banner ++ ((prompt ++ p.out) ++ (prompt ++ "\n")), p.err⟩

/-- A dialogue prints for every line what the line prints alone, whatever the
lines before it were, and exits with 0. -/
theorem lines_independent [Printer] (parse : List String → Invocation) {input : ByteArray}
    (htext : ∀ line ∈ linesOf input, line.isSome = true) :
    ∃ printed : List Printed,
      List.Forall₂ (PrintsAlone parse) (splitLines input.toList) printed ∧
      ∀ arguments, StartsDialogue parse arguments →
        run parse arguments input = some
          ⟨0, banner ++ (String.join (printed.map fun p => prompt ++ p.out) ++ (prompt ++ "\n")),
            String.join (printed.map fun p => p.err)⟩ := by
  refine ⟨(splitLines input.toList).map fun line =>
    ⟨(answer (lineText line)).out, (answer (lineText line)).err⟩, ?_, ?_⟩
  · refine List.forall₂_map_right_iff.mpr (List.forall₂_same.mpr fun line hline => ?_)
    have halone := linesOf_line (splitLines_of_mem hline) (htext _ (List.mem_map_of_mem hline))
    intro arguments hstart
    rw [run_eq_dialogue hstart halone]
    simp only [List.map_cons, List.map_nil, String.join_cons, String.join_nil, String.append_empty]
  · intro arguments hstart
    rw [run_eq_dialogue hstart (linesOf_eq htext)]
    simp only [List.map_map, Function.comp_def]

/-- Calls of a constructor, with a count out of range and of no method, a blank
line, and a line that is not ended. -/
def mixedInput : ByteArray := "5 constructor x\n7 toFixed 999\n1 nope\n \n2.5 toFixed".toUTF8

theorem lines_independent_mixedInput :
    StartsDialogue Invocation.parse [] ∧ StartsDialogue Invocation.parse ["--strict"] ∧
    (∀ line ∈ linesOf mixedInput, line.isSome = true) ∧
    ∃ printed : List Printed,
      List.Forall₂ (PrintsAlone Invocation.parse) (splitLines mixedInput.toList) printed ∧
      ∀ arguments, StartsDialogue Invocation.parse arguments →
        run Invocation.parse arguments mixedInput = some
          ⟨0, banner ++ (String.join (printed.map fun p => prompt ++ p.out) ++ (prompt ++ "\n")),
            String.join (printed.map fun p => p.err)⟩ := by
  have htext : ∀ line ∈ linesOf mixedInput, line.isSome = true := by decide +kernel
  exact ⟨⟨_, rfl, rfl⟩, ⟨_, rfl, rfl⟩, htext,
    lines_independent Invocation.parse htext⟩

end ScriptRealm.Console
