import Mathlib.Data.List.TakeWhile
import ScriptRealm.Text.Blank

/-!
# Blank — what trimming leaves

The blanks of a script are the white space and the line terminators that its
language lists (`Blank.script_iff`). Of every text exactly one part is what is left
without the blanks at its two ends (`Blank.Trimmed`), and trimming gives it
(`Blank.trimmed_iff`); blanks put around a text make no difference
(`Blank.trim_append`).
-/

namespace ScriptRealm.Blank

/-- The code points of white space: the two tabs, the form feed, the byte order mark, and
the space separators of Unicode. -/
def whiteSpace : List Nat :=
  [0x9, 0xB, 0xC, 0xFEFF, 0x20, 0xA0, 0x1680, 0x2000, 0x2001, 0x2002, 0x2003, 0x2004, 0x2005,
    0x2006, 0x2007, 0x2008, 0x2009, 0x200A, 0x202F, 0x205F, 0x3000]

/-- The code points that end a line: line feed, carriage return, and the separators of
lines and of paragraphs. -/
def lineTerminators : List Nat := [0xA, 0xD, 0x2028, 0x2029]

/-- White space or a line terminator. -/
def IsScript (c : Char) : Prop := c.toNat ∈ whiteSpace ∨ c.toNat ∈ lineTerminators

theorem script_iff (c : Char) : script c = true ↔ IsScript c := by
  simp only [script, shared, IsScript, whiteSpace, lineTerminators, Bool.or_eq_true,
    Bool.and_eq_true, decide_eq_true_eq, beq_iff_eq, List.mem_cons, List.not_mem_nil, or_false]
  omega

/-- What is left of a text without the blanks at its two ends. -/
structure Trimmed (blank : Char → Prop) (text body : List Char) : Prop where
  around : ∃ before after, text = before ++ body ++ after ∧ ∀ c ∈ before ++ after, blank c
  first : ∀ c ∈ body.head?, ¬ blank c
  last : ∀ c ∈ body.getLast?, ¬ blank c

variable {blank : Char → Bool}

/-- A text that begins with no blank has none to drop there. -/
theorem dropWhile_eq_self {text : List Char} (h : ∀ c ∈ text.head?, ¬ blank c = true) :
    text.dropWhile blank = text := by
  cases text with
  | nil => rfl
  | cons c rest => exact List.dropWhile_cons_of_neg (h c rfl)

/-- Blanks put around a text make no difference. -/
theorem trim_append {before after : List Char} (text : List Char)
    (h : ∀ c ∈ before ++ after, blank c = true) :
    trim blank (before ++ text ++ after) = trim blank text := by
  obtain ⟨hbefore, hafter⟩ := List.forall_mem_append.mp h
  unfold trim
  rw [List.append_assoc, List.dropWhile_append_of_pos hbefore, List.dropWhile_append]
  split
  · rename_i hnone
    rw [List.dropWhile_eq_nil_iff.mpr hafter, List.isEmpty_iff.mp hnone]
  · rw [List.reverse_append,
      List.dropWhile_append_of_pos fun c hc => hafter c (List.mem_reverse.mp hc)]

/-- A text with no blank at its ends stays as it is. -/
theorem trim_of_ends {text : List Char} (hfirst : ∀ c ∈ text.head?, ¬ blank c = true)
    (hlast : ∀ c ∈ text.getLast?, ¬ blank c = true) : trim blank text = text := by
  unfold trim
  rw [dropWhile_eq_self hfirst, dropWhile_eq_self (by rwa [List.head?_reverse]),
    List.reverse_reverse]

/-- What is not dropped begins with no blank. -/
theorem head?_dropWhile (text : List Char) :
    ∀ c ∈ (text.dropWhile blank).head?, ¬ blank c = true := by
  intro c hc
  have hhead := List.head?_dropWhile_not blank text
  rw [Option.mem_def.mp hc] at hhead
  simpa using hhead

theorem trimmed_trim (text : List Char) :
    Trimmed (blank · = true) text (trim blank text) := by
  have hbefore := List.takeWhile_append_dropWhile (p := blank) (l := text)
  have hafter := List.takeWhile_append_dropWhile (p := blank) (l := (text.dropWhile blank).reverse)
  have hbody : text.dropWhile blank
      = trim blank text ++ ((text.dropWhile blank).reverse.takeWhile blank).reverse := by
    unfold trim
    rw [← List.reverse_append, hafter, List.reverse_reverse]
  refine ⟨⟨text.takeWhile blank, ((text.dropWhile blank).reverse.takeWhile blank).reverse, ?_, ?_⟩,
    ?_, ?_⟩
  · rw [List.append_assoc, ← hbody, hbefore]
  · exact List.forall_mem_append.mpr ⟨fun c hc => List.mem_takeWhile_imp hc,
      fun c hc => List.mem_takeWhile_imp (List.mem_reverse.mp hc)⟩
  · intro c hc
    refine head?_dropWhile text c ?_
    rw [hbody, List.head?_append, Option.mem_def.mp hc]
    rfl
  · unfold trim
    rw [List.getLast?_reverse]
    exact head?_dropWhile _

/-- Trimming gives what is left of a text, and nothing else is. -/
theorem trimmed_iff {text body : List Char} :
    Trimmed (blank · = true) text body ↔ body = trim blank text := by
  constructor
  · rintro ⟨⟨before, after, rfl, hblank⟩, hfirst, hlast⟩
    rw [trim_append body hblank, trim_of_ends hfirst hlast]
  · rintro rfl
    exact trimmed_trim text

end ScriptRealm.Blank
