import Mathlib.Data.List.Basic
import ScriptRealm.Text.Utf16

/-!
# Utf16 — text survives being written as code units

A character is written as one unit that is no surrogate, or as a leading and a
trailing one. Either way reading takes exactly the units of that character
(`decode_encodeChar`), so reading what was written gives the text back.

The other direction holds but for half pairs. A unit that is half a pair without its
other half (`isLone`) is read as U+FFFD, which is one unit, and every other unit comes
back as it was (`ofString_toText`); so what comes back is the sequence itself exactly
when no unit of it stands alone (`mended_eq_iff`).
-/

namespace ScriptRealm.Utf16

/-- A unit that begins no pair is read alone. -/
theorem decode_cons {unit : UInt16} (hunit : isLeading unit = false) (rest : List UInt16) :
    decode (unit :: rest) = decodeSingle unit :: decode rest := by
  cases rest with
  | nil => rfl
  | cons next rest => rw [decode, hunit, Bool.false_and, if_neg Bool.false_ne_true]

theorem decode_pair {leading trailing : UInt16} (hleading : isLeading leading = true)
    (htrailing : isTrailing trailing = true) (rest : List UInt16) :
    decode (leading :: trailing :: rest) = decodePair leading trailing :: decode rest := by
  rw [decode, hleading, htrailing, Bool.and_self, if_pos rfl]

/-- A character below 2^16 is not in the range of the surrogates. -/
theorem not_surrogate {c : Char} (hc : c.toNat < 0x10000) :
    isLeading (UInt16.ofNat c.toNat) = false ∧ isTrailing (UInt16.ofNat c.toNat) = false := by
  have hvalid : c.toNat.isValidChar := c.valid
  have hunit : (UInt16.ofNat c.toNat).toNat = c.toNat := UInt16.toNat_ofNat_of_lt' hc
  simp only [isLeading, isTrailing, hunit, Bool.and_eq_false_iff, decide_eq_false_iff_not]
  unfold Nat.isValidChar at hvalid
  omega

/-- Reading takes the units of one character at a time. -/
theorem decode_encodeChar (c : Char) (rest : List UInt16) :
    decode (encodeChar c ++ rest) = c :: decode rest := by
  have hvalid : c.toNat.isValidChar := c.valid
  unfold encodeChar
  split
  · rename_i hone
    obtain ⟨hleading, htrailing⟩ := not_surrogate hone
    have hsingle : decodeSingle (UInt16.ofNat c.toNat) = c := by
      rw [decodeSingle, isSurrogate, hleading, htrailing, Bool.or_self, if_neg Bool.false_ne_true,
        UInt16.toNat_ofNat_of_lt' hone, Char.ofNat_toNat]
    rw [List.singleton_append, decode_cons hleading, hsingle]
  · rename_i htwo
    have hbound : c.toNat < 0x110000 := by
      unfold Nat.isValidChar at hvalid
      omega
    have hfirst : (UInt16.ofNat (0xD800 + (c.toNat - 0x10000) / 0x400)).toNat
        = 0xD800 + (c.toNat - 0x10000) / 0x400 :=
      UInt16.toNat_ofNat_of_lt' (show _ < 0x10000 by omega)
    have hsecond : (UInt16.ofNat (0xDC00 + (c.toNat - 0x10000) % 0x400)).toNat
        = 0xDC00 + (c.toNat - 0x10000) % 0x400 :=
      UInt16.toNat_ofNat_of_lt' (show _ < 0x10000 by omega)
    have hleading : isLeading (UInt16.ofNat (0xD800 + (c.toNat - 0x10000) / 0x400)) = true := by
      simp only [isLeading, hfirst, Bool.and_eq_true, decide_eq_true_eq]
      omega
    have htrailing : isTrailing (UInt16.ofNat (0xDC00 + (c.toNat - 0x10000) % 0x400)) = true := by
      simp only [isTrailing, hsecond, Bool.and_eq_true, decide_eq_true_eq]
      omega
    have hcode : 0x10000 + (0xD800 + (c.toNat - 0x10000) / 0x400 - 0xD800) * 0x400
        + (0xDC00 + (c.toNat - 0x10000) % 0x400 - 0xDC00) = c.toNat := by omega
    rw [List.cons_append, List.singleton_append, decode_pair hleading htrailing, decodePair, hfirst,
      hsecond, hcode, Char.ofNat_toNat]

theorem decode_flatMap_encodeChar (text : List Char) : decode (text.flatMap encodeChar) = text := by
  induction text with
  | nil => rfl
  | cons c rest ih => rw [List.flatMap_cons, decode_encodeChar, ih]

/-- Text written as code units is read back as it was. -/
@[simp]
theorem toText_ofString (text : String) : (ofString text).toText = text := by
  rw [toText, ofString, decode_flatMap_encodeChar, String.ofList_toList]

/-! ## Half pairs -/

/-- Between the units before and after it, the unit is half a pair without its other
half. -/
def isLone (before : Option UInt16) (unit : UInt16) (after : Option UInt16) : Bool :=
  isLeading unit && !after.any isTrailing || isTrailing unit && !before.any isLeading

/-- A unit, or U+FFFD in the place of half a pair. -/
def mendUnit (before : Option UInt16) (unit : UInt16) (after : Option UInt16) : UInt16 :=
  if isLone before unit after then 0xFFFD else unit

/-- The units that follow a given one, with U+FFFD in the place of every half pair. -/
def mend (before : Option UInt16) : List UInt16 → List UInt16
  | [] => []
  | unit :: rest => mendUnit before unit rest.head? :: mend (some unit) rest

/-- The string with U+FFFD in the place of every half pair. -/
def mended (s : Utf16) : Utf16 := ⟨mend none s.units⟩

/-- The unit before a place. -/
def before? (s : Utf16) (place : Nat) : Option UInt16 :=
  if place = 0 then none else s.units[place - 1]?

/-- The unit at a place is half a pair without its other half. -/
def Unpaired (s : Utf16) (place : Nat) : Prop :=
  ∃ unit, s.units[place]? = some unit
    ∧ isLone (s.before? place) unit s.units[place + 1]? = true

theorem not_leading_of_trailing {unit : UInt16} (htrailing : isTrailing unit = true) :
    isLeading unit = false := by
  simp only [isTrailing, isLeading, Bool.and_eq_true, Bool.and_eq_false_iff, decide_eq_true_eq,
    decide_eq_false_iff_not] at htrailing ⊢
  omega

theorem toNat_char_ofNat {n : Nat} (hn : n.isValidChar) : (Char.ofNat n).toNat = n := by
  rw [Char.ofNat, dif_pos hn]
  rfl

/-- A unit that is no surrogate is read as its own character. -/
theorem encodeChar_decodeSingle {unit : UInt16} (hunit : isSurrogate unit = false) :
    encodeChar (decodeSingle unit) = [unit] := by
  have hlt : unit.toNat < 0x10000 := unit.toNat_lt
  have hvalid : unit.toNat.isValidChar := by
    simp only [isSurrogate, isLeading, isTrailing, Bool.or_eq_false_iff, Bool.and_eq_false_iff,
      decide_eq_false_iff_not] at hunit
    unfold Nat.isValidChar
    omega
  rw [decodeSingle, hunit, if_neg Bool.false_ne_true, encodeChar, toNat_char_ofNat hvalid,
    if_pos hlt, UInt16.ofNat_toNat]

/-- Half a pair that is read alone is written as one unit. -/
theorem encodeChar_replacement {unit : UInt16} (hunit : isSurrogate unit = true) :
    encodeChar (decodeSingle unit) = [0xFFFD] := by
  rw [decodeSingle, hunit, if_pos rfl]
  decide

/-- A pair is read as the character that is written as it. -/
theorem encodeChar_decodePair {leading trailing : UInt16} (hleading : isLeading leading = true)
    (htrailing : isTrailing trailing = true) :
    encodeChar (decodePair leading trailing) = [leading, trailing] := by
  simp only [isLeading, isTrailing, Bool.and_eq_true, decide_eq_true_eq] at hleading htrailing
  have hvalid : (0x10000 + (leading.toNat - 0xD800) * 0x400
      + (trailing.toNat - 0xDC00)).isValidChar := by
    unfold Nat.isValidChar
    omega
  have hfirst : 0xD800 + (0x10000 + (leading.toNat - 0xD800) * 0x400 + (trailing.toNat - 0xDC00)
      - 0x10000) / 0x400 = leading.toNat := by omega
  have hsecond : 0xDC00 + (0x10000 + (leading.toNat - 0xD800) * 0x400 + (trailing.toNat - 0xDC00)
      - 0x10000) % 0x400 = trailing.toNat := by omega
  rw [encodeChar, decodePair, toNat_char_ofNat hvalid, if_neg (by omega)]
  simp only [hfirst, hsecond, UInt16.ofNat_toNat]

/-- A unit that is not part of a pair stands alone if it is half of one. -/
theorem isLone_eq_isSurrogate {before after : Option UInt16} {unit : UInt16}
    (hbefore : isTrailing unit = true → before.any isLeading = false)
    (hafter : isLeading unit = true → after.any isTrailing = false) :
    isLone before unit after = isSurrogate unit := by
  unfold isLone isSurrogate
  cases htrailing : isTrailing unit <;> cases hleading : isLeading unit <;>
    simp [hbefore, hafter, htrailing, hleading]

/-- Such a unit is mended when it is read and written again. -/
theorem encodeChar_unpaired {before after : Option UInt16} {unit : UInt16}
    (hlone : isLone before unit after = isSurrogate unit) :
    encodeChar (decodeSingle unit) = [mendUnit before unit after] := by
  rw [mendUnit, hlone]
  cases hunit : isSurrogate unit with
  | true => rw [encodeChar_replacement hunit, if_pos rfl]
  | false => rw [encodeChar_decodeSingle hunit, if_neg Bool.false_ne_true]

/-- Reading and writing again mends the units, when the first is not the other half of the
unit before them. -/
theorem encode_decode (units : List UInt16) (before : Option UInt16)
    (hbefore : units.head?.any isTrailing = true → before.any isLeading = false) :
    (decode units).flatMap encodeChar = mend before units := by
  induction units using decode.induct generalizing before with
  | case1 => rfl
  | case2 unit =>
    have hlone : isLone before unit none = isSurrogate unit :=
      isLone_eq_isSurrogate hbefore fun _ => rfl
    rw [decode, List.flatMap_singleton, encodeChar_unpaired hlone]
    rfl
  | case3 unit next rest hpair ih =>
    obtain ⟨hleading, htrailing⟩ := Bool.and_eq_true_iff.mp hpair
    have hnext := not_leading_of_trailing htrailing
    have hunit : isTrailing unit = false := by
      by_contra hno
      rw [not_leading_of_trailing (by simpa using hno)] at hleading
      cases hleading
    rw [decode_pair hleading htrailing, List.flatMap_cons, encodeChar_decodePair hleading htrailing,
      ih (some next) fun _ => by simpa using hnext]
    simp [mend, mendUnit, isLone, hleading, htrailing, hnext, hunit]
  | case4 unit next rest hpair ih =>
    have hlone : isLone before unit (some next) = isSurrogate unit :=
      isLone_eq_isSurrogate hbefore fun hleading => by simpa [hleading] using hpair
    rw [decode, if_neg hpair, List.flatMap_cons, encodeChar_unpaired hlone,
      ih (some unit) fun hnext => by simpa [show isTrailing next = true from hnext] using hpair]
    rfl

/-- A string that is read as text and written again has U+FFFD in the place of every half
pair, and is otherwise as it was. -/
theorem ofString_toText (s : Utf16) : ofString s.toText = s.mended := by
  rw [ofString, toText, String.toList_ofList, encode_decode s.units none fun _ => rfl]
  rfl

/-! ## What mending changes -/

theorem length_mend (units : List UInt16) (before : Option UInt16) :
    (mend before units).length = units.length := by
  induction units generalizing before with
  | nil => rfl
  | cons unit rest ih => exact congrArg (· + 1) (ih (some unit))

@[simp] theorem length_mended (s : Utf16) : s.mended.length = s.length := length_mend s.units none

theorem getElem?_mend (units : List UInt16) (before : Option UInt16) (place : Nat) :
    (mend before units)[place]? = (units[place]?).map fun unit =>
      mendUnit (if place = 0 then before else units[place - 1]?) unit units[place + 1]? := by
  induction units generalizing before place with
  | nil => rfl
  | cons unit rest ih =>
    cases place with
    | zero => simp [mend, List.head?_eq_getElem?]
    | succ place =>
      rw [mend, List.getElem?_cons_succ, ih (some unit) place]
      cases place <;> simp

/-- Each unit is mended by itself. -/
theorem getElem?_mended (s : Utf16) (place : Nat) :
    s.mended.units[place]? = (s.units[place]?).map fun unit =>
      mendUnit (s.before? place) unit s.units[place + 1]? :=
  getElem?_mend s.units none place

/-- Half a pair is not U+FFFD. -/
theorem mendUnit_eq_iff {before after : Option UInt16} {unit : UInt16} :
    mendUnit before unit after = unit ↔ isLone before unit after = false := by
  unfold mendUnit
  cases hlone : isLone before unit after with
  | false => simp
  | true =>
    refine ⟨fun heq => ?_, nofun⟩
    rw [if_pos rfl] at heq
    rw [← heq] at hlone
    simp [isLone, isLeading, isTrailing] at hlone

/-- A string is left as it is exactly when no unit of it is half a pair without its other
half. -/
theorem mended_eq_iff {s : Utf16} : s.mended = s ↔ ∀ place, ¬ s.Unpaired place := by
  have hunits : s.mended = s ↔ ∀ place : Nat, s.mended.units[place]? = s.units[place]? := by
    rw [← List.ext_getElem?_iff]
    exact ⟨congrArg units, fun h => congrArg Utf16.mk h⟩
  rw [hunits]
  refine forall_congr' fun place => ?_
  rw [getElem?_mended, Unpaired]
  cases s.units[place]? with
  | none => simp
  | some unit => simp [mendUnit_eq_iff]

end ScriptRealm.Utf16
