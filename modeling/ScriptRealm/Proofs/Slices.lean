import Mathlib.Data.List.Basic
import ScriptRealm.Proofs.Utf16

/-!
# Slices — what conversion and slicing keep

A slice holds the units from one offset up to another, wherever the offsets lie
(`Utf16.units_slice`), so slices that meet make up the slice over both
(`Utf16.slice_append`). `Utf16.text_and_slices` puts this beside what reading and
writing text keep: text comes back as it was, a sequence comes back as it was exactly
when no surrogate in it stands alone, and otherwise each lone one gives way to one
U+FFFD in its place.

Slicing may cut a surrogate pair, and then the two halves stand alone. Nowhere else does
a cut show: the texts of two slices that meet make up the text of the slice over both
unless the cut divides a pair (`Utf16.toText_slice_append`).
-/

namespace ScriptRealm.Utf16

/-- Clamping the offsets changes nothing. -/
theorem units_slice (s : Utf16) (start stop : Nat) :
    (s.slice start stop).units = (s.units.take stop).drop start := by
  have htake : s.units.take (min stop s.length) = s.units.take stop := by
    rw [List.take_eq_take_iff, length, Nat.min_assoc, Nat.min_self]
  unfold slice
  dsimp only
  split
  · next hnone =>
    refine (List.drop_eq_nil_of_le ?_).symm
    rw [List.length_take]
    unfold length at hnone
    omega
  · next hsome =>
    have hstart : min start s.length = start := by omega
    rw [htake, hstart]

theorem getElem?_slice (s : Utf16) (start stop place : Nat) :
    (s.slice start stop).units[place]?
      = if start + place < stop then s.units[start + place]? else none := by
  rw [units_slice, List.getElem?_drop, List.getElem?_take]

/-- Slices that meet make up the slice over both. -/
theorem slice_append (s : Utf16) {i j k : Nat} (hij : i ≤ j) (hjk : j ≤ k) :
    (s.slice i j).units ++ (s.slice j k).units = (s.slice i k).units := by
  have hfirst : (s.units.take j).drop i = ((s.units.take k).drop i).take (j - i) := by
    rw [← List.drop_take, List.take_take, Nat.min_eq_left hjk]
  have hsecond : (s.units.take k).drop j = ((s.units.take k).drop i).drop (j - i) := by
    rw [List.drop_drop, Nat.add_sub_cancel' hij]
  rw [units_slice, units_slice, units_slice, hfirst, hsecond, List.take_append_drop]

/-- A stop at or before the start leaves nothing. -/
theorem slice_eq_empty (s : Utf16) {start stop : Nat} (h : stop ≤ start) :
    s.slice start stop = empty := by
  have hclamped : min stop s.length ≤ min start s.length := by omega
  exact if_pos hclamped

/-! ## Text of slices -/

/-- A leading unit is before the place and a trailing one at it. -/
def DividesPair (s : Utf16) (place : Nat) : Prop :=
  (s.before? place).any isLeading = true ∧ s.units[place]?.any isTrailing = true

theorem decode_unpaired {unit next : UInt16} (hpair : (isLeading unit && isTrailing next) ≠ true)
    (rest : List UInt16) :
    decode (unit :: next :: rest) = decodeSingle unit :: decode (next :: rest) := by
  rw [decode, if_neg hpair]

/-- Reading goes on by itself after units that do not end with the first half of a pair
that the next ones begin with the second of. -/
theorem decode_append {units others : List UInt16}
    (h : ¬ (units.getLast?.any isLeading = true ∧ others.head?.any isTrailing = true)) :
    decode (units ++ others) = decode units ++ decode others := by
  induction units using decode.induct with
  | case1 => rfl
  | case2 unit =>
    cases others with
    | nil => rfl
    | cons next rest => exact decode_unpaired (by simpa using h) rest
  | case3 unit next rest hpair ih =>
    obtain ⟨hleading, htrailing⟩ := Bool.and_eq_true_iff.mp hpair
    have hrest : ¬ (rest.getLast?.any isLeading = true ∧ others.head?.any isTrailing = true) := by
      cases rest with
      | nil => simp
      | cons unit' rest' => simpa [List.getLast?_cons_cons] using h
    rw [List.cons_append, List.cons_append, decode_pair hleading htrailing,
      decode_pair hleading htrailing, ih hrest, List.cons_append]
  | case4 unit next rest hpair ih =>
    rw [List.getLast?_cons_cons] at h
    rw [List.cons_append, List.cons_append, decode_unpaired hpair, decode_unpaired hpair,
      ← List.cons_append, ih h, List.cons_append]

/-- The last unit of a slice that is not empty is the one before its stop. -/
theorem getLast?_slice {s : Utf16} {start stop : Nat} (hstop : stop ≤ s.length) {unit : UInt16}
    (h : (s.slice start stop).units.getLast? = some unit) : s.before? stop = some unit := by
  have hlength : (s.slice start stop).units.length = stop - start := by
    rw [units_slice, List.length_drop, List.length_take]
    unfold length at hstop
    omega
  rw [List.getLast?_eq_getElem?, hlength, getElem?_slice] at h
  split at h
  · next hplace =>
    have hlast : start + (stop - start - 1) = stop - 1 := by omega
    rw [before?, if_neg (by omega), ← hlast, h]
  · cases h

/-- The texts of slices that meet make up the text of the slice over both, unless the cut
divides a pair. -/
theorem toText_slice_append (s : Utf16) {i j k : Nat} (hij : i ≤ j) (hjk : j ≤ k)
    (hcut : ¬ s.DividesPair j) :
    (s.slice i j).toText ++ (s.slice j k).toText = (s.slice i k).toText := by
  have hmeet : ¬ ((s.slice i j).units.getLast?.any isLeading = true
      ∧ (s.slice j k).units.head?.any isTrailing = true) := by
    rintro ⟨hleading, htrailing⟩
    obtain ⟨unit, hunit, hleading⟩ := (Option.any_eq_true ..).mp hleading
    obtain ⟨next, hnext, htrailing⟩ := (Option.any_eq_true ..).mp htrailing
    have hat : s.units[j]? = some next := by
      rw [List.head?_eq_getElem?, getElem?_slice] at hnext
      split at hnext
      · exact hnext
      · cases hnext
    have hstop : j ≤ s.length := Nat.le_of_lt (List.getElem?_eq_some_iff.mp hat).1
    refine hcut ⟨?_, ?_⟩
    · rw [getLast?_slice hstop hunit]
      exact hleading
    · rw [hat]
      exact htrailing
  rw [toText, toText, toText, ← slice_append s hij hjk, decode_append hmeet, String.ofList_append]

/-- What conversion and slicing keep. Text that is written as code units is read as it was.
A sequence that is read and written again is as it was exactly when no surrogate in it
stands alone; otherwise each lone one has given way to U+FFFD, and nothing else is
changed, so the length is kept. Slices that meet make up the slice over both, wherever
the offsets lie, and a stop at or before the start leaves nothing. -/
theorem text_and_slices (text : String) (s : Utf16) :
    (ofString text).toText = text
      ∧ (ofString s.toText = s ↔ ∀ place, ¬ s.Unpaired place)
      ∧ (∀ place, (ofString s.toText).units[place]? = s.units[place]?.map fun unit =>
          if isLone (s.before? place) unit s.units[place + 1]? then 0xFFFD else unit)
      ∧ (ofString s.toText).length = s.length
      ∧ (∀ i j k, i ≤ j → j ≤ k →
          (s.slice i j).units ++ (s.slice j k).units = (s.slice i k).units)
      ∧ (∀ start stop, stop ≤ start → s.slice start stop = empty)
      ∧ ∀ start stop place, (s.slice start stop).units[place]?
          = if start + place < stop then s.units[start + place]? else none := by
  rw [ofString_toText]
  exact ⟨toText_ofString text, mended_eq_iff, getElem?_mended s, length_mended s,
    fun _ _ _ => slice_append s, fun _ _ => slice_eq_empty s, getElem?_slice s⟩

/-- A cut inside a pair, with a lone surrogate after it and an offset past the end. -/
theorem text_and_slices_cut_pair :
    let s : Utf16 := ⟨[0xD83D, 0xDE00, 0xD800]⟩
    (s.slice 0 1).units ++ (s.slice 1 18446744073709551615).units
        = (s.slice 0 18446744073709551615).units
      ∧ s.slice 3 1 = empty :=
  ⟨(text_and_slices "" _).2.2.2.2.1 0 1 _ (by decide) (by decide),
    (text_and_slices "" _).2.2.2.2.2.1 3 1 (by decide)⟩

end ScriptRealm.Utf16
