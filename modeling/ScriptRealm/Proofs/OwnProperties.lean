import Mathlib.Data.List.Nodup
import ScriptRealm.Object.Basic

/-!
# OwnProperties — finding, listing and changing properties

An object has two sources of own properties, the stored ones and those that
a string makes up (`Object.getOwn_cases`). `Object.mem_ownKeys_iff` says that
the listing and the lookup draw on both alike: a key is listed exactly when a
property is found under it. It rests on the decimal text of an index being
read back as that index, and as no other (`Object.keyIndex?_eq_some_iff`).

`Object.ownKeys_nodup_iff` says when a key is listed twice: when a key that
the string makes up is stored as well. What a requested change can do to an
object is said once, by `Object.define?_cases`.
-/

namespace ScriptRealm

/-- The digits of a number denote it. -/
theorem Decimal.ofDigits_digits (n : Nat) : ofDigits (digits n) = n :=
  Nat.ofDigitChars_ten_toDigits

namespace Object

variable {β : Type}

/-! ## Index keys -/

theorem toList_indexKey (n : Nat) : (indexKey n).toList = Decimal.digits n :=
  String.toList_ofList

/-- A key stands for an index exactly when it is the index written out. -/
theorem keyIndex?_eq_some_iff {key : String} {n : Nat} :
    keyIndex? key = some n ↔ indexKey n = key := by
  unfold keyIndex?
  constructor
  · intro h
    dsimp only at h
    split at h
    · rename_i hkey
      cases h
      exact hkey
    · cases h
  · rintro rfl
    simp [toList_indexKey, Decimal.ofDigits_digits]

theorem indexKey_injective : Function.Injective indexKey := by
  intro m n h
  have hm := keyIndex?_eq_some_iff.mpr h
  rw [keyIndex?_eq_some_iff.mpr rfl] at hm
  exact (Option.some.inj hm).symm

/-- The key `length` is no index. -/
theorem indexKey_ne_length (n : Nat) : indexKey n ≠ "length" := by
  intro h
  have hmem : 'l' ∈ Decimal.digits n := by
    rw [← toList_indexKey, h]
    decide
  have hdigit := Nat.isDigit_of_mem_toDigits (by decide) (by decide) hmem
  exact absurd hdigit (by decide)

/-! ## Keys that a string makes up -/

/-- The keys of the properties that the object has without storing them. -/
def madeUpKeys (o : Object β) : List String := (o.stringData?.map unitKeys).getD []

theorem mem_unitKeys_iff {s : Utf16} {key : String} :
    key ∈ unitKeys s ↔ key = "length" ∨ ∃ n < s.length, indexKey n = key := by
  simp only [unitKeys, List.mem_append, List.mem_map, List.mem_range, List.mem_singleton]
  exact or_comm

theorem unitKeys_nodup (s : Utf16) : (unitKeys s).Nodup := by
  refine List.nodup_append.mpr ⟨?_, List.nodup_singleton _, ?_⟩
  · exact List.nodup_range.map indexKey_injective
  · intro a ha b hb
    obtain ⟨n, -, rfl⟩ := List.mem_map.mp ha
    rw [List.mem_singleton.mp hb]
    exact indexKey_ne_length n

/-- A string makes up a property under each of its keys, and under no other. -/
theorem isSome_unitProperty?_iff {s : Utf16} {key : String} :
    (unitProperty? s key).isSome = true ↔ key ∈ unitKeys s := by
  rw [mem_unitKeys_iff]
  unfold unitProperty?
  split
  · rename_i hkey
    simp [hkey]
  · rename_i hkey
    cases hindex : keyIndex? key with
    | none =>
      have hno : ¬ ∃ n < s.length, indexKey n = key := by
        rintro ⟨n, -, hn⟩
        rw [keyIndex?_eq_some_iff.mpr hn] at hindex
        cases hindex
      simp [hkey, hno]
    | some n =>
      have hn := keyIndex?_eq_some_iff.mp hindex
      have hiff : (∃ m < s.length, indexKey m = key) ↔ n < s.length := by
        constructor
        · rintro ⟨m, hm, hkey⟩
          rwa [← indexKey_injective (hkey.trans hn.symm)]
        · intro hlt
          exact ⟨n, hlt, hn⟩
      rw [hiff]
      by_cases hlt : n < s.length <;> simp [hkey, hlt]

/-! ## Own properties -/

/-- A made-up property holds a primitive, and can neither be written nor
configured. -/
theorem unitProperty?_eq_some {s : Utf16} {key : String} {d : Descriptor}
    (h : unitProperty? s key = some d) :
    ∃ v enumerable, v.handle? = none ∧ d = .data v false enumerable false := by
  unfold unitProperty? at h
  split at h
  · cases h
    exact ⟨_, false, rfl, rfl⟩
  · split at h
    · cases h
    · split at h
      · cases h
        exact ⟨_, true, rfl, rfl⟩
      · cases h

/-- An own property is stored, or a string makes it up. -/
theorem getOwn_cases {o : Object β} {key : String} {d : Descriptor} (h : o.getOwn key = some d) :
    (key, d) ∈ o.properties.entries
      ∨ ∃ v enumerable, v.handle? = none ∧ d = .data v false enumerable false := by
  unfold getOwn at h
  cases hfind : o.properties.find? key with
  | some stored =>
    rw [hfind] at h
    cases h
    exact .inl (Table.mem_entries_of_find? hfind)
  | none =>
    rw [hfind] at h
    obtain ⟨s, -, hunit⟩ := Option.bind_eq_some_iff.mp h
    exact .inr (unitProperty?_eq_some hunit)

/-! ## Own keys -/

theorem ownKeys_eq (o : Object β) : o.ownKeys = o.madeUpKeys ++ o.properties.names := rfl

/-- A key is listed exactly when a property is found under it. -/
theorem mem_ownKeys_iff {o : Object β} {key : String} :
    key ∈ o.ownKeys ↔ (o.getOwn key).isSome = true := by
  rw [ownKeys_eq, List.mem_append, Table.mem_names_iff]
  unfold getOwn Table.contains madeUpKeys
  cases hfind : o.properties.find? key with
  | some d => simp
  | none =>
    cases hstring : o.stringData? with
    | none => simp
    | some s => simp [isSome_unitProperty?_iff]

/-- When no key is stored twice, a key is listed twice exactly when it is made up
and stored. -/
theorem ownKeys_nodup_iff {o : Object β} (hstored : o.properties.names.Nodup) :
    o.ownKeys.Nodup ↔ ∀ key ∈ o.madeUpKeys, key ∉ o.properties.names := by
  have hmadeUp : o.madeUpKeys.Nodup := by
    unfold madeUpKeys
    cases o.stringData? with
    | none => exact List.nodup_nil
    | some s => exact unitKeys_nodup s
  rw [ownKeys_eq, List.nodup_append]
  constructor
  · rintro ⟨-, -, hne⟩ key hmade hkey
    exact hne key hmade key hkey rfl
  · intro hne
    refine ⟨hmadeUp, hstored, ?_⟩
    rintro a ha b hb rfl
    exact hne a ha hb

/-! ## Properties after a change -/

/-- An accepted change adds a property to an extensible object, or changes one
with the leave of its present descriptor. -/
theorem define?_cases {o o' : Object β} {key : String} {d : Descriptor}
    (accepted : o.define? key d = some o') :
    (o.getOwn key = none ∧ o.extensible = true ∧ o' = o.store key d.complete)
      ∨ ∃ current, o.getOwn key = some current ∧ current.allows d = true
        ∧ o' = o.store key (current.merge d) := by
  unfold define? at accepted
  split at accepted
  · rename_i hown
    split at accepted
    · rename_i hextensible
      cases accepted
      exact .inl ⟨hown, hextensible, rfl⟩
    · cases accepted
  · rename_i current hown
    split at accepted
    · rename_i hallows
      cases accepted
      exact .inr ⟨current, hown, hallows, rfl⟩
    · cases accepted

theorem getOwn_store (o : Object β) (key other : String) (d : Descriptor) :
    (o.store key d).getOwn other = if other = key then some d else o.getOwn other := by
  unfold getOwn store
  rw [Table.find?_insert]
  split
  · rfl
  · rfl

theorem getOwn_discard_of_ne (o : Object β) {key other : String} (hne : other ≠ key) :
    (o.discard key).getOwn other = o.getOwn other := by
  unfold getOwn discard
  rw [Table.find?_erase, if_neg hne]
  rfl

/-- Deleting a property adds none. -/
theorem isSome_getOwn_of_discard {o : Object β} {key other : String}
    (hown : (o.getOwn key).isSome = true)
    (h : ((o.discard key).getOwn other).isSome = true) : (o.getOwn other).isSome = true := by
  by_cases hne : other = key
  · rw [hne]
    exact hown
  · rwa [getOwn_discard_of_ne o hne] at h

end Object

end ScriptRealm
