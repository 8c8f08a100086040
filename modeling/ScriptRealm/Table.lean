/-!
# Table — named entries in the order they were added

A table maps names to entries and remembers when each name was added.
Writing under a present name keeps its place, removing a name closes the gap,
and a name that comes back is last. Objects keep their properties in a table
and frames their bindings.

Each operation is settled by what it does to the list of names
(`names_insert_of_contains`, `names_insert_of_not_contains`, `names_erase`) and
to what is found under a name (`find?_insert`, `find?_erase`).
-/

namespace ScriptRealm

/-- Named entries, the earliest first. -/
structure Table (α : Type) where
  entries : List (String × α)

namespace Table

variable {α : Type}

/-- The table without entries. -/
def empty : Table α := ⟨[]⟩

instance : Inhabited (Table α) := ⟨empty⟩

/-- The names, in the order they were added. -/
def names (t : Table α) : List String := t.entries.map (·.1)

/-- The entry under a name. -/
def find? (t : Table α) (name : String) : Option α := t.entries.lookup name

/-- There is an entry under the name. -/
def contains (t : Table α) (name : String) : Bool := (t.find? name).isSome

/-- Writes an entry: in place under a present name, at the end otherwise. -/
def insert (t : Table α) (name : String) (entry : α) : Table α :=
  if t.contains name then
    ⟨t.entries.map fun e => if e.1 == name then (name, entry) else e⟩
  else ⟨t.entries ++ [(name, entry)]⟩

/-- Removes the entry under a name, if there is one. -/
def erase (t : Table α) (name : String) : Table α :=
  ⟨t.entries.filter fun e => e.1 != name⟩

/-! ## What the operations do to the names -/

/-- A name is listed when it has an entry. -/
theorem mem_names_iff (t : Table α) (name : String) :
    name ∈ t.names ↔ t.contains name = true := by
  obtain ⟨entries⟩ := t
  induction entries with
  | nil => simp [names, contains, find?]
  | cons e rest ih =>
    simp only [names, contains, find?, List.map_cons, List.mem_cons] at ih ⊢
    by_cases h : name = e.1 <;> simp [h, ih]

/-- Writing under a present name keeps all names in place. -/
theorem names_insert_of_contains {t : Table α} {name : String} (entry : α)
    (h : t.contains name = true) : (t.insert name entry).names = t.names := by
  simp only [insert, h, if_true, names, List.map_map]
  refine List.map_congr_left fun e _ => ?_
  by_cases he : e.1 = name <;> simp [he]

/-- A new name comes last. -/
theorem names_insert_of_not_contains {t : Table α} {name : String} (entry : α)
    (h : t.contains name = false) : (t.insert name entry).names = t.names ++ [name] := by
  simp [insert, h, names]

/-- Removing a name leaves the others in order. -/
theorem names_erase (t : Table α) (name : String) :
    (t.erase name).names = t.names.filter (· != name) := by
  simp only [erase, names, List.filter_map]
  rfl

/-! ## What the operations do to the entries -/

/-- The first entry decides for its own name. -/
theorem find?_cons (e : String × α) (rest : List (String × α)) (name : String) :
    find? ⟨e :: rest⟩ name = if name = e.1 then some e.2 else find? ⟨rest⟩ name := by
  obtain ⟨key, entry⟩ := e
  by_cases h : name = key
  · simp [find?, h]
  · have hb : (name == key) = false := by simpa using h
    simp [find?, List.lookup_cons, hb, h]

/-- Rewriting the entries of a present name is seen under that name alone. -/
theorem find?_map (entries : List (String × α)) (name other : String) (entry : α) :
    find? ⟨entries.map fun e => if e.1 == name then (name, entry) else e⟩ other
      = if other = name then (find? ⟨entries⟩ name).map fun _ => entry
        else find? ⟨entries⟩ other := by
  induction entries with
  | nil => simp [find?]
  | cons e rest ih =>
    rw [List.map_cons, find?_cons, find?_cons, find?_cons, ih]
    by_cases he : e.1 = name <;> by_cases ho : other = name <;> simp [he, ho]
    grind

/-- A written entry is found under its name, and nothing changes elsewhere. -/
theorem find?_insert (t : Table α) (name other : String) (entry : α) :
    (t.insert name entry).find? other = if other = name then some entry else t.find? other := by
  unfold insert
  split
  · rename_i h
    obtain ⟨old, hold⟩ := Option.isSome_iff_exists.mp h
    rw [find?_map, hold, Option.map_some]
  · rename_i h
    have hnone : t.entries.lookup name = none := Option.not_isSome_iff_eq_none.mp h
    by_cases ho : other = name
    · simp [find?, List.lookup_append, ho, hnone]
    · have hb : (other == name) = false := by simpa using ho
      simp [find?, List.lookup_append, List.lookup_cons, ho, hb]

/-- A removed name is not found, and nothing changes elsewhere. -/
theorem find?_erase (t : Table α) (name other : String) :
    (t.erase name).find? other = if other = name then none else t.find? other := by
  obtain ⟨entries⟩ := t
  unfold erase
  induction entries with
  | nil => simp [find?]
  | cons e rest ih =>
    rw [find?_cons, List.filter_cons]
    split <;> rename_i h
    · rw [find?_cons, ih]
      grind
    · rw [ih]
      grind

/-! ## Which entries there are -/

/-- What is found is an entry. -/
theorem mem_entries_of_find? {t : Table α} {name : String} {entry : α}
    (h : t.find? name = some entry) : (name, entry) ∈ t.entries := by
  obtain ⟨entries⟩ := t
  induction entries with
  | nil => cases h
  | cons e rest ih =>
    rw [find?_cons] at h
    split at h
    · rename_i hname
      cases h
      rw [hname]
      exact List.mem_cons_self
    · exact List.mem_cons_of_mem _ (ih h)

/-- Writing adds one entry at most. -/
theorem mem_entries_insert {t : Table α} {name : String} {entry : α} {e : String × α}
    (h : e ∈ (t.insert name entry).entries) : e = (name, entry) ∨ e ∈ t.entries := by
  unfold insert at h
  split at h
  · obtain ⟨old, hold, rfl⟩ := List.mem_map.mp h
    split
    · exact .inl rfl
    · exact .inr hold
  · rcases List.mem_append.mp h with h | h
    · exact .inr h
    · exact .inl (List.mem_singleton.mp h)

/-- Removing adds no entry. -/
theorem mem_entries_erase {t : Table α} {name : String} {e : String × α}
    (h : e ∈ (t.erase name).entries) : e ∈ t.entries :=
  (List.mem_filter.mp h).1

end Table

end ScriptRealm
