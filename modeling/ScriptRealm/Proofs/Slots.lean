import ScriptRealm.Object.Arena

/-!
# Slots — the bookkeeping of an arena

An arena keeps three records of the same thing: which slots are empty, the
list of empty slots, and the number inside each object. `Arena.WellFormed`
says that they agree, and every operation keeps it.

Each operation is settled by what a handle stands for afterwards
(`get?_allocate`, `get?_release`, `get?_modify`). Allocation finds an empty
slot (`get?_upcoming`), so it never takes the place of an object.
-/

namespace ScriptRealm.Arena

variable {β : Type}

/-- The three records agree. -/
structure WellFormed (a : Arena β) : Prop where
  free_nodup : a.free.Nodup
  mem_free_iff : ∀ n, n ∈ a.free ↔ a.slots[n]? = some none
  id_eq : ∀ {h o}, a.get? h = some o → o.id = h.id

/-- The handle that the next allocation gives. -/
def upcoming (a : Arena β) : Handle := ⟨a.free.head?.getD a.slots.size⟩

theorem get?_eq_some_iff {a : Arena β} {h : Handle} {o : Object β} :
    a.get? h = some o ↔ a.slots[h.id]? = some (some o) := by
  simp only [get?, Option.join_eq_some_iff]

/-- A handle with an object names a slot. -/
theorem lt_size_of_get? {a : Arena β} {h : Handle} {o : Object β} (hget : a.get? h = some o) :
    h.id < a.slots.size :=
  (Array.getElem?_eq_some_iff.mp (get?_eq_some_iff.mp hget)).1

/-- An own property is that of the object. -/
theorem getOwn_of_get? {a : Arena β} {h : Handle} {o : Object β} (hget : a.get? h = some o)
    (key : String) : a.getOwn h key = o.getOwn key := by
  rw [getOwn, hget, Option.bind_some]

/-! ## Allocation -/

@[simp] theorem allocate_fst (a : Arena β) (o : Object β) : (a.allocate o).1 = a.upcoming := by
  unfold allocate upcoming
  split <;> simp_all

/-- The next allocation takes an empty slot. -/
theorem get?_upcoming {a : Arena β} (wf : a.WellFormed) : a.get? a.upcoming = none := by
  unfold get? upcoming
  cases hfree : a.free with
  | nil => simp
  | cons n rest =>
    have hempty := (wf.mem_free_iff n).mp (by simp [hfree])
    simp [hempty]

/-- After an allocation the new handle has the new object, and every other
handle what it had. -/
theorem get?_allocate {a : Arena β} (wf : a.WellFormed) (o : Object β) (h : Handle) :
    (a.allocate o).2.get? h
      = if h = a.upcoming then some { o with id := a.upcoming.id } else a.get? h := by
  obtain ⟨n⟩ := h
  unfold allocate upcoming get?
  cases hfree : a.free with
  | nil =>
    simp only [List.head?_nil, Option.getD_none, Handle.mk.injEq, Array.getElem?_push]
    split <;> rfl
  | cons m rest =>
    have hempty := (wf.mem_free_iff m).mp (by simp [hfree])
    have hlt : m < a.slots.size := (Array.getElem?_eq_some_iff.mp hempty).1
    simp only [List.head?_cons, Option.getD_some, Handle.mk.injEq,
      Array.getElem?_setIfInBounds]
    by_cases hn : n = m
    · subst hn
      simp [hlt]
    · simp [hn, Ne.symm hn]

/-- An object that is there stays when another is made. -/
theorem get?_allocate_of_get? {a : Arena β} (wf : a.WellFormed) (o : Object β) {h : Handle}
    {p : Object β} (hp : a.get? h = some p) : (a.allocate o).2.get? h = some p := by
  rw [get?_allocate wf, if_neg, hp]
  rintro rfl
  rw [get?_upcoming wf] at hp
  cases hp

theorem WellFormed.allocate {a : Arena β} (wf : a.WellFormed) (o : Object β) :
    (a.allocate o).2.WellFormed := by
  have hids : ∀ {h p}, (a.allocate o).2.get? h = some p → p.id = h.id := by
    intro h p hget
    rw [get?_allocate wf] at hget
    split at hget
    · rename_i hh
      cases hget
      rw [hh]
    · exact wf.id_eq hget
  refine ⟨?_, ?_, hids⟩
  · unfold Arena.allocate
    have hnodup := wf.free_nodup
    split <;> simp_all
  · intro n
    have hiff := wf.mem_free_iff
    have hnodup := wf.free_nodup
    unfold Arena.allocate
    cases hfree : a.free with
    | nil =>
      simp only [hfree, List.not_mem_nil, false_iff] at hiff ⊢
      rw [Array.getElem?_push]
      split
      · simp
      · exact hiff n
    | cons m rest =>
      rw [hfree, List.nodup_cons] at hnodup
      simp only [hfree, List.mem_cons] at hiff
      have hlt : m < a.slots.size := (Array.getElem?_eq_some_iff.mp ((hiff m).mp (by simp))).1
      simp only [Array.getElem?_setIfInBounds]
      by_cases hn : m = n
      · subst hn
        simp [hlt, hnodup.1]
      · rw [if_neg hn, ← hiff n]
        simp [Ne.symm hn]

/-! ## Release -/

/-- After a release its handle has no object, and every other handle what it had. -/
theorem get?_release (a : Arena β) (h g : Handle) :
    (a.release h).get? g = if g = h then none else a.get? g := by
  unfold release
  cases hget : a.get? h with
  | none =>
    by_cases hg : g = h
    · simp [hg, hget]
    · simp [hg]
  | some o =>
    have hlt := lt_size_of_get? hget
    obtain ⟨n⟩ := g
    obtain ⟨m⟩ := h
    simp only [get?, Array.getElem?_setIfInBounds, Handle.mk.injEq]
    by_cases hn : n = m
    · subst hn
      simp [show n < a.slots.size from hlt]
    · simp [hn, Ne.symm hn]

theorem WellFormed.release {a : Arena β} (wf : a.WellFormed) (h : Handle) :
    (a.release h).WellFormed := by
  have hids : ∀ {g p}, (a.release h).get? g = some p → p.id = g.id := by
    intro g p hget
    rw [get?_release] at hget
    split at hget
    · cases hget
    · exact wf.id_eq hget
  unfold Arena.release at hids ⊢
  cases hget : a.get? h with
  | none => exact wf
  | some o =>
    simp only [hget] at hids
    have hslot := get?_eq_some_iff.mp hget
    have hlt := lt_size_of_get? hget
    have hfree : h.id ∉ a.free := by
      intro hmem
      rw [(wf.mem_free_iff h.id).mp hmem] at hslot
      cases hslot
    refine ⟨List.nodup_cons.mpr ⟨hfree, wf.free_nodup⟩, ?_, hids⟩
    intro n
    simp only [List.mem_cons, Array.getElem?_setIfInBounds]
    by_cases hn : h.id = n
    · simp [← hn, hlt]
    · rw [if_neg hn, ← wf.mem_free_iff n]
      simp [Ne.symm hn]

/-! ## Change in place -/

/-- After a change its handle has the changed object, and every other handle
what it had. -/
theorem get?_modify (a : Arena β) (h g : Handle) (change : Object β → Object β) :
    (a.modify h change).get? g = if g = h then (a.get? h).map change else a.get? g := by
  unfold modify
  cases hget : a.get? h with
  | none =>
    by_cases hg : g = h
    · simp [hg, hget]
    · simp [hg]
  | some o =>
    have hlt := lt_size_of_get? hget
    obtain ⟨n⟩ := g
    obtain ⟨m⟩ := h
    simp only [get?, Array.getElem?_setIfInBounds, Handle.mk.injEq]
    by_cases hn : n = m
    · subst hn
      simp [show n < a.slots.size from hlt]
    · simp [hn, Ne.symm hn]

/-- A change neither makes an object nor takes one away. -/
@[simp] theorem isSome_get?_modify (a : Arena β) (h g : Handle) (change : Object β → Object β) :
    ((a.modify h change).get? g).isSome = (a.get? g).isSome := by
  rw [get?_modify]
  split
  · rename_i hg
    rw [hg, Option.isSome_map]
  · rfl

theorem exists_of_get?_modify {a : Arena β} {h g : Handle} {change : Object β → Object β}
    {o : Object β} (ho : (a.modify h change).get? g = some o) : ∃ old, a.get? g = some old := by
  rw [← Option.isSome_iff_exists, ← isSome_get?_modify a h g change, ho]
  rfl

/-- A change that keeps the number of the object keeps the records in step. -/
theorem WellFormed.modify {a : Arena β} (wf : a.WellFormed) {h : Handle}
    {change : Object β → Object β}
    (hid : ∀ o, a.get? h = some o → (change o).id = o.id) : (a.modify h change).WellFormed := by
  have hids : ∀ {g p}, (a.modify h change).get? g = some p → p.id = g.id := by
    intro g p hget
    rw [get?_modify] at hget
    split at hget
    · rename_i hg
      obtain ⟨o, ho, rfl⟩ := Option.map_eq_some_iff.mp hget
      rw [hid o ho, wf.id_eq ho, hg]
    · exact wf.id_eq hget
  unfold Arena.modify at hids ⊢
  cases hget : a.get? h with
  | none => exact wf
  | some o =>
    simp only [hget] at hids
    have hslot := get?_eq_some_iff.mp hget
    refine ⟨wf.free_nodup, ?_, hids⟩
    intro n
    simp only [Array.getElem?_setIfInBounds]
    by_cases hn : h.id = n
    · subst hn
      rw [wf.mem_free_iff, hslot, if_pos rfl]
      split <;> simp
    · rw [if_neg hn, wf.mem_free_iff]

/-! ## Requests that may be refused -/

/-- An accepted change to a property is a change in place of the object. -/
theorem define?_eq_some {a b : Arena β} {h : Handle} {key : String} {d : Descriptor}
    (accepted : a.define? h key d = some b) :
    ∃ o o', a.get? h = some o ∧ o.define? key d = some o' ∧ b = a.modify h fun _ => o' := by
  unfold define? at accepted
  obtain ⟨o', ho', rfl⟩ := Option.map_eq_some_iff.mp accepted
  obtain ⟨o, ho, hdef⟩ := Option.bind_eq_some_iff.mp ho'
  exact ⟨o, o', ho, hdef, rfl⟩

/-- An accepted change of prototype changes nothing, or the link alone, and then
the object is extensible. -/
theorem setPrototype?_eq_some {a b : Arena β} {h : Handle} {p : Option Handle}
    (accepted : a.setPrototype? h p = some b) :
    ∃ o, a.get? h = some o ∧ (b = a ∧ o.prototype = p ∨
      o.extensible = true ∧ b = a.modify h fun o => { o with prototype := p }) := by
  unfold setPrototype? at accepted
  cases hget : a.get? h with
  | none =>
    rw [hget] at accepted
    cases accepted
  | some o =>
    refine ⟨o, rfl, ?_⟩
    simp only [hget] at accepted
    split at accepted
    · rename_i hsame
      cases accepted
      exact .inl ⟨rfl, hsame⟩
    · split at accepted
      · cases accepted
      · rename_i hext
        refine .inr ⟨by simpa using hext, ?_⟩
        cases p with
        | none =>
          cases accepted
          rfl
        | some p =>
          simp only at accepted
          split at accepted
          · cases accepted
          · cases accepted
            rfl

end ScriptRealm.Arena
