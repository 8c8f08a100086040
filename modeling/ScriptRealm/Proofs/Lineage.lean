import ScriptRealm.Proofs.Genesis

/-!
# Lineage — what becomes of one object

Between two moments of a run at which a handle stands for an object, the
object may have been changed in place, or its slot may have been given back
and taken by another. `Object.Change` lists the changes in place, and
`Object.Becomes` is any number of them.

`Move.get?_eq_some` reads a move from its end: an object that is there
afterwards is a changed one, or a newborn in a slot that was empty. So every
object of a run has grown out of one that was made there
(`Program.history_grown`), and as a slot is emptied by a move of its own, an
object that a handle stands for at every moment of a stretch has changed in
place only (`Course.becomes`).
-/

namespace ScriptRealm

variable {σ : Type} {π : Policy σ} {w w' : World σ}

/-- One change to an object in place. -/
inductive Object.Change (π : Policy σ) (o : Object (Behavior σ)) : Object (Behavior σ) → Prop
  | same : Change π o o
  /-- A requested change to a property is accepted. -/
  | define {key : String} {d : Descriptor} {o' : Object (Behavior σ)}
      (unmixed : π.mixed ∨ ¬ d.Mixed) (accepted : o.define? key d = some o') : Change π o o'
  /-- A configurable property is deleted. -/
  | discard {key : String} {d : Descriptor} (own : o.getOwn key = some d)
      (configurable : d.configurable = some true) : Change π o (o.discard key)
  /-- The object takes no new properties from now on. -/
  | close : Change π o { o with extensible := false }
  /-- The prototype of an extensible object is changed. -/
  | link (p : Option Handle) (extensible : o.extensible = true) :
      Change π o { o with prototype := p }
  /-- A raw edit. -/
  | edit (e : RawEdit) (raw : π.raw o.handle e) : Change π o (e.apply o)

/-- Any number of changes to an object in place. -/
abbrev Object.Becomes (π : Policy σ) : Object (Behavior σ) → Object (Behavior σ) → Prop :=
  Relation.ReflTransGen (Change π)

/-- An object as it is when it is made: with a fresh realm, or later. -/
inductive Object.Born : Object (Behavior σ) → Prop
  | intrinsic (i : Intrinsic) (n : Nat) : Born { i.object with id := n }
  | newborn {o : Object (Behavior σ)} (newborn : o.Newborn) (n : Nat) : Born { o with id := n }

/-- The object is what has become of one that was made. -/
def Object.Grown (π : Policy σ) (o : Object (Behavior σ)) : Prop :=
  ∃ birth : Object (Behavior σ), birth.Born ∧ birth.Becomes π o

/-- What an object in a slot may come from: from the object that was there, by
a change, or from nothing, as a newborn. -/
def Object.StemsFrom (π : Policy σ) (w : World σ) (h : Handle) (o' : Object (Behavior σ)) : Prop :=
  (∃ o, w.get? h = some o ∧ o.Change π o')
    ∨ (w.get? h = none ∧ ∃ o : Object (Behavior σ), o.Newborn ∧ o' = { o with id := h.id })

/-- A move read from its end. -/
theorem Move.get?_eq_some (hw : w.Sound π) (m : Move π w w') {h : Handle}
    {o' : Object (Behavior σ)} (ho' : w'.get? h = some o') : o'.StemsFrom π w h := by
  have hcreate : ∀ {o : Object (Behavior σ)}, o.Newborn →
      (w.realm.arena.allocate o).2.get? h = some o' → o'.StemsFrom π w h := by
    intro o newborn hget
    rw [Arena.get?_allocate hw.arena] at hget
    split at hget
    · rename_i hh
      subst hh
      cases hget
      exact .inr ⟨Arena.get?_upcoming hw.arena, o, newborn, rfl⟩
    · exact .inl ⟨o', hget, .same⟩
  have hmodify : ∀ {g : Handle} {change : Object (Behavior σ) → Object (Behavior σ)},
      (∀ o, w.get? g = some o → o.Change π (change o)) →
      (w.realm.arena.modify g change).get? h = some o' → o'.StemsFrom π w h := by
    intro g change hchange hget
    rw [Arena.get?_modify] at hget
    split at hget
    · rename_i hh
      subst hh
      obtain ⟨o, ho, rfl⟩ := Option.map_eq_some_iff.mp hget
      exact .inl ⟨o, ho, hchange o ho⟩
    · exact .inl ⟨o', hget, .same⟩
  cases m with
  | stay | names | target | host => exact .inl ⟨o', ho', .same⟩
  | create newborn fits => exact hcreate newborn ho'
  | box p => exact hcreate (.wrapper p) ho'
  | @unbox b rest innermost =>
    have hget : (w.realm.arena.release b).get? h = some o' := ho'
    rw [Arena.get?_release] at hget
    split at hget
    · cases hget
    · exact .inl ⟨o', hget, .same⟩
  | define fits unmixed accepted =>
    obtain ⟨old, new, hold, hdefine, rfl⟩ := Arena.define?_eq_some accepted
    refine hmodify (fun o ho => ?_) ho'
    rw [show w.get? _ = some old from hold] at ho
    cases ho
    exact .define unmixed hdefine
  | discard present own configurable =>
    refine hmodify (fun o ho => ?_) ho'
    rw [present] at ho
    cases ho
    exact .discard own configurable
  | close g => exact hmodify (fun o _ => .close) ho'
  | link fits accepted =>
    obtain ⟨old, hold, ⟨rfl, -⟩ | ⟨hextensible, rfl⟩⟩ := Arena.setPrototype?_eq_some accepted
    · exact .inl ⟨o', ho', .same⟩
    · refine hmodify (fun o ho => ?_) ho'
      rw [show w.get? _ = some old from hold] at ho
      cases ho
      exact .link _ hextensible
  | @edit g e raw fits =>
    refine hmodify (fun o ho => .edit e ?_) ho'
    rw [Object.handle, hw.arena.id_eq ho]
    exact raw

/-! ## Along a course -/

variable {ms : List (Moment σ)}

/-- Every object of a course has grown, when those that it begins with have. -/
theorem Course.grown [Printer] (hw : w.Sound π) (hstart : ∀ h o, w.get? h = some o → o.Grown π)
    (hcourse : Course π w ms w') :
    ∀ m ∈ ms, ∀ h o, m.realm.arena.get? h = some o → o.Grown π := by
  induction hcourse with
  | nil =>
    intro m hm
    cases hm
  | @cons w w₁ w₂ e ms move fits rest ih =>
    have hnext : ∀ h o, w₁.get? h = some o → o.Grown π := by
      intro h o ho
      rcases move.get?_eq_some hw ho with ⟨old, hold, hchange⟩ | ⟨-, new, hnew, rfl⟩
      · obtain ⟨birth, hborn, hbecomes⟩ := hstart h old hold
        exact ⟨birth, hborn, hbecomes.tail hchange⟩
      · exact ⟨_, .newborn hnew h.id, .refl⟩
    intro m hm
    rcases List.mem_cons.mp hm with rfl | hm
    · exact hnext
    · exact ih (move.sound hw) hnext m hm

/-- An object whose handle stands for one at every moment is changed in place
only. -/
theorem Course.becomes [Printer] (hw : w.Sound π) (hcourse : Course π w ms w') {h : Handle}
    {before : Object (Behavior σ)} (hbefore : w.get? h = some before)
    (hlive : ∀ m ∈ ms, (m.realm.arena.get? h).isSome = true) :
    ∀ m ∈ ms, ∃ now, m.realm.arena.get? h = some now ∧ before.Becomes π now := by
  induction hcourse generalizing before with
  | nil =>
    intro m hm
    cases hm
  | @cons w w₁ w₂ e ms move fits rest ih =>
    obtain ⟨next, hnext⟩ := Option.isSome_iff_exists.mp (hlive _ List.mem_cons_self)
    have hchange : before.Change π next := by
      rcases move.get?_eq_some hw hnext with ⟨old, hold, hto⟩ | ⟨hnone, -⟩
      · rw [hbefore] at hold
        cases hold
        exact hto
      · rw [hbefore] at hnone
        cases hnone
    intro m hm
    rcases List.mem_cons.mp hm with rfl | hm
    · exact ⟨next, hnext, .single hchange⟩
    · obtain ⟨now, hnow, hbecomes⟩ := ih (move.sound hw) hnext
        (fun m hm => hlive m (List.mem_cons_of_mem _ hm)) m hm
      exact ⟨now, hnow, hbecomes.head hchange⟩

/-- Along a stretch of a run an object that is there at every moment is changed in
place only. -/
theorem Program.history_becomes [Printer] {strict : Bool} {host : σ} {p : Program σ}
    (hp : p.Obeys π Handle.Intrinsic)
    (hhost : ∀ h, π.held host h → π.foreign h ∨ h.Intrinsic) {allowance : Nat}
    {first : Moment σ} {later : List (Moment σ)}
    (hrun : first :: later <:+: p.history allowance (Realm.fresh strict host)) {h : Handle}
    {before : Object (Behavior σ)} (hbefore : first.realm.arena.get? h = some before)
    (hlive : ∀ m ∈ later, (m.realm.arena.get? h).isSome = true) :
    ∀ m ∈ later, ∃ now, m.realm.arena.get? h = some now ∧ before.Becomes π now := by
  obtain ⟨w₁, w₂, hw, hrealm, -, hcourse⟩ := Program.history_stretch hp hhost hrun
  rw [← hrealm] at hbefore
  exact hcourse.becomes hw hbefore hlive

/-- Every object at every moment of a run has grown out of one that was made. -/
theorem Program.history_grown [Printer] {strict : Bool} {host : σ} {p : Program σ}
    (hp : p.Obeys π Handle.Intrinsic)
    (hhost : ∀ h, π.held host h → π.foreign h ∨ h.Intrinsic) {allowance : Nat} {m : Moment σ}
    (hm : m ∈ p.history allowance (Realm.fresh strict host)) {h : Handle}
    {o : Object (Behavior σ)} (ho : m.realm.arena.get? h = some o) : o.Grown π := by
  obtain ⟨w', hcourse⟩ := Program.history_course hp hhost allowance
  refine hcourse.grown (World.sound_fresh strict hhost) ?_ m hm h o ho
  intro h o ho
  rw [show (World.fresh strict host).get? h = _ from Arena.get?_fresh h] at ho
  obtain ⟨i, -, rfl⟩ := Option.map_eq_some_iff.mp ho
  exact ⟨_, .intrinsic i h.id, .refl⟩

end ScriptRealm
