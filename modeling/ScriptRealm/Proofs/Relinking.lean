import ScriptRealm.Proofs.Ancestry
import ScriptRealm.Proofs.Boxing

/-!
# Relinking — a change of prototype is refused only when it must be

`Arena.Under` says that prototype links lead from one object to another, however
many there are of them. Two things are asked of the bounded chain of an object that
come to the same as that: whether a new prototype would make a cycle, and whether
`isPrototypeOf` finds the receiver above its argument.

`Program.prototype_changed_iff` says for every moment of every program when a change
of prototype is accepted, what `isPrototypeOf` answers there, and that an accepted
change leaves everything else as it is.
-/

namespace ScriptRealm

namespace Arena

variable {β : Type} {a b : Arena β} {o p : Handle} {x : Object β} {q : Option Handle}

/-- From the one object one link or more lead to the other. -/
def Under (a : Arena β) (below above : Handle) : Prop :=
  Relation.TransGen (fun h p => a.prototype? h = some p) below above

/-- The chain of an object has the object itself and all that it is under. -/
theorem mem_chain_iff_under (ho : (a.get? o).isSome = true) :
    o ∈ a.chain p ↔ o = p ∨ a.Under p o := by
  have hlinks : Links a.above? = fun h p => a.prototype? h = some p := by
    funext h p
    exact propext links_above?_iff
  rw [mem_chain_iff, and_iff_right ho, hlinks]
  exact Relation.reflTransGen_iff_eq_or_transGen

theorem chain_cases (a : Arena β) (h : Handle) : a.chain h = [] ∨ ∃ l, a.chain h = h :: l := by
  unfold chain
  cases a.slots.size with
  | zero => exact .inl rfl
  | succ n =>
    cases ho : a.get? h with
    | none => exact .inl (by simp [chainUpTo, ho])
    | some o =>
      rw [chainUpTo, ho]
      exact .inr ⟨_, rfl⟩

/-- Another object is an ancestor when links lead to it. -/
theorem isAncestor_iff (ho : (a.get? o).isSome = true) (hne : p ≠ o) :
    a.isAncestor o p = true ↔ a.Under p o := by
  have hmem : o ∈ (a.chain p).tail ↔ o ∈ a.chain p := by
    rcases a.chain_cases p with hnil | ⟨l, hcons⟩
    · rw [hnil]
      rfl
    · rw [hcons, List.tail_cons, List.mem_cons, or_iff_right hne.symm]
  rw [isAncestor, List.contains_iff_mem, hmem, mem_chain_iff_under ho, or_iff_right hne.symm]

/-- A change of prototype is accepted when it changes nothing, and else when the object is
extensible and the new prototype is none or an object that is neither itself nor under it. -/
theorem isSome_setPrototype?_iff (ho : a.get? o = some x) :
    (a.setPrototype? o q).isSome = true ↔ x.prototype = q
      ∨ x.extensible = true
        ∧ ∀ p, q = some p → (a.get? p).isSome = true ∧ p ≠ o ∧ ¬ a.Under p o := by
  unfold setPrototype?
  simp only [ho]
  by_cases hsame : x.prototype = q
  · simp [hsame]
  · rw [if_neg hsame, or_iff_right hsame]
    cases hextensible : x.extensible with
    | false => simp
    | true =>
      cases q with
      | none => simp
      | some p =>
        have hpass : (a.chain p).contains o = false ↔ p ≠ o ∧ ¬ a.Under p o := by
          rw [← Bool.not_eq_true, List.contains_iff_mem,
            mem_chain_iff_under (Option.isSome_of_eq_some ho), not_or]
          exact and_congr_left' ne_comm
        simp only [Option.some.injEq, forall_eq', true_and]
        rw [← hpass]
        cases a.get? p <;> cases (a.chain p).contains o <;> simp

end Arena

variable {σ : Type} {r : Realm σ} {o p : Handle} {x : Object (Behavior σ)}

/-- The object has the new prototype, and nothing else has changed. -/
structure Realm.Relinked (r : Realm σ) (o : Handle) (q : Option Handle) (r' : Realm σ) : Prop where
  object : r'.arena.get? o = (r.arena.get? o).map fun x => { x with prototype := q }
  others : ∀ h, h ≠ o → r'.arena.get? h = r.arena.get? h
  size : r'.arena.slots.size = r.arena.slots.size
  free : r'.arena.free = r.arena.free
  realm : r' = { r with arena := r'.arena }

theorem Realm.relinked_of_accepted {q : Option Handle} {a : Arena (Behavior σ)}
    (haccepted : r.arena.setPrototype? o q = some a) :
    r.Relinked o q { r with arena := a } := by
  obtain ⟨x, hx, ⟨rfl, rfl⟩ | ⟨-, rfl⟩⟩ := Arena.setPrototype?_eq_some haccepted
  · refine ⟨?_, fun _ _ => rfl, rfl, rfl, rfl⟩
    rw [hx]
    rfl
  · refine ⟨?_, fun h hne => ?_, ?_, ?_, rfl⟩
    · rw [Arena.get?_modify, if_pos rfl]
    · rw [Arena.get?_modify, if_neg hne]
    · simp [Arena.modify, hx]
    · simp [Arena.modify, hx]

/-- At every moment of every program a change of prototype is accepted exactly when it
changes nothing, or the object is extensible and the new prototype is none or an object
that is neither the object itself nor under it, which `isPrototypeOf` tells. What is
accepted changes the one link, and what is refused nothing. -/
theorem Program.prototype_changed_iff [Printer] {strict : Bool} {host : σ} {program : Program σ}
    {allowance : Nat} {m : Moment σ}
    (hm : m ∈ program.history allowance (Realm.fresh strict host))
    (ho : m.realm.arena.get? o = some x) (target : Option Handle) :
    (∃ accepted r', (∀ runner : Runner σ,
          (Request.setPrototype o target).perform.run runner m.realm = some (accepted, r'))
        ∧ (accepted = true ↔ x.prototype = target
          ∨ x.extensible = true ∧ ∀ p, target = some p →
            (m.realm.arena.get? p).isSome = true ∧ p ≠ o ∧ ¬ m.realm.arena.Under p o)
        ∧ (accepted = true → r'.Answers (.prototypeOf o) target ∧ m.realm.Relinked o target r')
        ∧ (accepted = false → r' = m.realm))
      ∧ ∀ p, p ≠ o → ∃ b,
        m.realm.Answers (.call (Intrinsic.function .isPrototypeOf).toValue (.object o) [.object p])
          (.normal (.boolean b))
        ∧ (b = true ↔ m.realm.arena.Under p o) := by
  have hlive : (m.realm.arena.get? o).isSome = true := Option.isSome_of_eq_some ho
  have hiff := Arena.isSome_setPrototype?_iff (q := target) ho
  refine ⟨?_, fun p hne => ?_⟩
  · cases hset : m.realm.arena.setPrototype? o target with
    | none =>
      refine ⟨false, m.realm, fun runner => ?_, ?_, nofun, fun _ => rfl⟩
      · show (RealmM.setPrototype o target).run runner m.realm = _
        rw [RealmM.setPrototype, RealmM.run_modifyGet, hset]
      · rwa [hset] at hiff
    | some a =>
      have hlinked := Realm.relinked_of_accepted hset
      refine ⟨true, { m.realm with arena := a }, fun runner => ?_, ?_,
        fun _ => ⟨fun n => ?_, hlinked⟩, nofun⟩
      · show (RealmM.setPrototype o target).run runner m.realm = _
        rw [RealmM.setPrototype, RealmM.run_modifyGet, hset]
      · rwa [hset] at hiff
      · show some (a.prototype? o, _) = _
        have hobject := hlinked.object
        rw [ho] at hobject
        rw [Arena.prototype?, hobject]
        rfl
  · refine ⟨_, Realm.answers_call (Program.history_callable
      (Intrinsic.function_mem (by decide)) rfl hm) fun n => rfl, ?_⟩
    exact Arena.isAncestor_iff hlive hne

/-- In a fresh realm the prototype of all objects does not take that of numbers, which is
under it, for its prototype. -/
theorem Program.prototype_changed_iff_fresh :
    ∃ x, (Realm.fresh false ()).arena.get? (Intrinsic.prototype .object).handle = some x
      ∧ (∀ runner, (Request.setPrototype (Intrinsic.prototype .object).handle
            (some (Intrinsic.prototype .number).handle)).perform.run runner (Realm.fresh false ())
          = some (false, Realm.fresh false ()))
      ∧ (Realm.fresh false ()).Answers (.call (Intrinsic.function .isPrototypeOf).toValue
          (.object (Intrinsic.prototype .object).handle)
          [.object (Intrinsic.prototype .number).handle]) (.normal (.boolean true)) := by
  have hobject : ∀ family, (Realm.fresh false ()).arena.get? (Intrinsic.prototype family).handle
      = some (Intrinsic.prototype family).placed :=
    fun family => Arena.get?_fresh_handle (Intrinsic.prototype_mem family)
  have hne : (Intrinsic.prototype .number).handle ≠ (Intrinsic.prototype .object).handle := by
    decide
  have hunder : (Realm.fresh false ()).arena.Under (Intrinsic.prototype .number).handle
      (Intrinsic.prototype .object).handle := by
    refine .single ?_
    rw [Arena.prototype?, hobject]
    rfl
  obtain ⟨⟨accepted, r', hrun, hiff, -, hrefused⟩, htest⟩ := Program.prototype_changed_iff
    ((Program.finish (.normal .undefined)).begun_mem_history 0 _) (hobject .object)
    (some (Intrinsic.prototype .number).handle)
  have haccepted : accepted = false := by
    rw [← Bool.not_eq_true, hiff]
    rintro (hno | ⟨-, htests⟩)
    · cases hno
    · exact (htests _ rfl).2.2 hunder
  obtain rfl := hrefused haccepted
  obtain ⟨b, hanswers, hb⟩ := htest _ hne
  obtain rfl := hb.mpr hunder
  exact ⟨_, hobject .object, haccepted ▸ hrun, hanswers⟩

end ScriptRealm
