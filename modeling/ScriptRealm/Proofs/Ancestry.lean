import ScriptRealm.Proofs.HandleSafety
import ScriptRealm.Proofs.Walks

/-!
# Ancestry — prototype chains end

Nothing about a prototype link says that following links comes to an end. It
does, because a link is only ever set from an object that the new chain does
not pass, and because the slot of a box, which is used again, has no link
leading to it.

`Arena.Ancestry` is the walk along the links up to an object without a
prototype, and `Arena.Search` the loop that asks the objects on the way, with
no bound on its length. `Arena.Rooted` says that every walk ends and that the
bounded searches of the arena are those loops. One move keeps it
(`Move.rooted`), and so it holds at every moment of every run
(`Program.prototypes_end`).
-/

namespace ScriptRealm

namespace Arena

variable {β γ : Type} {a b : Arena β} {g h p : Handle} {l l' : List Handle}

/-! ## Walks along prototype links -/

/-- The links from a handle lead past the listed objects, its own first, the
last of which has no prototype. -/
inductive Ancestry (a : Arena β) : Handle → List Handle → Prop
  | root {h : Handle} {o : Object β} (object : a.get? h = some o) (link : o.prototype = none) :
      Ancestry a h [h]
  | step {h p : Handle} {o : Object β} {l : List Handle} (object : a.get? h = some o)
      (link : o.prototype = some p) (rest : Ancestry a p l) : Ancestry a h (h :: l)

/-- What is above an object that is there: nothing, or its prototype. -/
def above? (a : Arena β) (h : Handle) : Option (Option Handle) := (a.get? h).map (·.prototype)

theorem isSome_above? : (a.above? h).isSome = (a.get? h).isSome := Option.isSome_map

theorem above?_of_get? {o : Object β} (ho : a.get? h = some o) :
    a.above? h = some o.prototype := by
  rw [above?, ho]
  rfl

theorem links_above?_iff : Links a.above? h p ↔ a.prototype? h = some p := by
  unfold Links above? prototype?
  cases a.get? h <;> simp

/-- Objects that are there have handles below the count of slots. -/
theorem numbered (a : Arena β) : Numbered a.above? Handle.id a.slots.size where
  injective := by
    rintro ⟨m⟩ ⟨n⟩ rfl
    rfl
  lt h hh := by
    obtain ⟨o, ho⟩ := Option.isSome_iff_exists.mp (isSome_above?.symm.trans hh)
    exact lt_size_of_get? ho

/-- The chain of the arena is a climb along the links. -/
theorem chain_eq_climb (a : Arena β) (h : Handle) : a.chain h = climb a.above? a.slots.size h := by
  suffices hfuel : ∀ fuel h, a.chainUpTo fuel h = climb a.above? fuel h from hfuel _ h
  intro fuel
  induction fuel with
  | zero => exact fun _ => rfl
  | succ fuel ih =>
    intro h
    rw [chainUpTo, climb, above?]
    cases a.get? h with
    | none => rfl
    | some o => cases hlink : o.prototype <;> simp [hlink, ih]

namespace Ancestry

theorem walk (hl : a.Ancestry h l) : Walk a.above? h l := by
  induction hl with
  | root object link => exact .last ((above?_of_get? object).trans (congrArg some link))
  | step object link _ ih => exact .step ((above?_of_get? object).trans (congrArg some link)) ih

/-- The chain of the arena is the whole way. -/
theorem chain_eq (hl : a.Ancestry h l) : a.chain h = l :=
  (a.chain_eq_climb h).trans (hl.walk.climb_eq a.numbered)

/-- A way is still there when its objects are, with their links. -/
theorem transport (hl : a.Ancestry h l)
    (hsame : ∀ g ∈ l, ∀ o, a.get? g = some o →
      ∃ o', b.get? g = some o' ∧ o'.prototype = o.prototype) : b.Ancestry h l := by
  induction hl with
  | root object link =>
    obtain ⟨o', ho', hlink⟩ := hsame _ List.mem_cons_self _ object
    exact .root ho' (hlink.trans link)
  | step object link rest ih =>
    obtain ⟨o', ho', hlink⟩ := hsame _ List.mem_cons_self _ object
    exact .step ho' (hlink.trans link) (ih fun g hg => hsame g (List.mem_cons_of_mem _ hg))

end Ancestry

/-- A handle without an object has no chain. -/
theorem chain_of_get?_eq_none (hnone : a.get? h = none) : a.chain h = [] := by
  unfold chain
  cases a.slots.size with
  | zero => rfl
  | succ n => simp [chainUpTo, hnone]

/-- The chain of the arena has all objects that links lead to. -/
theorem mem_chain_iff : g ∈ a.chain h ↔
    (a.get? g).isSome = true ∧ Relation.ReflTransGen (Links a.above?) h g := by
  rw [chain_eq_climb, mem_climb_iff a.numbered, isSome_above?]

/-! ## Loops along prototype links -/

/-- The loop that starts at a handle or nowhere, asks each object it comes to,
and follows the links until one has an answer or there is no further link. It
may go on for ever; then it has no outcome. -/
inductive Search (a : Arena β) (ask : Handle → Option γ) : Option Handle → Option γ → Prop
  | nowhere : Search a ask none none
  | missing {h : Handle} (object : a.get? h = none) : Search a ask (some h) none
  | answered {h : Handle} {o : Object β} {answer : γ} (object : a.get? h = some o)
      (answers : ask h = some answer) : Search a ask (some h) (some answer)
  | onward {h : Handle} {o : Object β} {outcome : Option γ} (object : a.get? h = some o)
      (silent : ask h = none) (rest : Search a ask o.prototype outcome) :
      Search a ask (some h) outcome

/-- Where the way ends, so does the loop, with the first answer on the way. -/
theorem Ancestry.search (hl : a.Ancestry h l) (ask : Handle → Option γ) :
    a.Search ask (some h) (l.findSome? ask) := by
  induction hl with
  | @root h o object link =>
    cases hask : ask h with
    | some answer =>
      rw [List.findSome?_cons, hask]
      exact .answered object hask
    | none =>
      rw [List.findSome?_cons, hask]
      exact .onward object hask (link ▸ .nowhere)
  | @step h p o l object link rest ih =>
    cases hask : ask h with
    | some answer =>
      rw [List.findSome?_cons, hask]
      exact .answered object hask
    | none =>
      rw [List.findSome?_cons, hask]
      exact .onward object hask (link ▸ ih)

/-- Asks whether an object is the given one. -/
def meets (g h : Handle) : Option Unit := if h = g then some () else none

theorem findSome?_meets (g : Handle) (l : List Handle) :
    (l.findSome? (meets g)).isSome = l.contains g := by
  induction l with
  | nil => rfl
  | cons h l ih =>
    rw [List.findSome?_cons]
    by_cases hh : h = g
    · simp [meets, hh]
    · rw [meets, if_neg hh, List.contains_cons, beq_false_of_ne (Ne.symm hh), Bool.false_or]
      exact ih

/-- Every walk along the links ends, and so do the loops that go along them: the
search for a property, the test for an ancestor, and the test that a new
prototype makes no cycle. -/
structure Rooted (a : Arena β) : Prop where
  ends : ∀ h o, a.get? h = some o → a.Ancestry h (a.chain h)
  find : ∀ h key, a.Search (a.getOwn · key) (some h) (a.find? h key)
  ancestor : ∀ above below, ∃ outcome, a.Search (meets above) (a.prototype? below) outcome
    ∧ outcome.isSome = a.isAncestor above below
  cycle : ∀ h p, ∃ outcome, a.Search (meets h) (some p) outcome
    ∧ outcome.isSome = (a.chain p).contains h

/-- All follows from every walk's having an end. -/
theorem Rooted.of_ancestry (hends : ∀ h o, a.get? h = some o → ∃ l, a.Ancestry h l) : a.Rooted := by
  have hchain : ∀ h o, a.get? h = some o → a.Ancestry h (a.chain h) := by
    intro h o ho
    obtain ⟨l, hl⟩ := hends h o ho
    rwa [hl.chain_eq]
  have hsearch : ∀ {δ : Type} (ask : Handle → Option δ) (h : Handle),
      a.Search ask (some h) ((a.chain h).findSome? ask) := by
    intro δ ask h
    cases ho : a.get? h with
    | none =>
      rw [chain_of_get?_eq_none ho]
      exact .missing ho
    | some o => exact (hchain h o ho).search ask
  refine ⟨hchain, fun h key => hsearch _ h, fun above below => ?_, fun h p => ?_⟩
  · unfold isAncestor prototype?
    cases ho : a.get? below with
    | none => exact ⟨none, .nowhere, by simp [chain_of_get?_eq_none ho]⟩
    | some o =>
      simp only [Option.bind_some]
      have hup := hchain below o ho
      generalize a.chain below = l at hup
      cases hup with
      | root object link =>
        rw [object] at ho
        cases ho
        exact ⟨none, link ▸ .nowhere, rfl⟩
      | step object link rest =>
        rw [object] at ho
        cases ho
        refine ⟨_, link ▸ rest.search (meets above), ?_⟩
        rw [findSome?_meets, List.tail_cons]
  · exact ⟨_, hsearch (meets h) p, findSome?_meets h _⟩

/-! ## Changes of links -/

/-- The tests that an accepted change of prototype has passed, unless it changes
nothing. -/
theorem setPrototype?_cases {q : Option Handle} (accepted : a.setPrototype? h q = some b) :
    b = a ∨ b = a.modify h (fun o => { o with prototype := q })
      ∧ ∀ p, q = some p → (a.get? p).isSome = true ∧ h ∉ a.chain p := by
  unfold setPrototype? at accepted
  cases hget : a.get? h with
  | none =>
    rw [hget] at accepted
    cases accepted
  | some o =>
    simp only [hget] at accepted
    split at accepted
    · cases accepted
      exact .inl rfl
    · split at accepted
      · cases accepted
      · cases q with
        | none =>
          cases accepted
          exact .inr ⟨rfl, fun p hp => by cases hp⟩
        | some p =>
          simp only at accepted
          split at accepted
          · cases accepted
          · rename_i htests
            cases accepted
            refine .inr ⟨rfl, fun p' hp' => ?_⟩
            cases hp'
            simpa [Option.isSome_iff_ne_none] using htests

theorem get?_modify_of_ne {change : Object β → Object β} (hne : g ≠ h) {o : Object β}
    (ho : a.get? g = some o) : (a.modify h change).get? g = some o := by
  rw [get?_modify, if_neg hne, ho]

/-- From an object whose link is set to a chain that does not pass it, the walk goes
along that chain. -/
theorem ancestry_linked {q : Option Handle}
    (hends : ∀ g o, a.get? g = some o → ∃ l, a.Ancestry g l)
    (htests : ∀ p, q = some p → (a.get? p).isSome = true ∧ h ∉ a.chain p) {old : Object β}
    (hold : a.get? h = some old) :
    ∃ l, (a.modify h fun o => { o with prototype := q }).Ancestry h l := by
  have hnew : (a.modify h fun o => { o with prototype := q }).get? h
      = some { old with prototype := q } := by
    rw [get?_modify, if_pos rfl, hold]
    rfl
  cases q with
  | none => exact ⟨_, .root hnew rfl⟩
  | some p =>
    obtain ⟨hlive, hpass⟩ := htests p rfl
    obtain ⟨object, hobject⟩ := Option.isSome_iff_exists.mp hlive
    obtain ⟨l, hl⟩ := hends p object hobject
    rw [hl.chain_eq] at hpass
    refine ⟨_, .step hnew rfl (hl.transport fun g hg o ho => ⟨o, get?_modify_of_ne ?_ ho, rfl⟩)⟩
    rintro rfl
    exact hpass hg

/-- Setting a link to a chain that does not pass the object itself leaves every
walk with an end: those that came past the object go on along the new chain. -/
theorem ancestry_link {q : Option Handle} (hends : ∀ g o, a.get? g = some o → ∃ l, a.Ancestry g l)
    (htests : ∀ p, q = some p → (a.get? p).isSome = true ∧ h ∉ a.chain p) {o : Object β}
    (ho : (a.modify h fun o => { o with prototype := q }).get? g = some o) :
    ∃ l, (a.modify h fun o => { o with prototype := q }).Ancestry g l := by
  obtain ⟨old, hold⟩ := exists_of_get?_modify ho
  obtain ⟨l, hl⟩ := hends g old hold
  clear ho hold
  induction hl with
  | @root g o object link =>
    by_cases hg : g = h
    · subst hg
      exact ancestry_linked hends htests object
    · exact ⟨_, .root (get?_modify_of_ne hg object) link⟩
  | @step g p o l object link rest ih =>
    by_cases hg : g = h
    · subst hg
      exact ancestry_linked hends htests object
    · obtain ⟨l', hl'⟩ := ih
      exact ⟨_, .step (get?_modify_of_ne hg object) link hl'⟩

end Arena

/-! ## Along a run -/

variable {σ : Type} {π : Policy σ} {w w' : World σ} {ms : List (Moment σ)}

theorem Object.Newborn.prototype_eq {o : Object (Behavior σ)} (newborn : o.Newborn) :
    ∃ i ∈ Intrinsic.all, o.prototype = some i.handle := by
  cases newborn with
  | plain => exact ⟨_, Intrinsic.prototype_mem .object, rfl⟩
  | function f => exact ⟨_, Intrinsic.functionPrototype_mem, rfl⟩
  | wrapper p => exact ⟨_, RealmM.wrapperPrototype_mem p, rfl⟩
  | error kind message => exact ⟨_, Intrinsic.prototype_mem _, rfl⟩

namespace World

/-- Every walk along prototype links ends. -/
def Rooted (w : World σ) : Prop :=
  ∀ h o, w.get? h = some o → ∃ l, w.realm.arena.Ancestry h l

/-- A handle that was not handed out stands for no object. -/
def Guarded (π : Policy σ) (w : World σ) : Prop :=
  ∀ h, π.foreign h → w.get? h = none ∧ ¬ h.Intrinsic

/-- A new object has the walk of its prototype before it, and no other walk
passes its slot. -/
theorem Rooted.create (hw : w.Sound π) (hguarded : w.Guarded π) (hrooted : w.Rooted)
    {o : Object (Behavior σ)} (newborn : o.Newborn) :
    (w.withArena (w.realm.arena.allocate o).2).Rooted := by
  have hget := Arena.get?_allocate hw.arena o
  have hold : ∀ {g l}, w.realm.arena.Ancestry g l →
      (w.realm.arena.allocate o).2.Ancestry g l := by
    intro g l hl
    refine hl.transport fun g hg p hp => ⟨p, ?_, rfl⟩
    rw [hget, if_neg, hp]
    rintro rfl
    rw [Arena.get?_upcoming hw.arena] at hp
    cases hp
  intro h p hp
  have hp' : (w.realm.arena.allocate o).2.get? h = some p := hp
  rw [hget] at hp'
  split at hp'
  · cases hp'
    obtain ⟨i, hi, hlink⟩ := newborn.prototype_eq
    have hlive := (hw.intrinsics i hi).resolve_left fun hf => (hguarded _ hf).2 ⟨i, hi, rfl⟩
    obtain ⟨up, hup⟩ := Option.isSome_iff_exists.mp hlive.1
    obtain ⟨l, hl⟩ := hrooted _ up hup
    exact ⟨_, .step hp hlink (hold hl)⟩
  · obtain ⟨l, hl⟩ := hrooted h p hp'
    exact ⟨l, hold hl⟩

/-- No link leads to a box, so no walk is cut when its slot is given back. -/
theorem Rooted.release (hw : w.Sound π) (hguarded : w.Guarded π) (hrooted : w.Rooted)
    {b : Handle} (hbox : b ∈ w.boxes) : (w.withArena (w.realm.arena.release b)).Rooted := by
  have hlink : ∀ {g o}, w.get? g = some o → o.prototype ≠ some b := by
    intro g o ho hprototype
    have hlasts : w.Lasts π b := by
      have hfits := (hw.objects ho).prototype
      rw [hprototype] at hfits
      exact fits_handle.mp (fits_some.mp hfits)
    rcases hlasts with hforeign | ⟨-, hnobox⟩
    · have hlive := hw.boxes_live b hbox
      rw [(hguarded b hforeign).1] at hlive
      cases hlive
    · exact hnobox hbox
  have hwalk : ∀ {g l}, w.realm.arena.Ancestry g l → g ≠ b → b ∉ l := by
    intro g l hl hne
    induction hl with
    | root => simpa using Ne.symm hne
    | @step g p o l object link rest ih =>
      have hp : p ≠ b := by
        rintro rfl
        exact hlink object link
      simpa [Ne.symm hne] using ih hp
  intro h o ho
  have ho' : (w.realm.arena.release b).get? h = some o := ho
  rw [Arena.get?_release] at ho'
  split at ho'
  · cases ho'
  · rename_i hne
    obtain ⟨l, hl⟩ := hrooted h o ho'
    refine ⟨l, hl.transport fun g hg p hp => ⟨p, ?_, rfl⟩⟩
    change (w.realm.arena.release b).get? g = some p
    rw [Arena.get?_release, if_neg, hp]
    rintro rfl
    exact hwalk hl hne hg

/-- Changing an object apart from its link changes no walk. -/
theorem Rooted.modify (hrooted : w.Rooted) {h : Handle}
    {change : Object (Behavior σ) → Object (Behavior σ)}
    (hlink : ∀ o, w.get? h = some o → (change o).prototype = o.prototype) :
    (w.withArena (w.realm.arena.modify h change)).Rooted := by
  intro g o ho
  obtain ⟨old, hold⟩ := Arena.exists_of_get?_modify ho
  obtain ⟨l, hl⟩ := hrooted g old hold
  refine ⟨l, hl.transport fun g' _ p hp => ?_⟩
  by_cases hg : g' = h
  · subst hg
    refine ⟨change p, ?_, hlink p hp⟩
    change (w.realm.arena.modify g' change).get? g' = _
    rw [Arena.get?_modify, if_pos rfl, hp]
    rfl
  · exact ⟨p, Arena.get?_modify_of_ne hg hp, rfl⟩

end World

/-- One move leaves every walk with an end. -/
theorem Move.rooted (hw : w.Sound π) (hguarded : w.Guarded π) (hrooted : w.Rooted)
    (m : Move π w w') : w'.Rooted := by
  cases m with
  | stay | names | target | host => exact hrooted
  | create newborn fits => exact hrooted.create hw hguarded newborn
  | box p => exact hrooted.create hw hguarded (.wrapper p)
  | @unbox b rest innermost => exact hrooted.release hw hguarded (by simp [innermost])
  | define fits unmixed accepted =>
    obtain ⟨old, new, hold, hdefine, rfl⟩ := Arena.define?_eq_some accepted
    refine hrooted.modify fun o ho => ?_
    rw [show w.get? _ = some old from hold] at ho
    cases ho
    rcases Object.define?_cases hdefine with ⟨-, -, rfl⟩ | ⟨current, -, -, rfl⟩ <;> rfl
  | discard | close => exact hrooted.modify fun _ _ => rfl
  | edit raw fits =>
    rename_i e
    exact hrooted.modify fun _ _ => by cases e <;> rfl
  | link fits accepted =>
    rcases Arena.setPrototype?_cases accepted with rfl | ⟨rfl, htests⟩
    · exact hrooted
    · exact fun _ _ ho => Arena.ancestry_link hrooted htests ho

/-- Along a course every walk ends, as long as handles that were not handed out
stand for nothing. -/
theorem Course.rooted [Printer] (hw : w.Sound π) (hguarded : w.Guarded π) (hrooted : w.Rooted)
    (hcourse : Course π w ms w')
    (hforeign : ∀ m ∈ ms, ∀ h, π.foreign h → m.realm.arena.get? h = none) :
    ∀ m ∈ ms, m.realm.arena.Rooted := by
  induction hcourse with
  | nil =>
    intro m hm
    cases hm
  | @cons w w₁ w₂ e ms move fits rest ih =>
    have hnext : w₁.Rooted := move.rooted hw hguarded hrooted
    have hguarded₁ : w₁.Guarded π := fun h hh =>
      ⟨hforeign _ List.mem_cons_self h hh, (hguarded h hh).2⟩
    intro m hm
    rcases List.mem_cons.mp hm with rfl | hm
    · exact .of_ancestry hnext
    · exact ih (move.sound hw) hguarded₁ hnext (fun m hm => hforeign m (List.mem_cons_of_mem _ hm))
        m hm

/-! ## The first walks -/

/-- How many links lead from an intrinsic object to the prototype of all objects. -/
def Intrinsic.rank : Intrinsic → Nat
  | prototype .object => 0
  | prototype (.error .error) => 1
  | prototype (.error _) => 2
  | prototype _ => 1
  | functionPrototype => 1
  | function (.constructor (.error .error)) => 2
  | function (.constructor (.error _)) => 3
  | function _ => 2

/-- The prototype of an intrinsic object is one of lower rank. -/
theorem Intrinsic.object_rank (i : Intrinsic) {p : Handle}
    (hp : (i.object : Object (Behavior σ)).prototype = some p) :
    ∃ j ∈ all, p = j.handle ∧ j.rank < i.rank := by
  cases i with
  | prototype family =>
    obtain ⟨j, hj, rfl⟩ := Option.map_eq_some_iff.mp hp
    cases family with
    | object => cases hj
    | error kind => cases kind <;> cases hj <;> exact ⟨_, prototype_mem _, rfl, by decide⟩
    | number | boolean | string => cases hj; exact ⟨_, prototype_mem _, rfl, by decide⟩
  | functionPrototype => cases hp; exact ⟨_, prototype_mem _, rfl, by decide⟩
  | function f =>
    cases f with
    | constructor family =>
      cases hp
      cases family with
      | error kind =>
        cases kind with
        | error => exact ⟨_, functionPrototype_mem, rfl, by decide⟩
        | _ => exact ⟨_, constructor_mem _, rfl, by decide⟩
      | _ => exact ⟨_, functionPrototype_mem, rfl, by decide⟩
    | _ => cases hp; exact ⟨_, functionPrototype_mem, rfl, by decide⟩

/-- A slot of a fresh arena has the number that the handle of its object has. -/
theorem Intrinsic.eq_handle {i : Intrinsic} {h : Handle} (hi : all[h.id]? = some i) :
    h = i.handle := by
  obtain ⟨hlt, rfl⟩ := List.getElem?_eq_some_iff.mp hi
  simp [handle, all_nodup.idxOf_getElem h.id hlt]

theorem World.rooted_fresh (strict : Bool) (host : σ) : (World.fresh strict host).Rooted := by
  have hwalk : ∀ n, ∀ i ∈ Intrinsic.all, i.rank = n →
      ∃ l, (Arena.fresh : Arena (Behavior σ)).Ancestry i.handle l := by
    intro n
    induction n using Nat.strongRecOn with
    | ind n ih =>
      intro i hi hn
      have hobject := Arena.get?_fresh_handle (σ := σ) hi
      cases hlink : (i.object : Object (Behavior σ)).prototype with
      | none => exact ⟨_, .root hobject hlink⟩
      | some p =>
        obtain ⟨j, hj, rfl, hrank⟩ := i.object_rank hlink
        obtain ⟨l, hl⟩ := ih j.rank (hn ▸ hrank) j hj rfl
        exact ⟨_, .step hobject hlink hl⟩
  intro h o ho
  rw [show (World.fresh strict host).get? h = _ from Arena.get?_fresh h] at ho
  obtain ⟨i, hi, -⟩ := Option.map_eq_some_iff.mp ho
  rw [Intrinsic.eq_handle hi]
  exact hwalk _ i (List.mem_of_getElem? hi) rfl

/-- At every moment of a run every walk along prototype links ends, and so does every
loop that goes along them. A program may use the handles it has been given, and
besides these only handles that stand for nothing at any time. -/
theorem Program.prototypes_end [Printer] {strict : Bool} {host : σ}
    (hhost : ∀ h, π.held host h → π.foreign h ∨ h.Intrinsic) {p : Program σ}
    (hp : p.Obeys π Handle.Intrinsic) {allowance : Nat}
    (hforeign : ∀ m ∈ p.history allowance (Realm.fresh strict host), ∀ h, π.foreign h →
      m.realm.arena.get? h = none)
    {m : Moment σ} (hm : m ∈ p.history allowance (Realm.fresh strict host)) :
    m.realm.arena.Rooted := by
  obtain ⟨w', hcourse⟩ := Program.history_course hp hhost allowance
  have hnone := hforeign ⟨.begun, Realm.fresh strict host⟩ List.mem_cons_self
  have hguarded : (World.fresh strict host).Guarded π := by
    intro h hh
    refine ⟨hnone h hh, ?_⟩
    rintro ⟨i, hi, rfl⟩
    have hlive := hnone _ hh
    rw [show (Realm.fresh strict host).arena.get? i.handle = _ from Arena.get?_fresh_handle hi]
      at hlive
    cases hlive
  exact hcourse.rooted (World.sound_fresh strict hhost) hguarded (World.rooted_fresh strict host)
    hforeign m hm

/-- Puts the prototype of numbers below that of strings and makes a wrapper of a
number, which then has one more link to go. -/
def Program.lengthenChain : Program Unit :=
  .ask (.setPrototype (Intrinsic.prototype .number).handle
      (some (Intrinsic.prototype .string).handle)) fun _ =>
    .ask (.toObject (.number Binary64.zero)) fun _ => .finish (.normal .undefined)

theorem Program.prototypes_end_lengthenChain :
    lengthenChain.Obeys (Policy.careful ⟨UInt64.size - 1⟩ fun _ _ => False) Handle.Intrinsic
      ∧ ∀ m ∈ lengthenChain.history 0 (Realm.fresh false ()), m.realm.arena.Rooted := by
  have hobeys : lengthenChain.Obeys (Policy.careful ⟨UInt64.size - 1⟩ fun _ _ => False)
      Handle.Intrinsic := by
    refine ⟨trivial, fun h hh => .inr ?_, fun _ => ⟨trivial, fun _ hno => ?_, fun _ _ hno => ?_⟩⟩
    · rcases List.mem_cons.mp hh with rfl | hh
      · exact ⟨_, Intrinsic.prototype_mem _, rfl⟩
      · rw [List.mem_singleton.mp hh]
        exact ⟨_, Intrinsic.prototype_mem _, rfl⟩
    · exact absurd hno List.not_mem_nil
    · exact absurd hno List.not_mem_nil
  have hnothing : ∀ m ∈ lengthenChain.history 0 (Realm.fresh false ()),
      m.realm.arena.get? ⟨UInt64.size - 1⟩ = none := by decide +kernel
  exact ⟨hobeys, fun m hm => Program.prototypes_end (fun _ (hno : False) => hno.elim) hobeys
    (fun m hm _ hh => hh ▸ hnothing m hm) hm⟩

end ScriptRealm
