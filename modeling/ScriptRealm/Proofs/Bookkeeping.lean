import Mathlib.Data.List.Basic
import Mathlib.Data.List.Perm.Subperm
import ScriptRealm.Number.Shortest
import ScriptRealm.Proofs.Genesis
import ScriptRealm.Proofs.Runs

/-!
# Bookkeeping — slots taken and given back

The three records of an arena agree in every realm that can be reached, and
`Arena.Booked` is what that agreement is good for: the count of objects is
the number of occupied slots, and an allocation takes the place of nothing.

`Realm.Reachable` asks for less than a run does. Programs may be broken off at
any moment, and between or within them anybody may take slots and give them
back (`RealmM.Slotwise`): a handle may be given back twice, while the access
that boxed it is under way, or without ever having been handed out. Such a
realm need not be the realm of a sound world, for a box may be gone before its
access ends; but what every operation needs to keep the records in step is
that they are in step when it begins (`World.sound_of_wellFormed`).
-/

namespace ScriptRealm

/-! ## What agreeing records are good for -/

namespace Arena

variable {β : Type}

/-- How many slots hold an object. -/
def occupied (a : Arena β) : Nat := a.slots.countP Option.isSome

/-- The records of an arena can be relied on. -/
structure Booked (a : Arena β) : Prop where
  /-- No slot is free twice. -/
  free_nodup : a.free.Nodup
  /-- The free slots are the empty ones. -/
  mem_free_iff : ∀ n, n ∈ a.free ↔ a.slots[n]? = some none
  /-- An object has the number of its slot. -/
  id_eq : ∀ n (o : Object β), a.slots[n]? = some (some o) → o.id = n
  /-- There are no more free slots than slots. -/
  free_le : a.free.length ≤ a.slots.size
  /-- The count of objects is that of the occupied slots. -/
  live_eq : a.live = a.occupied
  /-- A new handle is none that stands for an object. -/
  allocate_ne : ∀ o h, (a.get? h).isSome = true → (a.allocate o).1 ≠ h
  /-- The new handle stands for the new object. -/
  allocated : ∀ o : Object β,
    (a.allocate o).2.get? (a.allocate o).1 = some { o with id := (a.allocate o).1.id }
  /-- An object that is there stays when another is made. -/
  kept : ∀ o h p, a.get? h = some p → (a.allocate o).2.get? h = some p

/-- The list of free slots is the list of the empty ones, in some order. -/
theorem WellFormed.free_perm {a : Arena β} (wf : a.WellFormed) :
    a.free.Perm (a.slots.toList.findIdxs Option.isNone) := by
  refine (List.perm_ext_iff_of_nodup wf.free_nodup List.nodup_findIdxs).mpr fun n => ?_
  rw [wf.mem_free_iff, List.mem_findIdxs_iff_exists_getElem_pos, Array.getElem?_eq_some_iff]
  simp

theorem WellFormed.length_free {a : Arena β} (wf : a.WellFormed) :
    a.free.length = a.slots.countP Option.isNone := by
  rw [wf.free_perm.length_eq, List.length_findIdxs, Array.countP_toList]

/-- Every slot is occupied or free. -/
theorem WellFormed.size_eq {a : Arena β} (wf : a.WellFormed) :
    a.slots.size = a.occupied + a.free.length := by
  have hempty : (fun slot : Option (Object β) => decide ¬slot.isSome = true) = Option.isNone := by
    funext slot
    cases slot <;> rfl
  rw [wf.length_free, occupied, Array.size_eq_countP_add_countP (p := Option.isSome), hempty]

theorem WellFormed.booked {a : Arena β} (wf : a.WellFormed) : a.Booked where
  free_nodup := wf.free_nodup
  mem_free_iff := wf.mem_free_iff
  id_eq n o hslot := wf.id_eq (h := ⟨n⟩) (get?_eq_some_iff.mpr hslot)
  free_le := by
    rw [wf.size_eq]
    exact Nat.le_add_left _ _
  live_eq := by
    rw [live, wf.size_eq, Nat.add_sub_cancel]
  allocate_ne o h hlive := by
    rw [allocate_fst]
    rintro rfl
    rw [get?_upcoming wf] at hlive
    cases hlive
  allocated o := by
    rw [allocate_fst, get?_allocate wf, if_pos rfl]
  kept o h p hget := get?_allocate_of_get? wf o hget

/-- An allocation adds one object. -/
theorem WellFormed.live_allocate {a : Arena β} (wf : a.WellFormed) (o : Object β) :
    (a.allocate o).2.live = a.live + 1 := by
  have hle := wf.booked.free_le
  unfold Arena.allocate live
  cases hfree : a.free with
  | nil => simp
  | cons n rest =>
    rw [hfree, List.length_cons] at hle
    simp only [Array.size_setIfInBounds, List.length_cons]
    omega

/-- The release of an object takes one away. -/
theorem WellFormed.live_release {a : Arena β} (wf : a.WellFormed) {h : Handle} {o : Object β}
    (ho : a.get? h = some o) : (a.release h).live + 1 = a.live := by
  have hle := (wf.release h).booked.free_le
  unfold Arena.release at hle ⊢
  simp only [ho, live, Array.size_setIfInBounds, List.length_cons] at hle ⊢
  omega

end Arena

variable {σ α β : Type} {π : Policy σ} {w w' : World σ}

/-! ## One object more, one object less -/

/-- The realm has a new object, and is otherwise as it was. -/
structure Realm.Gains (r : Realm σ) (o : Object (Behavior σ)) (h : Handle) (r' : Realm σ) :
    Prop where
  unused : r.arena.get? h = none
  object : r'.arena.get? h = some { o with id := h.id }
  others : ∀ g, g ≠ h → r'.arena.get? g = r.arena.get? g
  live : r'.arena.live = r.arena.live + 1
  realm : r' = { r with arena := r'.arena }

/-- The realm has lost an object, and is otherwise as it was. -/
structure Realm.Loses (r : Realm σ) (h : Handle) (r' : Realm σ) : Prop where
  present : (r.arena.get? h).isSome = true
  gone : r'.arena.get? h = none
  others : ∀ g, g ≠ h → r'.arena.get? g = r.arena.get? g
  live : r'.arena.live + 1 = r.arena.live
  realm : r' = { r with arena := r'.arena }

namespace Realm

variable {r r' : Realm σ} {h : Handle} {o : Object (Behavior σ)}

theorem gains_allocate (wf : r.arena.WellFormed) (o : Object (Behavior σ)) :
    r.Gains o r.arena.upcoming { r with arena := (r.arena.allocate o).2 } where
  unused := Arena.get?_upcoming wf
  object := by rw [Arena.get?_allocate wf, if_pos rfl]
  others g hg := by rw [Arena.get?_allocate wf, if_neg hg]
  live := wf.live_allocate o
  realm := rfl

theorem loses_release (wf : r.arena.WellFormed) (hlive : (r.arena.get? h).isSome = true) :
    r.Loses h (r.withArena (·.release h)) where
  present := hlive
  gone := by rw [withArena, Arena.get?_release, if_pos rfl]
  others g hg := by rw [withArena, Arena.get?_release, if_neg hg]
  live := by
    obtain ⟨o, ho⟩ := Option.isSome_iff_exists.mp hlive
    exact wf.live_release ho
  realm := rfl

/-- An object that was there is none that is new. -/
theorem Gains.ne (hgains : r.Gains o h r') {g : Handle} (hg : (r.arena.get? g).isSome = true) :
    g ≠ h := by
  rintro rfl
  rw [hgains.unused] at hg
  cases hg

/-- An object that was there is as it was. -/
theorem Gains.kept (hgains : r.Gains o h r') {g : Handle} {p : Object (Behavior σ)}
    (hg : r.arena.get? g = some p) : r'.arena.get? g = some p := by
  rw [hgains.others g (hgains.ne (Option.isSome_of_eq_some hg)), hg]

end Realm

/-- The object that is thrown for a cause. -/
def Fault.toError [Printer] {β : Type} (why : Fault) : Object β :=
  .ofError (Intrinsic.prototype (.error why.kind)).handle why.kind why.message

/-- What is thrown for a cause is made first. -/
theorem ScriptM.run_raise [Printer] {runner : Runner σ} (why : Fault) (r : Realm σ) :
    (raise why : ScriptM σ α).attempt.run runner r
      = some (.error (.object r.arena.upcoming),
        { r with arena := (r.arena.allocate why.toError).2 }) := by
  rw [← Arena.allocate_fst r.arena why.toError]
  rfl

/-! ## Work with slots -/

namespace RealmM

/-- Work that takes slots and gives them back in any order, by whatever handle,
and uses the realm in between. -/
inductive Slotwise [Printer] : {α : Type} → RealmM σ α → Prop
  | pure {α : Type} (a : α) : Slotwise (Pure.pure a)
  | bind {α β : Type} {m : RealmM σ α} {k : α → RealmM σ β} (first : Slotwise m)
      (rest : ∀ a, Slotwise (k a)) : Slotwise (m >>= k)
  | look {α : Type} (f : Realm σ → α) : Slotwise (look f)
  /-- Any object is put into a slot. -/
  | allocate (o : Object (Behavior σ)) : Slotwise (allocate o)
  /-- Any handle is given back. -/
  | release (h : Handle) : Slotwise (release h)
  /-- Anything is asked of the realm. -/
  | request (q : Request) : Slotwise q.perform
  /-- Any function is run. -/
  | run (why : Entry) (b : Behavior σ) (this : Value) (args : List Value) :
      Slotwise (runBehavior why b this args)

namespace Slotwise

theorem map [Printer] {m : RealmM σ α} (hm : m.Slotwise) (f : α → β) : (f <$> m).Slotwise :=
  hm.bind fun a => .pure (f a)

theorem lift [Printer] {m : RealmM σ α} (hm : m.Slotwise) : (ScriptM.lift m).attempt.Slotwise :=
  hm.map Except.ok

/-- What is thrown ends the work. -/
theorem attempt_bind [Printer] {m : ScriptM σ α} {k : α → ScriptM σ β} (hm : m.attempt.Slotwise)
    (hk : ∀ a, (k a).attempt.Slotwise) : (m >>= k).attempt.Slotwise := by
  refine Slotwise.bind hm ?_
  rintro (e | a)
  · exact .pure (Except.error e)
  · exact hk a

/-- An access to a primitive boxes it, whatever is done with the box. -/
theorem autoboxed [Printer] (base : Value) {use : Handle → ScriptM σ α}
    (huse : ∀ h, (use h).attempt.Slotwise) : (ScriptM.autoboxed base use).attempt.Slotwise := by
  have hbox : (ScriptM.toObject base).attempt.Slotwise →
      (do
        let wrapper ← ScriptM.toObject base
        let outcome ← ScriptM.lift (use wrapper).attempt
        ScriptM.lift (RealmM.release wrapper)
        ScriptM.ofExcept outcome : ScriptM σ α).attempt.Slotwise := fun hbase =>
    hbase.attempt_bind fun wrapper => (huse wrapper).lift.attempt_bind fun outcome =>
      (Slotwise.release wrapper).lift.attempt_bind fun _ => .pure outcome
  cases base with
  | object h => exact huse h
  | boolean | number | string => exact hbox (.lift (.allocate _))
  | undefined | null =>
    exact hbox (attempt_bind (.lift (.map (.allocate _) _)) fun e => .pure (Except.error e))

end Slotwise

/-- A moment of two computations, one after the other. -/
theorem mem_moments_bind {runner : Runner σ} {watch : Watch σ} {m : RealmM σ α}
    {k : α → RealmM σ β} {r : Realm σ} {x : Moment σ}
    (hx : x ∈ (m >>= k).moments runner watch r) :
    x ∈ m.moments runner watch r
      ∨ ∃ a r', m.run runner r = some (a, r') ∧ x ∈ (k a).moments runner watch r' := by
  rw [moments_bind] at hx
  refine (List.mem_append.mp hx).imp_right fun hx => ?_
  cases hrun : m.run runner r with
  | none =>
    rw [hrun] at hx
    cases hx
  | some ended =>
    rw [hrun] at hx
    exact ⟨ended.1, ended.2, rfl, hx⟩

end RealmM

/-! ## The records are kept in step -/

/-- The records of the arena agree at every moment, and at the end if there is one. -/
def KeepsStep (ms : List (Moment σ)) (ended : Option (α × Realm σ)) : Prop :=
  (∀ x ∈ ms, x.realm.arena.WellFormed) ∧ ∀ a r, ended = some (a, r) → r.arena.WellFormed

/-- Where nothing is asked of handles, all code keeps to the policy. -/
theorem Behavior.obeys_free (b : Behavior σ) (w : World σ) : b.Obeys Policy.free w := by
  cases b with
  | builtin f => trivial
  | host body =>
    exact ⟨fun _ => True, fun _ _ => .inl trivial, fun this args => (body this args).obeys_free _⟩

/-- A realm whose records agree is that of a sound world, when nothing is asked of
handles. -/
theorem World.sound_of_wellFormed {r : Realm σ} (wf : r.arena.WellFormed) :
    (⟨r, []⟩ : World σ).Sound Policy.free where
  arena := wf
  boxes_nodup := List.nodup_nil
  boxes_live b hb := absurd hb List.not_mem_nil
  intrinsics _ _ := .inl trivial
  objects := by
    intro h o _
    exact ⟨fun e _ => fits_free _ e.2, fits_free _ _, fun f _ => f.behavior.obeys_free _⟩
  frames _ e _ := fits_free _ e.2
  newTarget := fits_free _ _
  host _ hno := hno.elim

theorem Course.wellFormed [Printer] {ms : List (Moment σ)} (hcourse : Course π w ms w')
    (hw : w.Sound π) :
    ∀ x ∈ ms, x.realm.arena.WellFormed := by
  induction hcourse with
  | nil =>
    intro x hx
    cases hx
  | cons move _ _ ih =>
    intro x hx
    rcases List.mem_cons.mp hx with rfl | hx
    · exact (move.sound hw).arena
    · exact ih (move.sound hw) x hx

theorem Accounted.keepsStep [Printer] {ms : List (Moment σ)} {ended : Option (α × Realm σ)}
    {post : α → World σ → Prop} (h : Accounted π w ms ended post) (hw : w.Sound π) :
    KeepsStep ms ended := by
  obtain ⟨w', hcourse, -, hend⟩ := h
  refine ⟨hcourse.wellFormed hw, ?_⟩
  intro a r hended
  rw [← (hend a r hended).1]
  exact (hcourse.sound hw).arena

theorem RealmM.Slotwise.keepsStep [Printer] {m : RealmM σ α} (hm : m.Slotwise) (allowance : Nat)
    {r : Realm σ} (wf : r.arena.WellFormed) :
    KeepsStep (m.moments (Behavior.run allowance) (Behavior.moments allowance) r)
      (m.run (Behavior.run allowance) r) := by
  induction hm generalizing r with
  | pure a =>
    refine ⟨fun x hx => absurd hx List.not_mem_nil, ?_⟩
    rintro a r ⟨⟩
    exact wf
  | bind first rest ihm ihk =>
    refine ⟨fun x hx => ?_, fun b r' hrun => ?_⟩
    · rcases RealmM.mem_moments_bind hx with hx | ⟨a, r', hrun, hx⟩
      · exact (ihm wf).1 x hx
      · exact (ihk a ((ihm wf).2 a r' hrun)).1 x hx
    · rw [RealmM.run_bind] at hrun
      obtain ⟨⟨a, r₁⟩, hfirst, hrest⟩ := Option.bind_eq_some_iff.mp hrun
      exact (ihk a ((ihm wf).2 a r₁ hfirst)).2 b r' hrest
  | look f =>
    refine ⟨fun x hx => absurd hx List.not_mem_nil, ?_⟩
    rintro a r ⟨⟩
    exact wf
  | allocate o =>
    have hafter := wf.allocate o
    refine ⟨fun x hx => ?_, ?_⟩
    · rw [List.mem_singleton.mp hx]
      exact hafter
    · rintro a r ⟨⟩
      exact hafter
  | release h =>
    have hafter := wf.release h
    refine ⟨fun x hx => ?_, ?_⟩
    · rw [List.mem_singleton.mp hx]
      exact hafter
    · rintro a r ⟨⟩
      exact hafter
  | request q =>
    have hw := World.sound_of_wellFormed wf
    have hq := Request.sound hw (Policy.permits_free q) (World.fits_free _ q)
    exact (hq.accounted (Behavior.accounts allowance) hw).keepsStep hw
  | run why b this args =>
    have hw := World.sound_of_wellFormed wf
    have hb : b.Obeys Policy.free ⟨r, []⟩ := Behavior.obeys_free b _
    have hinside := (Behavior.accounts allowance hw hb (World.fits_free _ this)
      (World.fits_free _ args)).keepsStep hw
    have hrun : (RealmM.runBehavior why b this args).run (Behavior.run allowance) r
        = Behavior.run allowance b this args r := by
      show (Behavior.run allowance b this args r).bind (fun ended => some ended) = _
      exact Option.bind_fun_some _
    refine ⟨fun x hx => ?_, fun c r' hend => hinside.2 c r' (hrun ▸ hend)⟩
    rcases List.mem_append.mp hx with hx | hx
    · rcases List.mem_cons.mp hx with rfl | hx
      · exact wf
      · exact hinside.1 x hx
    · cases hended : Behavior.run allowance b this args r with
      | none =>
        rw [hended] at hx
        cases hx
      | some ended =>
        rw [hended] at hx
        rw [List.mem_singleton.mp hx]
        exact hinside.2 _ _ hended

/-! ## Everything that can be reached -/

/-- A realm that a fresh one may have come to be: by running programs, which may
be broken off at any moment, and by work with slots, which may be too. -/
inductive Realm.Reachable [Printer] : Realm σ → Prop
  | fresh (strict : Bool) (host : σ) : Reachable (Realm.fresh strict host)
  /-- Any moment of a program. -/
  | program {r : Realm σ} {x : Moment σ} (before : Reachable r) (p : Program σ) (allowance : Nat)
      (mem : x ∈ p.history allowance r) : Reachable x.realm
  /-- Any moment of work with slots. -/
  | slots {r : Realm σ} {α : Type} {m : RealmM σ α} {x : Moment σ} (before : Reachable r)
      (work : m.Slotwise) (allowance : Nat)
      (mem : x ∈ m.moments (Behavior.run allowance) (Behavior.moments allowance) r) :
      Reachable x.realm

theorem Realm.Reachable.wellFormed [Printer] {r : Realm σ} (h : r.Reachable) :
    r.arena.WellFormed := by
  induction h with
  | fresh strict host => exact Arena.wellFormed_fresh
  | program before p allowance mem ih =>
    rcases List.mem_cons.mp mem with rfl | mem
    · exact ih
    · have hw := World.sound_of_wellFormed ih
      have hp := Program.accounted (Behavior.accounts allowance) (p.obeys_free fun _ => True)
        (fun _ _ => .inl trivial) hw
      exact (hp.keepsStep hw).1 _ mem
  | slots before work allowance mem ih => exact (work.keepsStep allowance ih).1 _ mem

/-- In every realm that can be reached the records of the arena can be relied on. -/
theorem Realm.slots_booked [Printer] {r : Realm σ} (h : r.Reachable) : r.arena.Booked :=
  h.wellFormed.booked

/-- Boxes a primitive, gives the box back while the access is under way, makes an
object, which takes its slot, and boxes another primitive, during whose access a
handle is given back that was never handed out. -/
def RealmM.overlapping [Printer] : RealmM Unit (Except Value Handle) :=
  (ScriptM.autoboxed (.boolean true) fun outer => do
    ScriptM.lift (release outer)
    let made ← ScriptM.lift newObject
    ScriptM.autoboxed (.number Binary64.zero) fun _ => ScriptM.lift (release ⟨1000⟩)
    pure made).attempt

theorem RealmM.overlapping_slotwise [Printer] : overlapping.Slotwise := by
  refine .autoboxed _ fun outer => .attempt_bind (.lift (.release outer)) fun _ => ?_
  refine .attempt_bind (.lift (.allocate _)) fun made => ?_
  exact .attempt_bind (.autoboxed _ fun _ => .lift (.release _)) fun _ => .pure (Except.ok made)

/-- The moments of that work in a fresh realm. -/
def RealmM.overlappingMoments [Printer] : List (Moment Unit) :=
  overlapping.moments (Behavior.run 0) (Behavior.moments 0) (Realm.fresh false ())

/-- When the first access ends it gives the slot back a second time, with the
object that has been made meanwhile; the records agree all the same. -/
theorem Realm.slots_booked_overlapping :
    ∃ x ∈ RealmM.overlappingMoments,
      x.realm.arena.free = [Intrinsic.all.length, Intrinsic.all.length + 1]
        ∧ x.realm.arena.Booked := by
  have hlast : ∃ x, RealmM.overlappingMoments.getLast? = some x
      ∧ x.realm.arena.free = [Intrinsic.all.length, Intrinsic.all.length + 1] := by
    refine ⟨_, rfl, ?_⟩
    decide +kernel
  obtain ⟨x, hx, hfree⟩ := hlast
  have hmem : x ∈ RealmM.overlappingMoments := List.mem_of_getLast? hx
  exact ⟨x, hmem, hfree,
    Realm.slots_booked (.slots (.fresh false ()) RealmM.overlapping_slotwise 0 hmem)⟩

end ScriptRealm
