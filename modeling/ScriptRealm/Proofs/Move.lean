import Mathlib.Logic.Relation
import ScriptRealm.Proofs.Frames
import ScriptRealm.Proofs.World

/-!
# Move — what one write does to a realm

Everything that happens in a realm comes down to twelve kinds of write.
`Move` lists them once, each with the condition under which it is made, and
every invariant of runs is an invariant of moves. Two of them concern boxes:
`box` puts a wrapper into an empty slot without handing its handle out, and
`unbox` gives the slot of the innermost box back.

`Move.lasts` says that a handle that lasts goes on lasting, and `Move.sound`
that the invariant is kept.
-/

namespace ScriptRealm

variable {σ : Type}

/-- An object as the realm makes it. -/
inductive Object.Newborn : Object (Behavior σ) → Prop
  | plain : Newborn { prototype := some (Intrinsic.prototype .object).handle }
  | function (f : Callable (Behavior σ)) :
      Newborn (.function Intrinsic.functionPrototype.handle f)
  | wrapper (p : Boxed) : Newborn (.wrapper (RealmM.wrapperPrototype p).handle p)
  | error (kind : ErrorKind) (message : String) :
      Newborn (.ofError (Intrinsic.prototype (.error kind)).handle kind message)

/-- One write to a realm. -/
inductive Move (π : Policy σ) (w : World σ) : World σ → Prop
  /-- Nothing changes. -/
  | stay : Move π w w
  /-- An object is made. -/
  | create {o : Object (Behavior σ)} (newborn : o.Newborn) (fits : o.Fits π w) :
      Move π w (w.withArena (w.realm.arena.allocate o).2)
  /-- A primitive is boxed for an access. -/
  | box (p : Boxed) :
      Move π w
        { w.withArena
            (w.realm.arena.allocate (.wrapper (RealmM.wrapperPrototype p).handle p)).2 with
          boxes := w.realm.arena.upcoming :: w.boxes }
  /-- The innermost box is given back. -/
  | unbox {b : Handle} {rest : List Handle} (innermost : w.boxes = b :: rest) :
      Move π w { w.withArena (w.realm.arena.release b) with boxes := rest }
  /-- A requested change to a property is accepted. -/
  | define {h : Handle} {key : String} {d : Descriptor} {a : Arena (Behavior σ)}
      (fits : w.Fits π d) (unmixed : π.mixed ∨ ¬ d.Mixed)
      (accepted : w.realm.arena.define? h key d = some a) : Move π w (w.withArena a)
  /-- A configurable property is deleted. -/
  | discard {h : Handle} {key : String} {o : Object (Behavior σ)} {d : Descriptor}
      (present : w.get? h = some o) (own : o.getOwn key = some d)
      (configurable : d.configurable = some true) :
      Move π w (w.withArena (w.realm.arena.modify h (·.discard key)))
  /-- An object takes no new properties from now on. -/
  | close (h : Handle) :
      Move π w (w.withArena (w.realm.arena.modify h fun o => { o with extensible := false }))
  /-- A change of prototype is accepted. -/
  | link {h : Handle} {p : Option Handle} {a : Arena (Behavior σ)} (fits : w.Fits π p)
      (accepted : w.realm.arena.setPrototype? h p = some a) : Move π w (w.withArena a)
  /-- A raw edit is made. -/
  | edit {h : Handle} {e : RawEdit} (raw : π.raw h e) (fits : w.Fits π e) :
      Move π w (w.withArena (w.realm.arena.modify h e.apply))
  /-- The frames of names change. -/
  | names {s : Scopes} (change : w.realm.scopes.Change s)
      (fits : ∀ {f frame}, s.get? f = some frame → frame.Fits π w) :
      Move π w { w with realm := { w.realm with scopes := s } }
  /-- `new.target` changes. -/
  | target {t : Option Value} (fits : w.Fits π t) :
      Move π w { w with realm := { w.realm with newTarget := t } }
  /-- The host's state changes. -/
  | host {s : σ} (held : ∀ h, π.held s h → w.Lasts π h) :
      Move π w { w with realm := { w.realm with host := s } }

/-- Any number of writes. -/
abbrev Moves (π : Policy σ) : World σ → World σ → Prop := Relation.ReflTransGen (Move π)

variable {π : Policy σ} {w w' : World σ}

/-! ## Newborn objects -/

theorem Family.mem_all (family : Family) : family ∈ all := by
  cases family with
  | error kind => cases kind <;> decide
  | _ => decide

/-- Every prototype object is an intrinsic. -/
theorem Intrinsic.prototype_mem (family : Family) : prototype family ∈ all := by
  simp only [all, List.mem_append, List.mem_cons, List.mem_map]
  exact .inl (.inl (.inr ⟨family, family.mem_all, rfl⟩))

theorem Intrinsic.functionPrototype_mem : functionPrototype ∈ all := List.mem_cons_self

theorem RealmM.wrapperPrototype_mem (p : Boxed) : wrapperPrototype p ∈ Intrinsic.all := by
  cases p <;> exact Intrinsic.prototype_mem _

/-- A newborn object holds on to an intrinsic prototype, and a function to what
its code knows. -/
theorem World.Sound.fits_newborn (hw : w.Sound π) {o : Object (Behavior σ)} (newborn : o.Newborn)
    (hcode : ∀ f, o.callable = some f → f.behavior.Obeys π w) : o.Fits π w := by
  have hlink : ∀ i ∈ Intrinsic.all, w.Fits π (some i.handle) := by
    intro i hi
    exact fits_some.mpr (fits_handle.mpr (hw.intrinsics i hi))
  have hdata : ∀ {v : Value} {writable enumerable configurable : Bool}, w.Fits π v →
      w.Fits π (Descriptor.data v writable enumerable configurable) := by
    intro v writable enumerable configurable hv
    exact fits_descriptor.mpr ⟨fits_some.mpr hv, fits_none, fits_none⟩
  cases newborn with
  | plain =>
    refine ⟨?_, hlink _ (Intrinsic.prototype_mem _), hcode⟩
    intro e he
    cases he
  | wrapper p =>
    refine ⟨?_, hlink _ (RealmM.wrapperPrototype_mem p), hcode⟩
    intro e he
    cases he
  | function f =>
    refine ⟨?_, hlink _ Intrinsic.functionPrototype_mem, hcode⟩
    intro e he
    rcases List.mem_cons.mp he with rfl | he
    · exact hdata fits_number
    · rw [List.mem_singleton.mp he]
      exact hdata fits_ofText
  | error kind message =>
    refine ⟨?_, hlink _ (Intrinsic.prototype_mem _), hcode⟩
    intro e he
    rcases List.mem_cons.mp he with rfl | he
    · exact hdata fits_ofText
    · rw [List.mem_singleton.mp he]
      exact hdata fits_ofText

theorem World.Sound.fits_wrapper (hw : w.Sound π) (p : Boxed) :
    (Object.wrapper (RealmM.wrapperPrototype p).handle p : Object (Behavior σ)).Fits π w :=
  hw.fits_newborn (.wrapper p) fun _ hf => by cases hf

/-! ## Lasting handles go on lasting -/

theorem Move.lasts (hw : w.Sound π) (m : Move π w w') :
    ∀ h, w.Lasts π h → w'.Lasts π h := by
  intro h hl
  refine hl.imp_right fun ⟨hlive, hbox⟩ => ?_
  cases m with
  | stay | names | target | host => exact ⟨hlive, hbox⟩
  | create newborn fits =>
    refine ⟨?_, hbox⟩
    simp only [World.get?, World.withArena, Arena.get?_allocate hw.arena]
    split
    · rfl
    · exact hlive
  | box p =>
    have hne : h ≠ w.realm.arena.upcoming := by
      rintro rfl
      rw [World.get?, Arena.get?_upcoming hw.arena] at hlive
      cases hlive
    refine ⟨?_, by simp [hne, hbox]⟩
    simpa only [World.get?, World.withArena, Arena.get?_allocate hw.arena, if_neg hne] using hlive
  | unbox innermost =>
    rw [innermost, List.mem_cons, not_or] at hbox
    refine ⟨?_, hbox.2⟩
    simpa only [World.get?, World.withArena, Arena.get?_release, if_neg hbox.1] using hlive
  | define fits unmixed accepted =>
    obtain ⟨o, o', ho, -, rfl⟩ := Arena.define?_eq_some accepted
    exact ⟨by simpa only [World.get?, World.withArena, Arena.isSome_get?_modify] using hlive, hbox⟩
  | discard | close | edit =>
    exact ⟨by simpa only [World.get?, World.withArena, Arena.isSome_get?_modify] using hlive, hbox⟩
  | link fits accepted =>
    obtain ⟨o, ho, ⟨rfl, -⟩ | ⟨-, rfl⟩⟩ := Arena.setPrototype?_eq_some accepted
    · exact ⟨hlive, hbox⟩
    · exact ⟨by simpa only [World.get?, World.withArena, Arena.isSome_get?_modify] using hlive,
        hbox⟩

/-! ## The invariant is kept -/

theorem RawEdit.apply_id (e : RawEdit) (o : Object (Behavior σ)) : (e.apply o).id = o.id := by
  cases e <;> rfl

theorem Object.Fits.apply {o : Object (Behavior σ)} (ho : o.Fits π w) {e : RawEdit}
    (he : w.Fits π e) : (e.apply o).Fits π w := by
  cases e with
  | store key d => exact ho.store key he
  | discard key => exact ho.discard key
  | retag tag => exact ⟨ho.properties, ho.prototype, ho.callable⟩

theorem Object.define?_id {β : Type} {o o' : Object β} {key : String} {d : Descriptor}
    (accepted : o.define? key d = some o') : o'.id = o.id := by
  rcases define?_cases accepted with ⟨-, -, rfl⟩ | ⟨current, -, -, rfl⟩ <;> rfl

/-- The invariant is kept when what lasted goes on lasting and all that is there
now fits the world before. -/
theorem World.Sound.step (hw : w.Sound π) (hle : ∀ h, w.Lasts π h → w'.Lasts π h)
    (arena : w'.realm.arena.WellFormed) (boxes_nodup : w'.boxes.Nodup)
    (boxes_live : ∀ b ∈ w'.boxes, (w'.get? b).isSome = true)
    (objects : ∀ {h o}, w'.get? h = some o → o.Fits π w)
    (frames : ∀ {f frame}, w'.realm.scopes.get? f = some frame → frame.Fits π w)
    (newTarget : w.Fits π w'.realm.newTarget)
    (host : ∀ h, π.held w'.realm.host h → w.Lasts π h) : w'.Sound π where
  arena := arena
  boxes_nodup := boxes_nodup
  boxes_live := boxes_live
  intrinsics i hi := hle _ (hw.intrinsics i hi)
  objects ho := (objects ho).mono hle
  frames hf := (frames hf).mono hle
  newTarget := newTarget.mono hle
  host h hh := hle h (host h hh)

/-- Writing the arena keeps the invariant when no object is lost and every
object that is not as before fits. -/
theorem World.Sound.withArena (hw : w.Sound π) {a : Arena (Behavior σ)} (wf : a.WellFormed)
    (hlive : ∀ h, (w.get? h).isSome = true → (a.get? h).isSome = true)
    (hobjects : ∀ {h o}, a.get? h = some o → w.get? h = some o ∨ o.Fits π w) :
    (w.withArena a).Sound π := by
  have hle : ∀ h, w.Lasts π h → (w.withArena a).Lasts π h := by
    intro h hl
    exact hl.imp_right fun ⟨hthere, hbox⟩ => ⟨hlive h hthere, hbox⟩
  apply hw.step hle wf hw.boxes_nodup
  · intro b hb
    exact hlive b (hw.boxes_live b hb)
  · intro h o ho
    exact (hobjects ho).elim hw.objects id
  · exact hw.frames
  · exact hw.newTarget
  · exact hw.host

/-- Changing one object keeps the invariant when the changed object fits. -/
theorem World.Sound.modify (hw : w.Sound π) {h : Handle}
    {change : Object (Behavior σ) → Object (Behavior σ)}
    (hid : ∀ o, w.get? h = some o → (change o).id = o.id)
    (hfits : ∀ o, w.get? h = some o → (change o).Fits π w) :
    (w.withArena (w.realm.arena.modify h change)).Sound π := by
  apply hw.withArena (hw.arena.modify hid)
  · intro g hg
    rw [Arena.isSome_get?_modify]
    exact hg
  · intro g o hg
    rw [Arena.get?_modify] at hg
    split at hg
    · obtain ⟨old, hold, rfl⟩ := Option.map_eq_some_iff.mp hg
      exact .inr (hfits old hold)
    · exact .inl hg

theorem World.Sound.create (hw : w.Sound π) {o : Object (Behavior σ)} (ho : o.Fits π w) :
    (w.withArena (w.realm.arena.allocate o).2).Sound π := by
  apply hw.withArena (hw.arena.allocate o)
  · intro h hl
    rw [Arena.get?_allocate hw.arena]
    split
    · rfl
    · exact hl
  · intro h p hp
    rw [Arena.get?_allocate hw.arena] at hp
    split at hp
    · cases hp
      exact .inr ⟨ho.properties, ho.prototype, ho.callable⟩
    · exact .inl hp

/-- Boxing: the object is new, so its handle is not among those that last. -/
theorem World.Sound.box (hw : w.Sound π) (p : Boxed) (m : Move π w w')
    (hbox : w' = { w.withArena
        (w.realm.arena.allocate (.wrapper (RealmM.wrapperPrototype p).handle p)).2 with
      boxes := w.realm.arena.upcoming :: w.boxes }) : w'.Sound π := by
  have hle := m.lasts hw
  have hwrapper := hw.fits_wrapper p
  have hcreate := hw.create hwrapper
  have hnew : w.get? w.realm.arena.upcoming = none := Arena.get?_upcoming hw.arena
  subst hbox
  apply hw.step hle hcreate.arena
  · refine List.nodup_cons.mpr ⟨?_, hw.boxes_nodup⟩
    intro hmem
    have hlive := hw.boxes_live _ hmem
    rw [hnew] at hlive
    cases hlive
  · intro b hb
    rcases List.mem_cons.mp hb with rfl | hb
    · simp [World.get?, World.withArena, Arena.get?_allocate hw.arena]
    · exact hcreate.boxes_live b hb
  · intro h o ho
    have ho' : (w.realm.arena.allocate _).2.get? h = some o := ho
    rw [Arena.get?_allocate hw.arena] at ho'
    split at ho'
    · cases ho'
      exact ⟨hwrapper.properties, hwrapper.prototype, hwrapper.callable⟩
    · exact hw.objects ho'
  · exact hw.frames
  · exact hw.newTarget
  · exact hw.host

/-- Giving a box back: no other handle stood for it. -/
theorem World.Sound.unbox (hw : w.Sound π) {b : Handle} {rest : List Handle}
    (innermost : w.boxes = b :: rest) (m : Move π w w')
    (hunbox : w' = { w.withArena (w.realm.arena.release b) with boxes := rest }) :
    w'.Sound π := by
  have hle := m.lasts hw
  have hnodup := hw.boxes_nodup
  rw [innermost, List.nodup_cons] at hnodup
  subst hunbox
  apply hw.step hle (hw.arena.release b) hnodup.2
  · intro c hc
    have hmem : c ∈ w.boxes := by
      rw [innermost]
      exact List.mem_cons_of_mem b hc
    have hne : c ≠ b := by
      rintro rfl
      exact hnodup.1 hc
    simpa only [World.get?, World.withArena, Arena.get?_release, if_neg hne]
      using hw.boxes_live c hmem
  · intro h o ho
    have ho' : (w.realm.arena.release b).get? h = some o := ho
    rw [Arena.get?_release] at ho'
    split at ho'
    · cases ho'
    · exact hw.objects ho'
  · exact hw.frames
  · exact hw.newTarget
  · exact hw.host

/-- Every move keeps the invariant. -/
theorem Move.sound (hw : w.Sound π) (m : Move π w w') : w'.Sound π := by
  have hle := m.lasts hw
  cases m with
  | stay => exact hw
  | create newborn fits => exact hw.create fits
  | box p => exact hw.box p (.box p) rfl
  | unbox innermost => exact hw.unbox innermost (.unbox innermost) rfl
  | define fits unmixed accepted =>
    obtain ⟨o, o', ho, hdefine, rfl⟩ := Arena.define?_eq_some accepted
    apply hw.modify
    · intro p hp
      rw [show w.get? _ = some o from ho] at hp
      cases hp
      exact Object.define?_id hdefine
    · intro p hp
      exact (hw.objects ho).define? fits hdefine
  | discard present own configurable =>
    refine hw.modify (fun _ _ => rfl) ?_
    intro o ho
    exact (hw.objects ho).discard _
  | close h =>
    refine hw.modify (fun _ _ => rfl) ?_
    intro o ho
    exact ⟨(hw.objects ho).properties, (hw.objects ho).prototype, (hw.objects ho).callable⟩
  | link fits accepted =>
    obtain ⟨o, ho, ⟨rfl, -⟩ | ⟨-, rfl⟩⟩ := Arena.setPrototype?_eq_some accepted
    · exact hw
    · refine hw.modify (fun _ _ => rfl) ?_
      intro o ho
      exact ⟨(hw.objects ho).properties, fits, (hw.objects ho).callable⟩
  | edit raw fits =>
    refine hw.modify (fun o _ => RawEdit.apply_id _ o) ?_
    intro o ho
    exact (hw.objects ho).apply fits
  | names change fits =>
    exact hw.step hle hw.arena hw.boxes_nodup hw.boxes_live hw.objects fits hw.newTarget hw.host
  | target fits =>
    exact hw.step hle hw.arena hw.boxes_nodup hw.boxes_live hw.objects hw.frames fits hw.host
  | host held =>
    exact hw.step hle hw.arena hw.boxes_nodup hw.boxes_live hw.objects hw.frames hw.newTarget held

/-! ## Any number of moves -/

theorem Moves.sound (hw : w.Sound π) (ms : Moves π w w') : w'.Sound π := by
  induction ms with
  | refl => exact hw
  | tail _ m ih => exact m.sound ih

theorem Moves.lasts (hw : w.Sound π) (ms : Moves π w w') : ∀ h, w.Lasts π h → w'.Lasts π h := by
  induction ms with
  | refl =>
    intro h hl
    exact hl
  | tail ms m ih =>
    intro h hl
    exact m.lasts (Moves.sound hw ms) h (ih h hl)

end ScriptRealm
