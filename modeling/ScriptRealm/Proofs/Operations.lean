import ScriptRealm.Proofs.Safety

/-!
# Operations — every operation is sound

One lemma for each operation of the realm: from arguments that fit it is
`Sound`. The object that an access starts from need not last, so that it may
be a box; what the access reads there does, and so does the receiver.

The two lemmas with content are `RealmM.Sound.underTarget`, where setting
`new.target`, entering a function and putting the former one back make up a
call, and `ScriptM.Sound.autoboxed`, where the box is known to the use only and
is the innermost again when the use has ended.
-/

namespace ScriptRealm

variable {σ α : Type} {π : Policy σ} {w : World σ}

namespace World

theorem fits_result {c : Completion} (hc : w.Fits π c) : w.Fits π c.result := by
  cases c with
  | normal v | returned v => exact fits_ok.mpr hc
  | thrown v => exact fits_error.mpr hc
  | broke _ | continued _ => exact fits_ok.mpr fits_undefined

theorem fits_ofResult {r : Except Value Value} (hr : w.Fits π r) :
    w.Fits π (Completion.ofResult r) := by
  cases r with
  | ok v => exact fits_ok.mp hr
  | error e => exact fits_error.mp hr

theorem fits_argument {args : List Value} (hargs : w.Fits π args) (place : Nat) :
    w.Fits π (argument args place) := by
  apply fits_getD
  apply fits_option
  intro v hv
  exact fits_list.mp hargs v (List.mem_of_getElem? hv)

/-- The code of a function that can be called keeps to the policy. -/
theorem Sound.callable? (hw : w.Sound π) {v : Value} {f : Callable (Behavior σ)}
    (hf : w.realm.callable? v = some f) : f.behavior.Obeys π w := by
  obtain ⟨h, -, hcall⟩ := Option.bind_eq_some_iff.mp hf
  obtain ⟨o, ho, hcall⟩ := Option.bind_eq_some_iff.mp hcall
  exact (hw.objects ho).callable f hcall

end World

namespace RealmM.Sound

/-! ## Making objects -/

theorem newObject (hw : w.Sound π) : (newObject : RealmM σ Handle).Sound π w :=
  allocate hw .plain (hw.fits_newborn .plain fun _ hf => by cases hf)

theorem newWrapper (hw : w.Sound π) (p : Boxed) : (newWrapper p : RealmM σ Handle).Sound π w :=
  allocate hw (.wrapper p) (hw.fits_wrapper p)

theorem newError (hw : w.Sound π) (kind : ErrorKind) (message : String) :
    (newError kind message : RealmM σ Value).Sound π w := by
  have hfits := hw.fits_newborn (.error kind message) fun _ hf => by cases hf
  exact map (allocate hw (.error kind message) hfits)
    fun _ _ hh => World.fits_object.mpr (World.fits_handle.mp hh)

theorem newFunction (hw : w.Sound π) {f : Callable (Behavior σ)} (hf : f.behavior.Obeys π w) :
    (newFunction f : RealmM σ Value).Sound π w := by
  have hfits := hw.fits_newborn (.function f) fun _ hg => by
    cases hg
    exact hf
  exact map (allocate hw (.function f) hfits)
    fun _ _ hh => World.fits_object.mpr (World.fits_handle.mp hh)

/-! ## Calls -/

theorem throwing [Printer] (hw : w.Sound π) (f : Fault) :
    (throwing f : RealmM σ Completion).Sound π w :=
  map (newError hw f.kind f.message) fun _ _ hv => hv

/-- Running a function under the `new.target` that the reason for it asks for. -/
theorem underTarget (why : Entry) {b : Behavior σ} {this : Value} {args : List Value}
    (htarget : w.Fits π why.target) (hb : b.Obeys π w) (hthis : w.Fits π this)
    (hargs : w.Fits π args) :
    (underTarget why.target (runBehavior why b this args)).Sound π w :=
  ⟨.read (.read (.call htarget hb hthis hargs fun _ _ hl hc => .done ⟨hl.boxes, hc⟩))⟩

theorem call [Printer] (hw : w.Sound π) (f : Value) {this : Value} {args : List Value}
    (hthis : w.Fits π this) (hargs : w.Fits π args) : (call f this args).Sound π w := by
  refine get_bind ?_
  split
  · exact throwing hw _
  · rename_i c hc
    exact underTarget .called World.fits_none (hw.callable? hc) hthis hargs

theorem construct [Printer] (hw : w.Sound π) {f : Value} {args : List Value} (hf : w.Fits π f)
    (hargs : w.Fits π args) : (construct f args).Sound π w := by
  refine get_bind ?_
  split
  · exact throwing hw _
  · rename_i c hc
    have hcall := (Option.filter_eq_some_iff.mp hc).1
    exact underTarget (.constructing f) (World.fits_some.mpr hf) (hw.callable? hcall)
      World.fits_undefined hargs

/-! ## Changes that may be refused -/

theorem define (o : Handle) (key : String) {d : Descriptor}
    (hd : w.Fits π d) (unmixed : π.mixed ∨ ¬ d.Mixed) :
    (define o key d : RealmM σ Bool).Sound π w := by
  cases hdefine : w.realm.arena.define? o key d with
  | none => exact moveGet .stay (by simp [hdefine]) rfl (.of_nil rfl)
  | some a =>
    have hmove := Move.define hd unmixed hdefine
    exact moveGet hmove (by simp [hdefine, World.withArena]) rfl (.of_nil rfl)

theorem preventExtensions (o : Handle) :
    (preventExtensions o : RealmM σ Bool).Sound π w :=
  moveGet (.close o) rfl rfl (.of_nil rfl)

theorem setPrototype (o : Handle) {p : Option Handle} (hp : w.Fits π p) :
    (setPrototype o p : RealmM σ Bool).Sound π w := by
  cases hlink : w.realm.arena.setPrototype? o p with
  | none => exact moveGet .stay (by simp [hlink]) rfl (.of_nil rfl)
  | some a =>
    have hmove := Move.link hp hlink
    exact moveGet hmove (by simp [hlink, World.withArena]) rfl (.of_nil rfl)

/-! ## Frames -/

/-- A change of one frame is a move when it is a change of frames and what it
writes fits. -/
theorem modifyFrame (hw : w.Sound π) {f : FrameId} {edit : Frame → Frame}
    (hchange : w.realm.scopes.Change (w.realm.scopes.modify f edit))
    (hfits : ∀ frame, w.realm.scopes.get? f = some frame → (edit frame).Fits π w) :
    RealmM.Sound π (modify (·.withFrame f edit)) w := by
  refine move (.names hchange fun {g frame} hg => ?_) rfl rfl
  rw [Scopes.get?_modify] at hg
  split at hg
  · obtain ⟨old, hold, rfl⟩ := Option.map_eq_some_iff.mp hg
    exact hfits old hold
  · exact hw.frames hg

end RealmM.Sound

namespace ScriptM.Sound

open World

/-! ## Throwing -/

theorem raise [Printer] [Carrier α] (hw : w.Sound π) (f : Fault) :
    (ScriptM.raise f : ScriptM σ α).Sound π w :=
  bind hw (lift (.newError hw f.kind f.message)) fun _ _ _ he => throwing he

theorem refuse [Printer] (hw : w.Sound π) (strict : Bool) (f : Fault) :
    (ScriptM.refuse strict f).Sound π w := by
  unfold ScriptM.refuse
  split
  · exact raise hw f
  · exact pure (.of_nil rfl)

theorem callForValue [Printer] (hw : w.Sound π) (f : Value) {this : Value} {args : List Value}
    (hthis : w.Fits π this) (hargs : w.Fits π args) :
    (ScriptM.callForValue f this args).Sound π w :=
  ⟨.map (.call hw f hthis hargs) fun _ _ => fits_result⟩

/-! ## Properties -/

theorem getProperty [Printer] (hw : w.Sound π) (o : Handle) (key : String) {receiver : Value}
    (hreceiver : w.Fits π receiver) : (ScriptM.getProperty o key receiver).Sound π w := by
  unfold ScriptM.getProperty
  refine realm_bind ?_
  split
  · exact pure fits_undefined
  · rename_i d hd
    split
    · dsimp only
      split
      · exact pure fits_undefined
      · exact callForValue hw _ hreceiver (.of_nil rfl)
    · exact pure (fits_getD (fits_descriptor.mp (hw.find? hd)).1)

theorem writeOwn (receiver : Handle) (key : String) {v : Value}
    (hv : w.Fits π v) : (ScriptM.writeOwn receiver key v).Sound π w := by
  unfold ScriptM.writeOwn
  refine realm_bind ?_
  split
  · refine lift (.define _ key (d := .plain v) ?_ (.inr fun hmixed => by cases hmixed.2))
    exact fits_descriptor.mpr ⟨fits_some.mpr hv, fits_none, fits_none⟩
  · split
    · exact pure (.of_nil rfl)
    · refine lift (.define _ key ?_ (.inr fun hmixed => by cases hmixed.2))
      exact fits_descriptor.mpr ⟨fits_some.mpr hv, fits_none, fits_none⟩

theorem writeReceiver [Printer] (hw : w.Sound π) (key : String) {v : Value} (receiver : Value)
    (strict : Bool) (hv : w.Fits π v) :
    (ScriptM.writeReceiver key v receiver strict).Sound π w := by
  unfold ScriptM.writeReceiver
  split
  · exact refuse hw strict _
  · refine realm_bind ?_
    split
    · exact pure (.of_nil rfl)
    · refine bind hw (writeOwn _ key hv) ?_
      intro accepted w' hl _
      split
      · exact pure (.of_nil rfl)
      · exact refuse hl.sound strict _

theorem setProperty [Printer] (hw : w.Sound π) (o : Handle) (key : String) {v receiver : Value}
    (strict : Bool) (hv : w.Fits π v) (hreceiver : w.Fits π receiver) :
    (ScriptM.setProperty o key v receiver strict).Sound π w := by
  unfold ScriptM.setProperty
  refine realm_bind ?_
  split
  · exact writeReceiver hw key receiver strict hv
  · split
    · dsimp only
      split
      · exact refuse hw strict _
      · have hargs : w.Fits π [v] := fits_list.mpr fun a ha => List.mem_singleton.mp ha ▸ hv
        exact bind hw (callForValue hw _ hreceiver hargs) fun _ _ _ _ => pure (.of_nil rfl)
    · split
      · exact refuse hw strict _
      · exact writeReceiver hw key receiver strict hv

theorem deleteProperty [Printer] (hw : w.Sound π) (o : Handle) (key : String) (strict : Bool) :
    (ScriptM.deleteProperty o key strict).Sound π w := by
  unfold ScriptM.deleteProperty
  refine realm_bind ?_
  split
  · exact pure (.of_nil rfl)
  · rename_i object ho
    split
    · exact pure (.of_nil rfl)
    · rename_i d hd
      split
      · rename_i hconfigurable
        exact bind hw (change (.discard ho hd (by simpa using hconfigurable)) rfl rfl)
          fun _ _ _ _ => pure (.of_nil rfl)
      · exact refuse hw strict _

/-! ## Values as objects -/

theorem toObject [Printer] (hw : w.Sound π) {v : Value} (hv : w.Fits π v) :
    (ScriptM.toObject v).Sound π w := by
  unfold ScriptM.toObject
  split
  · rename_i h hh
    exact pure fun g hg => hv g (by simpa [handles, hh] using hg)
  · exact lift (.newWrapper hw _)
  · exact raise hw _

/-- The use of an object may be of a box: it is the innermost of the boxes
while the use runs, and when the use has ended it is so again. -/
theorem autoboxed [Printer] [Carrier α] (hw : w.Sound π) (base : Value) {use : Handle → ScriptM σ α}
    (huse : ∀ o w', Moves π w w' → w'.Sound π → (use o).Sound π w') :
    (ScriptM.autoboxed base use).Sound π w := by
  unfold ScriptM.autoboxed
  split
  · exact huse _ w .refl hw
  · rename_i hhandle
    unfold ScriptM.toObject
    rw [hhandle]
    cases base.boxable? with
    | none => exact raise hw .nullishObject
    | some p =>
      refine ⟨⟨lift_bind (.read (.write (.box p) rfl (.done ?_)))⟩⟩
      rw [Arena.allocate_fst]
      have hboxed := (Move.box p).sound hw
      have huse := (huse w.realm.arena.upcoming _ (.single (.box p)) hboxed).attempt.safe
      -- the use leaves the box innermost, so that giving it back is a move
      refine lift_bind ((RealmM.Safe.remember hboxed huse).mono ?_)
      rintro outcome w₂ ⟨⟨hboxes, hfits⟩, -, hsound, -⟩
      have hgone := Move.unbox (π := π) hboxes
      exact .read (.write hgone rfl (.done ⟨rfl, hfits.mono (hgone.lasts hsound)⟩))

/-! ## Conversions -/

theorem convertBy [Printer] (hw : w.Sound π) {o : Handle} (ho : w.Lasts π o) (names : List String) :
    (ScriptM.convertBy o names).Sound π w := by
  induction names generalizing w with
  | nil => exact raise hw _
  | cons name others ih =>
    unfold ScriptM.convertBy
    refine bind hw (getProperty hw o name (fits_object.mpr ho)) ?_
    intro method w₁ hl₁ _
    have ho₁ := hl₁.moves.lasts hw o ho
    refine realm_bind ?_
    split
    · have hargs : w₁.Fits π ([] : List Value) := .of_nil rfl
      have hcall := callForValue hl₁.sound method (fits_object.mpr ho₁) hargs
      refine bind hl₁.sound hcall ?_
      intro v w₂ hl₂ hv
      split
      · exact ih hl₂.sound (hl₂.moves.lasts hl₁.sound o ho₁)
      · exact pure hv
    · exact ih hl₁.sound ho₁

theorem toPrimitive [Printer] (hw : w.Sound π) {v : Value} (hv : w.Fits π v) (hint : Hint) :
    (ScriptM.toPrimitive v hint).Sound π w := by
  unfold ScriptM.toPrimitive
  split
  · exact pure hv
  · rename_i o ho
    exact convertBy hw (hv o (by simp [handles, ho])) _

theorem toNumber [Printer] (hw : w.Sound π) {v : Value} (hv : w.Fits π v) :
    (ScriptM.toNumber v).Sound π w :=
  map hw (toPrimitive hw hv _) fun _ _ _ => .of_nil rfl

theorem toText [Printer] (hw : w.Sound π) {v : Value} (hv : w.Fits π v) :
    (ScriptM.toText v).Sound π w :=
  map hw (toPrimitive hw hv _) fun _ _ _ => .of_nil rfl

theorem toInteger [Printer] (hw : w.Sound π) {v : Value} (hv : w.Fits π v) :
    (ScriptM.toInteger v).Sound π w :=
  map hw (toNumber hw hv) fun _ _ _ => .of_nil rfl

theorem negate [Printer] (hw : w.Sound π) {v : Value} (hv : w.Fits π v) :
    (ScriptM.negate v).Sound π w :=
  map hw (toNumber hw hv) fun _ _ _ => fits_number

theorem looselyEquals [Printer] (hw : w.Sound π) {a b : Value} (ha : w.Fits π a) (hb : w.Fits π b) :
    (ScriptM.looselyEquals a b).Sound π w := by
  unfold ScriptM.looselyEquals
  split
  · exact pure (.of_nil rfl)
  · exact pure (.of_nil rfl)
  · split
    · exact pure (.of_nil rfl)
    · exact bind hw (toPrimitive hw ha _) fun _ _ _ _ => pure (.of_nil rfl)
  · split
    · exact pure (.of_nil rfl)
    · exact bind hw (toPrimitive hw hb _) fun _ _ _ _ => pure (.of_nil rfl)

/-! ## References -/

theorem modifyFrame (hw : w.Sound π) {f : FrameId} {edit : Frame → Frame}
    (hchange : w.realm.scopes.Change (w.realm.scopes.modify f edit))
    (hfits : ∀ frame, w.realm.scopes.get? f = some frame → (edit frame).Fits π w) :
    (ScriptM.modifyFrame f edit).Sound π w :=
  lift (.modifyFrame hw hchange hfits)

theorem getValue [Printer] (hw : w.Sound π) {r : Reference} (hr : w.Fits π r) :
    (ScriptM.getValue r).Sound π w := by
  unfold ScriptM.getValue
  split
  · exact raise hw _
  · refine realm_bind ?_
    split
    · exact raise hw _
    · rename_i b hb
      split
      · exact pure (fits_binding.mp (hw.binding? hb))
      · exact raise hw _
  · rename_i base name strict
    split
    · exact raise hw _
    · exact autoboxed hw base fun o w' hms hw' => getProperty hw' o name (hr.mono (hms.lasts hw))

theorem putUndeclared [Printer] (hw : w.Sound π) (name : String) (strict : Bool)
    (outermost : FrameId)
    {v : Value} (hv : w.Fits π v) : (ScriptM.putUndeclared name strict outermost v).Sound π w := by
  unfold ScriptM.putUndeclared
  split
  · exact raise hw _
  · exact modifyFrame hw (.defineImplicit outermost name v) fun frame hf =>
      (hw.frames hf).bind name (fits_binding.mpr hv)

theorem putValue [Printer] (hw : w.Sound π) {r : Reference} {v : Value} (hr : w.Fits π r)
    (hv : w.Fits π v) : (ScriptM.putValue v r).Sound π w := by
  unfold ScriptM.putValue
  split
  · exact putUndeclared hw _ _ _ hv
  · refine realm_bind ?_
    dsimp only
    split
    · exact putUndeclared hw _ _ _ hv
    · rename_i b hb
      split
      · exact raise hw _
      · rename_i hready
        have hready : b.initialized = true := by simpa using hready
        have hassign : ∀ hwritable : b.kind = .variable ∨ b.kind = .letVariable,
            (ScriptM.modifyFrame _ (·.bind _ { b with value := v })).Sound π w :=
          fun hwritable => modifyFrame hw (.assign v hb hready hwritable) fun frame hf =>
            (hw.frames hf).bind _ (fits_binding.mpr hv)
        split
        · exact raise hw _
        · split
          · exact raise hw _
          · exact pure (.of_nil rfl)
        · rename_i hkind
          exact hassign (.inl hkind)
        · rename_i hkind
          exact hassign (.inr hkind)
  · rename_i base name strict
    split
    · exact raise hw _
    · refine bind hw (autoboxed hw base fun o w' hms hw' => ?_) fun _ _ _ _ => pure (.of_nil rfl)
      exact setProperty hw' o name strict (hv.mono (hms.lasts hw)) (hr.mono (hms.lasts hw))

theorem deleteReference [Printer] (hw : w.Sound π) (r : Reference) :
    (ScriptM.deleteReference r).Sound π w := by
  unfold ScriptM.deleteReference
  split
  · split
    · exact raise hw _
    · exact pure (.of_nil rfl)
  · split
    · exact raise hw _
    · refine realm_bind ?_
      split
      · exact pure (.of_nil rfl)
      · rename_i b hb
        split
        · rename_i hdeletable
          have hunbind := modifyFrame hw (.unbind hb hdeletable) fun frame hf =>
            (hw.frames hf).unbind _
          exact bind hw hunbind fun _ _ _ _ => pure (.of_nil rfl)
        · exact pure (.of_nil rfl)
  · split
    · exact raise hw _
    · exact autoboxed hw _ fun o w' _ hw' => deleteProperty hw' o _ _

end ScriptM.Sound

namespace RealmM.Sound

open World

theorem callMethod [Printer] (hw : w.Sound π) {base : Value} (name : String) {args : List Value}
    (hbase : w.Fits π base) (hargs : w.Fits π args) : (callMethod base name args).Sound π w := by
  refine get_bind (bind hw (ScriptM.Sound.getValue hw hbase).attempt fun method w' hl hmethod => ?_)
  split
  · exact pure (fits_error.mp hmethod)
  · refine get_bind ?_
    split
    · exact call hl.sound _ (hl.fits hw hbase) (hl.fits hw hargs)
    · exact throwing hl.sound _

theorem uncaught [Printer] (hw : w.Sound π) {v : Value} (hv : w.Fits π v) :
    (uncaught v).Sound π w := by
  refine get_bind ?_
  split
  · exact pure (.of_nil rfl)
  · refine bind hw (ScriptM.Sound.toText hw hv).attempt ?_
    intro text w' hl _
    split
    · exact pure (.of_nil rfl)
    · exact get_bind (pure (.of_nil rfl))

end RealmM.Sound

end ScriptRealm
