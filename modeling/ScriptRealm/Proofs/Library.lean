import ScriptRealm.Proofs.Operations
import ScriptRealm.Realm.Run

/-!
# Library — every built-in function is sound

A built-in function is entered with a receiver and arguments that fit, and
ends with a value that fits (`RealmM.Sound.builtin`). Most of them convert
their arguments first; what they do then starts in a later world, where the
receiver still fits.
-/

namespace ScriptRealm

variable {σ : Type} {π : Policy σ} {w : World σ}

namespace ScriptM.Sound

open World

/-! ## Objects -/

theorem tagText [Printer] (hw : w.Sound π) {this : Value} (hthis : w.Fits π this) :
    (Builtin.tagText this : ScriptM σ Value).Sound π w := by
  unfold Builtin.tagText
  dsimp only
  split
  · exact bind hw (pure (.of_nil rfl)) fun (_ : String) _ _ _ => pure fits_ofText
  · exact bind hw (pure (.of_nil rfl)) fun (_ : String) _ _ _ => pure fits_ofText
  · refine bind hw (toObject hw hthis) fun o w' hl _ => realm_bind ?_
    exact bind hl.sound (pure (.of_nil rfl)) fun (_ : String) _ _ _ => pure fits_ofText

theorem asObject [Printer] (hw : w.Sound π) {v : Value} (hv : w.Fits π v) :
    (Builtin.asObject v : ScriptM σ Value).Sound π w :=
  map hw (toObject hw hv) fun _ _ hh => fits_object.mpr (fits_handle.mp hh)

theorem ownPropertyTest [Printer] (hw : w.Sound π) (this : Value) {args : List Value}
    (hargs : w.Fits π args) (test : Option Descriptor → Bool) :
    (Builtin.ownPropertyTest this args test : ScriptM σ Value).Sound π w := by
  refine bind hw (toText hw (fits_argument hargs 0)) ?_
  intro key w' hl _
  refine bind hl.sound (autoboxed hl.sound this fun o w₂ _ hw₂ => realm_bind (pure ?_))
    fun (_ : Option Descriptor) _ _ _ => pure fits_boolean
  exact hw₂.getOwn o key

theorem isPrototypeTest [Printer] (hw : w.Sound π) {this : Value} {args : List Value}
    (hthis : w.Fits π this) : (Builtin.isPrototypeTest this args : ScriptM σ Value).Sound π w := by
  unfold Builtin.isPrototypeTest
  split
  · exact bind hw (toObject hw hthis) fun _ _ _ _ => realm_bind (pure fits_boolean)
  · exact pure fits_boolean

theorem makeObject [Printer] (hw : w.Sound π) {args : List Value} (hargs : w.Fits π args) :
    (Builtin.makeObject args : ScriptM σ Value).Sound π w := by
  unfold Builtin.makeObject
  dsimp only
  split
  · exact map hw (lift (.newObject hw)) fun _ _ hh => fits_object.mpr (fits_handle.mp hh)
  · exact asObject hw (fits_argument hargs 0)

theorem prototypeOf [Printer] (hw : w.Sound π) {args : List Value} (hargs : w.Fits π args) :
    (Builtin.prototypeOf args : ScriptM σ Value).Sound π w := by
  refine bind hw (toObject hw (fits_argument hargs 0)) fun o w' hl _ => realm_bind (pure ?_)
  have hlink := hl.sound.prototype? o
  cases hp : w'.realm.arena.prototype? o with
  | none => exact fits_null
  | some p =>
    rw [hp] at hlink
    exact fits_object.mpr (fits_handle.mp (fits_some.mp hlink))

theorem prototypeArgument [Printer] (hw : w.Sound π) {v : Value} (hv : w.Fits π v) :
    (Builtin.prototypeArgument v : ScriptM σ (Option Handle)).Sound π w := by
  unfold Builtin.prototypeArgument
  split
  · exact pure (fits_some.mpr (fits_handle.mpr (fits_object.mp hv)))
  · exact pure fits_none
  · exact raise hw _

theorem changePrototype [Printer] (hw : w.Sound π) {args : List Value} (hargs : w.Fits π args) :
    (Builtin.changePrototype args : ScriptM σ Value).Sound π w := by
  unfold Builtin.changePrototype
  dsimp only
  have htarget := fits_argument hargs 0
  split
  · exact raise hw _
  · refine bind hw (prototypeArgument hw (fits_argument hargs 1)) ?_
    intro p w₁ hl₁ hp
    have htarget₁ := hl₁.fits hw htarget
    split
    · refine bind hl₁.sound (lift (.setPrototype _ hp)) ?_
      intro accepted w₂ hl₂ _
      split
      · exact pure (hl₂.fits hl₁.sound htarget₁)
      · refine realm_bind ?_
        split
        · exact raise hl₂.sound _
        · exact raise hl₂.sound _
    · exact pure htarget₁

theorem fixProperties (hw : w.Sound π) {args : List Value} (hargs : w.Fits π args) :
    (Builtin.fixProperties args : ScriptM σ Value).Sound π w := by
  unfold Builtin.fixProperties
  dsimp only
  have htarget := fits_argument hargs 0
  split
  · exact bind hw (lift (.preventExtensions _)) fun _ _ hl _ => pure (hl.fits hw htarget)
  · exact pure htarget

theorem extensibleTest {args : List Value} :
    (Builtin.extensibleTest args : ScriptM σ Value).Sound π w := by
  unfold Builtin.extensibleTest
  split
  · exact realm_bind (pure fits_boolean)
  · exact pure fits_boolean

/-! ## Functions and errors -/

theorem functionText [Printer] (hw : w.Sound π) {this : Value} :
    (Builtin.functionText this : ScriptM σ Value).Sound π w := by
  unfold Builtin.functionText
  refine realm_bind ?_
  split
  · exact pure fits_ofText
  · exact raise hw _

/-- The `message` that is taken away again is one that the new error has. -/
theorem makeError [Printer] (hw : w.Sound π) (kind : ErrorKind) {args : List Value}
    (hargs : w.Fits π args) : (Builtin.makeError kind args : ScriptM σ Value).Sound π w := by
  unfold Builtin.makeError
  dsimp only
  split
  · have hmade := RealmM.Safe.allocate hw (.error kind "")
      (hw.fits_newborn (.error kind "") fun _ hf => by cases hf)
    refine ⟨⟨lift_bind (RealmM.Safe.bind ((RealmM.Safe.remember hw hmade).mono ?_))⟩⟩
    rintro h w' ⟨⟨hboxes, hlasts, hget⟩, -, hs, -⟩
    have hdiscard : Move π w' (w'.withArena (w'.realm.arena.modify h (·.discard "message"))) :=
      .discard hget rfl rfl
    have hdone : ScriptM.Sound π
        (ScriptM.change (·.withArena (·.modify h (·.discard "message")))) w' :=
      change hdiscard rfl rfl
    have hrest := bind hs hdone fun _ w₂ hl _ => pure (hl.fits hs (fits_object.mpr hlasts))
    exact .done (hrest.attempt.safe.mono fun _ _ ⟨hb, hfits⟩ => ⟨hb.trans hboxes, hfits⟩)
  · exact bind hw (toText hw (fits_argument hargs 0)) fun _ _ hl _ => lift (.newError hl.sound _ _)

theorem textProperty [Printer] (hw : w.Sound π) {o : Handle} (ho : w.Lasts π o)
    (key whenUndefined : String) :
    (Builtin.textProperty o key whenUndefined : ScriptM σ String).Sound π w := by
  refine bind hw (getProperty hw o key (fits_object.mpr ho)) ?_
  intro v w' hl hv
  split
  · exact pure (.of_nil rfl)
  · exact toText hl.sound hv

theorem errorText [Printer] (hw : w.Sound π) {this : Value} (hthis : w.Fits π this) :
    (Builtin.errorText this : ScriptM σ Value).Sound π w := by
  unfold Builtin.errorText
  split
  · exact raise hw _
  · rename_i o ho
    have hlasts : w.Lasts π o := hthis o (by simp [handles, ho])
    refine bind hw (textProperty hw hlasts _ _) ?_
    intro _ w' hl _
    exact bind hl.sound (textProperty hl.sound (hl.moves.lasts hw o hlasts) _ _)
      fun _ _ _ _ => pure fits_ofText

/-! ## Numbers, booleans and strings -/

theorem fits_toValue (p : Boxed) : w.Fits π p.toValue := by
  cases p <;> exact fits_of_handle?_eq_none rfl

theorem boxIfConstructing (hw : w.Sound π) (p : Boxed) :
    (Builtin.boxIfConstructing p : ScriptM σ Value).Sound π w := by
  unfold Builtin.boxIfConstructing
  refine realm_bind ?_
  split
  · exact map hw (lift (.newWrapper hw p)) fun _ _ hh => fits_object.mpr (fits_handle.mp hh)
  · exact pure (fits_toValue p)

theorem makeNumber [Printer] (hw : w.Sound π) {args : List Value} (hargs : w.Fits π args) :
    (Builtin.makeNumber args : ScriptM σ Value).Sound π w := by
  unfold Builtin.makeNumber
  dsimp only
  split
  · exact bind hw (pure (.of_nil rfl)) fun (_ : Binary64) _ hl _ => boxIfConstructing hl.sound _
  · rename_i v hv
    exact bind hw (toNumber hw (fits_list.mp hargs v (List.mem_of_head? hv)))
      fun _ _ hl _ => boxIfConstructing hl.sound _

theorem makeString [Printer] (hw : w.Sound π) {args : List Value} (hargs : w.Fits π args) :
    (Builtin.makeString args : ScriptM σ Value).Sound π w := by
  unfold Builtin.makeString
  dsimp only
  split
  · exact bind hw (pure (.of_nil rfl)) fun (_ : Utf16) _ hl _ => boxIfConstructing hl.sound _
  · rename_i v hv
    have htext := toText hw (fits_list.mp hargs v (List.mem_of_head? hv))
    exact bind hw (map hw htext fun _ _ _ => .of_nil rfl)
      fun (_ : Utf16) _ hl _ => boxIfConstructing hl.sound _

theorem numberTest (test : Binary64 → Bool) (args : List Value) :
    (Builtin.numberTest test args : ScriptM σ Value).Sound π w := by
  unfold Builtin.numberTest
  split
  · exact pure fits_boolean
  · exact pure fits_boolean

theorem numberReceiver [Printer] (hw : w.Sound π) (this : Value) (method : String) :
    (Builtin.numberReceiver this method : ScriptM σ Binary64).Sound π w := by
  unfold Builtin.numberReceiver
  refine realm_bind ?_
  split
  · exact pure (.of_nil rfl)
  · exact raise hw _

theorem booleanReceiver [Printer] (hw : w.Sound π) (this : Value) (method : String) :
    (Builtin.booleanReceiver this method : ScriptM σ Bool).Sound π w := by
  unfold Builtin.booleanReceiver
  refine realm_bind ?_
  split
  · exact pure (.of_nil rfl)
  · exact raise hw _

theorem stringReceiver [Printer] (hw : w.Sound π) (this : Value) (method : String) :
    (Builtin.stringReceiver this method : ScriptM σ Value).Sound π w := by
  unfold Builtin.stringReceiver
  refine realm_bind ?_
  split
  · exact pure fits_string
  · exact raise hw _

theorem optionalInteger [Printer] (hw : w.Sound π) {v : Value} (hv : w.Fits π v) :
    (Builtin.optionalInteger v : ScriptM σ (Option Binary64)).Sound π w := by
  unfold Builtin.optionalInteger
  split
  · exact pure fits_none
  · exact map hw (toInteger hw hv) fun _ _ _ => fits_some.mpr (.of_nil rfl)

theorem rendered [Printer] (hw : w.Sound π) (r : Except DigitsOutOfRange String) :
    (Builtin.rendered r : ScriptM σ Value).Sound π w := by
  unfold Builtin.rendered
  split
  · exact pure fits_ofText
  · exact raise hw _

theorem numberInRadix [Printer] (hw : w.Sound π) (this : Value) {args : List Value}
    (hargs : w.Fits π args) : (Builtin.numberInRadix this args : ScriptM σ Value).Sound π w := by
  refine bind hw (numberReceiver hw this _) ?_
  intro x w₁ hl₁ _
  have hcount := fits_argument (hl₁.fits hw hargs) 0
  refine bind hl₁.sound (optionalInteger hl₁.sound hcount) ?_
  intro _ w₂ hl₂ _
  split
  · exact pure fits_ofText
  · exact raise hl₂.sound _

theorem numberFixed [Printer] (hw : w.Sound π) (this : Value) {args : List Value}
    (hargs : w.Fits π args) : (Builtin.numberFixed this args : ScriptM σ Value).Sound π w := by
  refine bind hw (numberReceiver hw this _) ?_
  intro x w₁ hl₁ _
  have hcount := fits_argument (hl₁.fits hw hargs) 0
  exact bind hl₁.sound (toInteger hl₁.sound hcount) fun _ _ hl₂ _ => rendered hl₂.sound _

/-- A rendering with a count that may be left out. -/
theorem numberCounted [Printer] (hw : w.Sound π) (this : Value) (method : String)
    {args : List Value} (hargs : w.Fits π args)
    (render : Binary64 → Option Binary64 → Except DigitsOutOfRange String) :
    (do
      let x ← Builtin.numberReceiver this method
      Builtin.rendered (render x (← Builtin.optionalInteger (argument args 0)))
      : ScriptM σ Value).Sound π w := by
  refine bind hw (numberReceiver hw this _) ?_
  intro x w₁ hl₁ _
  have hcount := fits_argument (hl₁.fits hw hargs) 0
  exact bind hl₁.sound (optionalInteger hl₁.sound hcount) fun _ _ hl₂ _ => rendered hl₂.sound _

/-! ## All together -/

theorem value [Printer] (hw : w.Sound π) (f : Builtin) {this : Value} {args : List Value}
    (hthis : w.Fits π this) (hargs : w.Fits π args) :
    (f.value this args : ScriptM σ Value).Sound π w := by
  cases f with
  | constructor family =>
    cases family with
    | object => exact makeObject hw hargs
    | error kind => exact makeError hw kind hargs
    | number => exact makeNumber hw hargs
    | boolean => exact boxIfConstructing hw _
    | string => exact makeString hw hargs
  | emptyFunction | functionCall => exact pure fits_undefined
  | objectToString => exact tagText hw hthis
  | objectValueOf => exact asObject hw hthis
  | hasOwnProperty | propertyIsEnumerable => exact ownPropertyTest hw this hargs _
  | isPrototypeOf => exact isPrototypeTest hw hthis
  | getPrototypeOf => exact prototypeOf hw hargs
  | setPrototypeOf => exact changePrototype hw hargs
  | preventExtensions => exact fixProperties hw hargs
  | isExtensible => exact extensibleTest
  | functionToString => exact functionText hw
  | errorToString => exact errorText hw hthis
  | numberIsNaN | numberIsFinite | numberIsInteger | numberIsSafeInteger => exact numberTest _ args
  | numberToString => exact numberInRadix hw this hargs
  | numberToLocaleString =>
    exact bind hw (numberReceiver hw this _) fun _ _ _ _ => pure fits_ofText
  | numberValueOf => exact bind hw (numberReceiver hw this _) fun _ _ _ _ => pure fits_number
  | numberToFixed => exact numberFixed hw this hargs
  | numberToExponential => exact numberCounted hw this _ hargs Binary64.toExponential
  | numberToPrecision => exact numberCounted hw this _ hargs Binary64.toPrecision
  | booleanToString => exact bind hw (booleanReceiver hw this _) fun _ _ _ _ => pure fits_ofText
  | booleanValueOf => exact bind hw (booleanReceiver hw this _) fun _ _ _ _ => pure fits_boolean
  | stringToString | stringValueOf => exact stringReceiver hw this _

end ScriptM.Sound

namespace RealmM.Sound

theorem callReceiver [Printer] (hw : w.Sound π) {this : Value} {args : List Value}
    (hargs : w.Fits π args) : (Builtin.callReceiver this args).Sound π w := by
  refine get_bind ?_
  split
  · refine call hw this (World.fits_argument hargs 0) (World.fits_list.mpr fun v hv => ?_)
    exact World.fits_list.mp hargs v (List.mem_of_mem_drop hv)
  · exact throwing hw _

/-- Every built-in function is sound. -/
theorem builtin [Printer] (hw : w.Sound π) (f : Builtin) {this : Value} {args : List Value}
    (hthis : w.Fits π this) (hargs : w.Fits π args) : (f.perform this args).Sound π w := by
  by_cases hcall : f = .functionCall
  · subst hcall
    exact callReceiver hw hargs
  · have hvalue : f.perform this args = (f.value this args : ScriptM σ Value).complete := by
      unfold Builtin.perform
      split
      · exact absurd rfl hcall
      · rfl
    rw [hvalue]
    exact map (ScriptM.Sound.value hw f hthis hargs).attempt fun _ _ => World.fits_ofResult

end RealmM.Sound

end ScriptRealm
