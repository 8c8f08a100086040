import ScriptRealm.Proofs.Library

/-!
# Requests — every request is sound

A program that keeps to its policy asks only for what `Request.sound` covers:
the handles in the request last, and the policy permits it. The answer then
carries lasting handles only.
-/

namespace ScriptRealm

open World

variable {σ : Type} {π : Policy σ} {w : World σ}

/-- A name that is looked up leads to a frame or to nothing. -/
theorem fits_resolve (s : Scopes) (f : FrameId) (name : String) (strict : Bool) :
    w.Fits π (s.resolve f name strict) := by
  unfold Scopes.resolve
  split
  · exact .of_nil rfl
  · exact .of_nil rfl

namespace RealmM.Sound

/-! ## Objects -/

theorem inspect [Printer] (hw : w.Sound π) (o : Handle) :
    (Request.inspect o).perform.Sound π w := by
  refine look ?_
  unfold Realm.inspect
  cases ho : w.realm.arena.get? o with
  | none => exact fits_none
  | some object =>
    have hfits := hw.objects ho
    refine fits_some.mpr ?_
    intro h hh
    rcases List.mem_append.mp hh with hh | hh
    · rcases List.mem_append.mp hh with hh | hh
      · exact hfits.prototype h hh
      · refine fits_list.mpr (fun d hd => ?_) h hh
        obtain ⟨e, he, rfl⟩ := List.mem_map.mp hd
        exact hfits.properties e he
    · have hprimitive : w.Fits π (object.primitive.map Boxed.toValue) := fits_option fun v hv => by
        obtain ⟨p, -, rfl⟩ := Option.map_eq_some_iff.mp hv
        exact ScriptM.Sound.fits_toValue p
      exact hprimitive h hh

theorem storedValue [Printer] (hw : w.Sound π) (o : Handle) (key : String) :
    (Request.storedValue o key).perform.Sound π w := by
  refine look ?_
  cases ho : w.realm.arena.get? o with
  | none => exact fits_none
  | some object =>
    simp only [Option.bind_some]
    cases hd : object.properties.find? key with
    | none => exact fits_none
    | some d =>
      exact (fits_descriptor.mp ((hw.objects ho).properties _ (Table.mem_entries_of_find? hd))).1

/-! ## Frames -/

theorem newFrame [Printer] (hw : w.Sound π) (parent : Option FrameId) (strict : Bool) :
    (Request.newFrame parent strict).perform.Sound π w := by
  refine moveGet (.names (.add parent strict) fun {f frame} hf => ?_) rfl rfl (.of_nil rfl)
  rcases Scopes.get?_add hf with hempty | hold
  · intro e he
    rw [hempty] at he
    exact absurd he List.not_mem_nil
  · exact hw.frames hold

theorem initializeName [Printer] (hw : w.Sound π) (f : FrameId) (name : String) {v : Value}
    (hv : w.Fits π v) : (Request.initializeName f name v).perform.Sound π w := by
  cases hinit : (w.realm.scopes.get? f).bind (·.initialize? name v) with
  | none => exact moveGet .stay (by simp [hinit]) rfl (.of_nil rfl)
  | some frame =>
    obtain ⟨old, hold, hnew⟩ := Option.bind_eq_some_iff.mp hinit
    obtain ⟨b, hb, rfl⟩ := Option.map_eq_some_iff.mp hnew
    have hpresent : w.realm.scopes.binding? f name = some b :=
      Option.bind_eq_some_iff.mpr ⟨old, hold, hb⟩
    have hchange : w.realm.scopes.Change (w.realm.scopes.modify f fun _ =>
        old.bind name { b with value := v, initialized := true }) := by
      rw [Scopes.modify_const hold (·.bind name { b with value := v, initialized := true })]
      exact .initializeName v hpresent
    refine moveGet (.names hchange fun {g frame} hg => ?_) (by simp [hinit]; rfl) rfl (.of_nil rfl)
    rw [Scopes.get?_modify] at hg
    split at hg
    · obtain ⟨-, -, rfl⟩ := Option.map_eq_some_iff.mp hg
      exact (hw.frames hold).bind name (fits_binding.mpr hv)
    · exact hw.frames hg

end RealmM.Sound

/-! ## All together -/

theorem Request.sound [Printer] (hw : w.Sound π) {q : Request} (hpermit : π.Permits q)
    (hq : w.Fits π q) : (q.perform : RealmM σ q.Answer).Sound π w := by
  have hparts : ∀ h ∈ q.parts, w.Lasts π h := hq
  cases q with
  | typeOf | isCallable | isConstructor | format | has | isExtensible | liveObjects | isStrict
  | outermost => exact .look (.of_nil rfl)
  | ownKeys o => exact .look (fits_list.mpr fun _ _ => .of_nil rfl)
  | frameOf f name => exact .look (fits_option fun _ _ => .of_nil rfl)
  | newTarget => exact .look hw.newTarget
  | getOwn o key => exact .look (hw.getOwn o key)
  | prototypeOf o => exact .look (hw.prototype? o)
  | inspect o => exact .inspect hw o
  | storedValue o key => exact .storedValue hw o key
  | toObject v => exact (ScriptM.Sound.toObject hw hparts).attempt
  | toPrimitive v hint => exact (ScriptM.Sound.toPrimitive hw hparts hint).attempt
  | toNumber v => exact (ScriptM.Sound.toNumber hw hparts).attempt
  | toText v => exact (ScriptM.Sound.toText hw hparts).attempt
  | negate v => exact (ScriptM.Sound.negate hw hparts).attempt
  | uncaught v => exact .uncaught hw hparts
  | newObject => exact .newObject hw
  | createError kind message => exact .newError hw kind message
  | newFrame parent strict => exact .newFrame hw parent strict
  | preventExtensions o => exact .preventExtensions o
  | delete o key strict => exact (ScriptM.Sound.deleteProperty hw o key strict).attempt
  | deleteReference r => exact (ScriptM.Sound.deleteReference hw r).attempt
  | getValue r => exact (ScriptM.Sound.getValue hw hparts).attempt
  | initializeName f name v => exact .initializeName hw f name hparts
  | setStrict f strict =>
    exact .modifyFrame hw (.setStrict f strict) fun _ hf e he => hw.frames hf e he
  | declareName f name kind =>
    exact .modifyFrame hw (.declare f name kind) fun frame hf =>
      (hw.frames hf).bind name (fits_binding.mpr fits_undefined)
  | defineName f name kind v =>
    exact .modifyFrame hw (.define f name kind v) fun frame hf =>
      (hw.frames hf).bind name (fits_binding.mpr hparts)
  | binding f name => exact .look (fits_option fun _ hb => hw.binding? hb)
  | resolve f name strict => exact .look (fits_resolve _ f name strict)
  | resolveGlobal name => exact .look (fits_resolve _ _ name _)
  | propertyReference base name => exact .look fun h hh => hparts h hh
  | looselyEquals a b =>
    obtain ⟨ha, hb⟩ := fits_append.mp hparts
    exact (ScriptM.Sound.looselyEquals hw ha hb).attempt
  | call f this args =>
    have hargs : w.Fits π args := fun h hh => hparts h (List.mem_append_right _ hh)
    have hthis : w.Fits π this := fun h hh =>
      hparts h (List.mem_append_left _ (List.mem_append_right _ hh))
    exact .call hw f hthis hargs
  | construct f args =>
    obtain ⟨hf, hargs⟩ := fits_append.mp hparts
    exact .construct hw hf hargs
  | callMethod base name args =>
    obtain ⟨hbase, hargs⟩ := fits_append.mp hparts
    exact .callMethod hw name hbase hargs
  | getProperty o key receiver =>
    exact (ScriptM.Sound.getProperty hw o key (fits_append.mp hparts).2).attempt
  | setProperty o key v receiver strict =>
    have hreceiver : w.Fits π receiver := fun h hh => hparts h (List.mem_append_right _ hh)
    have hv : w.Fits π v := fun h hh =>
      hparts h (List.mem_append_left _ (List.mem_append_right _ hh))
    exact (ScriptM.Sound.setProperty hw o key strict hv hreceiver).attempt
  | define o key d => exact .define o key (fits_append.mp hparts).2 hpermit
  | setPrototype o prototype => exact .setPrototype o (fits_append.mp hparts).2
  | putValue r v =>
    obtain ⟨hr, hv⟩ := fits_append.mp hparts
    exact (ScriptM.Sound.putValue hw hr hv).attempt
  | edit o e => exact .moveGet (.edit hpermit (fits_append.mp hparts).2) rfl rfl (.of_nil rfl)

end ScriptRealm
