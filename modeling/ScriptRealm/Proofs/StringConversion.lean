import ScriptRealm.Proofs.Boxing

/-!
# StringConversion — what `String` makes of a string

A string is converted to a string by way of text, and text has no half pairs. So the
`String` constructor keeps every unit of a string but those, called or used to
construct, and so it does when it is called with a wrapper. Boxing and the `valueOf` of
wrappers keep all units.

`Program.string_mended` says for every moment of every program at which the prototypes
of wrappers own their conversion methods what `String` makes of a string, and that it
is the string itself exactly when no unit of it is half a pair without its other half.
-/

namespace ScriptRealm

variable {σ : Type} {runner : Runner σ} {r r' : Realm σ} {s : Utf16} {w : Handle}

/-- The `String` constructor. -/
def Value.stringConstructor : Value := (Intrinsic.function (.constructor .string)).toValue

/-! ## Runs of the constructor -/

namespace Builtin

/-- An argument goes through text. -/
theorem run_makeString [Printer] {v : Value} {text : String}
    (htext : (ScriptM.toText v).attempt.run runner r = some (.ok text, r)) (others : List Value) :
    (makeString (v :: others)).attempt.run runner r
      = (boxIfConstructing (.string (Utf16.ofString text))).attempt.run runner r := by
  have hunits : (Utf16.ofString <$> ScriptM.toText v).attempt.run runner r
      = some (.ok (Utf16.ofString text), r) := by
    rw [ScriptM.run_map, htext]
    rfl
  exact ScriptM.run_bind_of_ok hunits _

/-- Called, the constructor answers the text as a string. -/
theorem run_string_called [Printer] {v : Value} {text : String} {n : Nat}
    (hnone : r.newTarget = none)
    (htext : (ScriptM.toText v).attempt.run (Behavior.run n) r = some (.ok text, r))
    (this : Value) (others : List Value) :
    Behavior.run (n + 1) (.builtin (.constructor .string)) this (v :: others) r
      = some (.normal (.string (Utf16.ofString text)), r) :=
  ScriptM.run_complete_iff.mpr
    ((run_makeString htext others).trans (run_boxIfConstructing_none hnone _))

/-- Used to construct, it answers a wrapper of the text. -/
theorem run_string_constructing [Printer] {v : Value} {text : String} {n : Nat} {f : Value}
    (hsome : r.newTarget = some f)
    (htext : (ScriptM.toText v).attempt.run (Behavior.run n) r = some (.ok text, r))
    (this : Value) (others : List Value) :
    Behavior.run (n + 1) (.builtin (.constructor .string)) this (v :: others) r
      = some (.normal (.object r.arena.upcoming), r.withBox (.string (Utf16.ofString text))) :=
  ScriptM.run_complete_iff.mpr
    ((run_makeString htext others).trans (run_boxIfConstructing_some hsome _))

end Builtin

/-! ## Wrappers of strings -/

/-- The object is new and wraps the string: its `valueOf` answers the string, and its own
properties are the length and the units of the string. -/
structure Realm.WrapsString [Printer] (r : Realm σ) (s : Utf16) (w : Handle) (r' : Realm σ) :
    Prop where
  gains : r.Gains (.wrapper (Intrinsic.prototype .string).handle (.string s)) w r'
  valueOf : r'.Answers (.callMethod (.object w) "valueOf" []) (.normal (.string s))
  own : ∀ key, r'.Answers (.getOwn w key) (Object.unitProperty? s key)

/-- A wrapper answers its primitive when its method `valueOf` is called. -/
theorem Realm.Converting.answers_valueOf [Printer] {p : Boxed} (h : r.Converting w p) :
    r.Answers (.callMethod (.object w) "valueOf" []) (.normal p.toValue) := by
  intro n
  have hname : p.valueOf.name = "valueOf" := by cases p <;> rfl
  obtain ⟨d, hfind, hdata, hvalue⟩ := h.found p.valueOf List.mem_cons_self
  rw [hname] at hfind
  have hcallable := h.callable p.valueOf List.mem_cons_self
  have hmethod : (ScriptM.getValue (r.propertyReference (.object w) "valueOf")).attempt.run
      (Behavior.run (n + 1)) r = some (.ok (Intrinsic.function p.valueOf).toValue, r) :=
    ScriptM.run_getProperty hfind hdata hvalue _
  have hcall : r.Answers (.call _ (.object w) []) _ :=
    Realm.answers_call hcallable fun n =>
      Builtin.run_valueOf (r := { r with newTarget := none }) h.boxed [] n
  show (RealmM.callMethod (.object w) "valueOf" []).run _ r = _
  rw [RealmM.callMethod, RealmM.run_get_bind, RealmM.run_bind, hmethod]
  show (if r.isCallable _ then _ else _ : RealmM σ Completion).run _ r = _
  rw [Realm.isCallable, hcallable]
  exact hcall n

/-- A new wrapper of a string wraps it, and its text is that of the string. -/
theorem Realm.Gains.wrapsString [Printer]
    (hgains : r.Gains (.wrapper (Intrinsic.prototype .string).handle (.string s)) w r')
    (hconverting : r'.Converting w (.string s)) : r.WrapsString s w r' where
  gains := hgains
  valueOf := hconverting.answers_valueOf
  own key n := by
    show some (r'.arena.getOwn w key, r') = _
    rw [Arena.getOwn_of_get? hgains.object, Object.getOwn_wrapper _ (.string s)]
    rfl

/-! ## In every run -/

/-- All that `String` and boxing make of a string. -/
structure Realm.StringConverted [Printer] (r : Realm σ) (s : Utf16) : Prop where
  /-- Called with the string, `String` answers it mended. -/
  called : ∀ this others,
    r.Answers (.call .stringConstructor this (.string s :: others)) (.normal (.string s.mended))
  /-- Used to construct, it wraps it mended. -/
  constructed : ∀ others, ∃ w r',
      (∀ n, (Request.construct .stringConstructor
          (.string s :: others)).perform.run (Behavior.run (n + 1)) r
        = some (.normal (.object w), r'))
      ∧ r.WrapsString s.mended w r'
  /-- Boxing wraps it as it is, and called with that wrapper `String` answers it mended. -/
  boxed : ∃ w r', (∀ runner : Runner σ,
        (Request.toObject (.string s)).perform.run runner r = some (.ok w, r'))
      ∧ r.WrapsString s w r'
      ∧ ∀ this others n, (Request.call .stringConstructor this
          (.object w :: others)).perform.run (Behavior.run (n + 2)) r'
        = some (.normal (.string s.mended), r')

/-- At every moment of a program at which the prototypes of wrappers own the conversion
methods that they began with, `String` makes of a string that string with U+FFFD in the
place of every half pair: as many units, each other one as it was, and so the string
itself exactly when it has no half pair. -/
theorem Program.string_mended [Printer] {strict : Bool} {host : σ} {p : Program σ} {allowance : Nat}
    {m : Moment σ} (hm : m ∈ p.history allowance (Realm.fresh strict host))
    (hinstalled : m.realm.Installed) (s : Utf16) :
    m.realm.StringConverted s ∧ s.mended.length = s.length
      ∧ (∀ place, s.mended.units[place]? = (s.units[place]?).map fun unit =>
          if Utf16.isLone (s.before? place) unit s.units[place + 1]? then 0xFFFD else unit)
      ∧ (s.mended = s ↔ ∀ place, ¬ s.Unpaired place) := by
  obtain ⟨world, hworld, hrealm⟩ :=
    Program.history_sound (p.obeys_free Handle.Intrinsic) (fun _ hh => hh.elim) hm
  have wf : m.realm.arena.WellFormed := hrealm ▸ hworld.arena
  have hcallable : m.realm.callable? .stringConstructor
      = some ⟨"String", 1, .builtin (.constructor .string), true⟩ :=
    Program.history_callable (Intrinsic.constructor_mem .string) rfl hm
  have hconverting : ∀ t : Utf16, (m.realm.withBox (.string t)).Converting
      m.realm.arena.upcoming (.string t) := fun t =>
    (Realm.gains_withBox wf (.string t)).converting hinstalled fun f hf =>
      Program.history_conversion hf hm
  have htext : ∀ (n : Nat) (r : Realm σ), (ScriptM.toText (.string s)).attempt.run
      (Behavior.run n) r = some (.ok s.toText, r) := fun _ _ => rfl
  refine ⟨⟨fun this others => ?_, fun others => ?_, ?_⟩, s.length_mended, s.getElem?_mended,
    Utf16.mended_eq_iff⟩
  · rw [← Utf16.ofString_toText]
    exact Realm.answers_call hcallable fun n =>
      Builtin.run_string_called rfl (htext n _) this others
  · rw [← Utf16.ofString_toText]
    refine ⟨_, m.realm.withBox (.string (.ofString s.toText)), fun n => ?_,
      (Realm.gains_withBox wf (.string _)).wrapsString (hconverting _)⟩
    refine (RealmM.run_construct hcallable rfl _).trans ?_
    rw [Builtin.run_string_constructing rfl (htext n _)]
    rfl
  · have hgains := Realm.gains_withBox wf (.string s)
    refine ⟨_, _, fun runner => ScriptM.run_toObject (.string s),
      hgains.wrapsString (hconverting s), fun this others n => ?_⟩
    have hwrapper : Realm.Converting { m.realm.withBox (.string s) with newTarget := none }
        m.realm.arena.upcoming (.string s) :=
      ⟨(hconverting s).boxed, (hconverting s).found, (hconverting s).callable⟩
    refine (RealmM.run_call (hgains.callable? hcallable) _ _).trans ?_
    rw [← Utf16.ofString_toText,
      Builtin.run_string_called rfl (hwrapper.transparent.toText n) this others]
    rfl

/-- Half a pair becomes U+FFFD. -/
theorem Program.string_mended_half :
    (Realm.fresh false ()).Installed
      ∧ (Realm.fresh false ()).Answers (.call .stringConstructor .undefined [.string ⟨[0xD800]⟩])
        (.normal (.string ⟨[0xFFFD]⟩))
      ∧ (⟨[0xD800]⟩ : Utf16).Unpaired 0 := by
  have hinstalled := Realm.installed_fresh false ()
  obtain ⟨hconverted, -, -, -⟩ := Program.string_mended
    ((Program.finish (.normal .undefined)).begun_mem_history 0 _) hinstalled ⟨[0xD800]⟩
  exact ⟨hinstalled, hconverted.called .undefined [], _, rfl, rfl⟩

end ScriptRealm
