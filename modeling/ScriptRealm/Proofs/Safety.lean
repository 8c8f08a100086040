import ScriptRealm.Proofs.Calls
import ScriptRealm.Proofs.Move
import ScriptRealm.Realm.Names

/-!
# Safety — computations made of moves

`RealmM.Safe` reads a computation in a world: every write is a move that keeps
`new.target`, and the result satisfies a postcondition. A call is one step of
it (`Safe.call`): `new.target` is set to what the reason for the call asks for,
the function is entered with data that fits, and the former `new.target` is put
back. A function that is entered may do anything that leads to a later world
(`Later`); what it really does is accounted for where its own computation is
read (`Proofs.Course`).

`RealmM.Sound` is the judgement that all operations satisfy: safe, all boxes
given back, and the result fits. It composes (`Sound.bind`), so each
operation is settled once, from its parts. `ScriptM.Sound` is the same for
computations that may throw; what is thrown fits as well.
-/

namespace ScriptRealm

variable {σ α β : Type} {π : Policy σ} {w w' w'' : World σ}

/-- A world that moves lead to, with the same boxes and the same `new.target`. -/
structure Later (π : Policy σ) (w w' : World σ) : Prop where
  moves : Moves π w w'
  boxes : w'.boxes = w.boxes
  target : w'.realm.newTarget = w.realm.newTarget
  sound : w'.Sound π

namespace Later

theorem refl (hw : w.Sound π) : Later π w w := ⟨.refl, rfl, rfl, hw⟩

/-- Data that fits goes on fitting. -/
theorem fits (hw : w.Sound π) (h : Later π w w') [Carrier α] {a : α} (ha : w.Fits π a) :
    w'.Fits π a :=
  ha.mono (h.moves.lasts hw)

end Later

/-- The world with another `new.target`. -/
abbrev World.withTarget (w : World σ) (t : Option Value) : World σ :=
  { w with realm := { w.realm with newTarget := t } }

/-- A world that a function leaves, once the former `new.target` has been put
back, is later than the world before it was set. -/
theorem Later.putBack {t : Option Value} (hw : w.Sound π) (ht : w.Fits π t)
    (h : Later π (w.withTarget t) w') :
    Move π w' (w'.withTarget w.realm.newTarget)
      ∧ Later π w (w'.withTarget w.realm.newTarget) := by
  have hopen : Move π w (w.withTarget t) := .target ht
  have hsaved : w'.Fits π w.realm.newTarget :=
    (hw.newTarget.mono (hopen.lasts hw)).mono (h.moves.lasts (hopen.sound hw))
  have hclose : Move π w' (w'.withTarget w.realm.newTarget) := .target hsaved
  exact ⟨hclose, (h.moves.head hopen).tail hclose, h.boxes, rfl, hclose.sound h.sound⟩

namespace RealmM

/-- A call from a realm, with what is done after it: `new.target` is set, the
function is entered, and the former `new.target` is put back. -/
def calling (r : Realm σ) (why : Entry) (b : Behavior σ) (this : Value) (args : List Value)
    (next : Completion → RealmM σ α) : RealmM σ α :=
  write { r with newTarget := why.target } (enter why b this args fun c =>
    read fun r' => write { r' with newTarget := r.newTarget } (next c))

/-- Every write is a move that keeps `new.target`, every function is called with
data that fits, and the result satisfies the postcondition. -/
inductive Safe (π : Policy σ) (post : α → World σ → Prop) : RealmM σ α → World σ → Prop
  | done {a : α} {w : World σ} (result : post a w) : Safe π post (done a) w
  | read {next : Realm σ → RealmM σ α} {w : World σ} (rest : Safe π post (next w.realm) w) :
      Safe π post (read next) w
  | write {next : RealmM σ α} {w w' : World σ} (move : Move π w w')
      (target : w'.realm.newTarget = w.realm.newTarget) (rest : Safe π post next w') :
      Safe π post (write w'.realm next) w
  | call {why : Entry} {b : Behavior σ} {this : Value} {args : List Value}
      {next : Completion → RealmM σ α} {w : World σ} (target : w.Fits π why.target)
      (obeys : b.Obeys π w) (receiver : w.Fits π this) (arguments : w.Fits π args)
      (rest : ∀ c w', Later π w w' → w'.Fits π c → Safe π post (next c) w') :
      Safe π post (calling w.realm why b this args next) w

theorem Safe.mono {m : RealmM σ α} {post post' : α → World σ → Prop} (h : m.Safe π post w)
    (himp : ∀ a w', post a w' → post' a w') : m.Safe π post' w := by
  induction h with
  | done result => exact .done (himp _ _ result)
  | read _ ih => exact .read ih
  | write move target _ ih => exact .write move target ih
  | call target obeys receiver arguments _ ih => exact .call target obeys receiver arguments ih

theorem Safe.bind {m : RealmM σ α} {k : α → RealmM σ β} {post : β → World σ → Prop}
    (h : m.Safe π (fun a w' => (k a).Safe π post w') w) : (m >>= k).Safe π post w := by
  induction h with
  | done result => exact result
  | read _ ih => exact .read ih
  | write move target _ ih => exact .write move target ih
  | call target obeys receiver arguments _ ih => exact .call target obeys receiver arguments ih

/-- The world in which a result is had is a later one, but for the boxes. -/
theorem Safe.remember {m : RealmM σ α} {post : α → World σ → Prop} (hw : w.Sound π)
    (h : m.Safe π post w) :
    m.Safe π (fun a w' => post a w' ∧ Moves π w w' ∧ w'.Sound π
      ∧ w'.realm.newTarget = w.realm.newTarget) w := by
  induction h with
  | done result => exact .done ⟨result, .refl, hw, rfl⟩
  | read _ ih => exact .read (ih hw)
  | write move target _ ih =>
    refine .write move target ((ih (move.sound hw)).mono ?_)
    rintro a w'' ⟨hpost, hms, hs, ht⟩
    exact ⟨hpost, hms.head move, hs, ht.trans target⟩
  | call target obeys receiver arguments _ ih =>
    refine .call target obeys receiver arguments fun c w' hl hc => (ih c w' hl hc hl.sound).mono ?_
    rintro a w'' ⟨hpost, hms, hs, ht⟩
    exact ⟨hpost, hl.moves.trans hms, hs, ht.trans hl.target⟩

/-- Making an object gives a handle that lasts and stands for the object. -/
theorem Safe.allocate {o : Object (Behavior σ)} (hw : w.Sound π) (newborn : o.Newborn)
    (fits : o.Fits π w) :
    (allocate o).Safe π (fun h w' =>
      w'.boxes = w.boxes ∧ w'.Lasts π h ∧ w'.get? h = some { o with id := h.id }) w := by
  refine .read (.write (.create newborn fits) rfl (.done ?_))
  rw [Arena.allocate_fst]
  have hget : (w.withArena (w.realm.arena.allocate o).2).get? w.realm.arena.upcoming
      = some { o with id := w.realm.arena.upcoming.id } := by
    simp [World.get?, World.withArena, Arena.get?_allocate hw.arena]
  refine ⟨rfl, .inr ⟨by rw [hget]; rfl, ?_⟩, hget⟩
  intro hbox
  have hlive := hw.boxes_live _ hbox
  rw [World.get?, Arena.get?_upcoming hw.arena] at hlive
  cases hlive

/-- Safe, all boxes given back, and the result fits. -/
structure Sound (π : Policy σ) [Carrier α] (m : RealmM σ α) (w : World σ) : Prop where
  safe : m.Safe π (fun a w' => w'.boxes = w.boxes ∧ w'.Fits π a) w

namespace Sound

variable [Carrier α] [Carrier β]

theorem pure {a : α} (ha : w.Fits π a) : Sound π (Pure.pure a : RealmM σ α) w := ⟨.done ⟨rfl, ha⟩⟩

theorem bind {m : RealmM σ α} {k : α → RealmM σ β} (hw : w.Sound π) (hm : m.Sound π w)
    (hk : ∀ a w', Later π w w' → w'.Fits π a → (k a).Sound π w') : (m >>= k).Sound π w := by
  refine ⟨.bind ((Safe.remember hw hm.safe).mono ?_)⟩
  rintro a w' ⟨⟨hboxes, ha⟩, hms, hs, ht⟩
  have hlater : Later π w w' := ⟨hms, hboxes, ht, hs⟩
  refine (hk a w' hlater ha).safe.mono ?_
  rintro b w'' ⟨hb, hfits⟩
  exact ⟨hb.trans hboxes, hfits⟩

theorem map {m : RealmM σ α} {f : α → β} (hm : m.Sound π w)
    (hf : ∀ a (w' : World σ), w'.Fits π a → w'.Fits π (f a)) : (f <$> m).Sound π w :=
  ⟨.bind (hm.safe.mono fun a w' ⟨hboxes, ha⟩ => .done ⟨hboxes, hf a w' ha⟩)⟩

/-- Reading the realm first. -/
theorem get_bind {k : Realm σ → RealmM σ α} (h : (k w.realm).Sound π w) :
    Sound π (get >>= k) w := ⟨.read h.safe⟩

/-- Changing the realm by one move, with an answer. -/
theorem moveGet {f : Realm σ → α × Realm σ} (m : Move π w w')
    (hr : w'.realm = (f w.realm).2) (hboxes : w'.boxes = w.boxes)
    (ha : w'.Fits π (f w.realm).1)
    (htarget : w'.realm.newTarget = w.realm.newTarget := by rfl) :
    Sound π (modifyGet f : RealmM σ α) w := by
  refine ⟨.read ?_⟩
  rw [← hr]
  exact .write m htarget (.done ⟨hboxes, ha⟩)

/-- Changing the realm by one move. -/
theorem move {f : Realm σ → Realm σ} (m : Move π w w') (hr : w'.realm = f w.realm)
    (hboxes : w'.boxes = w.boxes)
    (htarget : w'.realm.newTarget = w.realm.newTarget := by rfl) :
    Sound π (modify f : RealmM σ Unit) w :=
  moveGet m hr hboxes (.of_nil rfl) htarget

theorem look {f : Realm σ → α} (ha : w.Fits π (f w.realm)) : (look f).Sound π w :=
  ⟨.read (.done ⟨rfl, ha⟩)⟩

/-- Making an object gives a handle that lasts. -/
theorem allocate {o : Object (Behavior σ)} (hw : w.Sound π) (newborn : o.Newborn)
    (fits : o.Fits π w) : (allocate o).Sound π w :=
  ⟨(Safe.allocate hw newborn fits).mono fun _ _ ⟨hboxes, hlasts, _⟩ =>
    ⟨hboxes, World.fits_handle.mpr hlasts⟩⟩

end Sound

end RealmM

/-- A computation that does not throw comes first. -/
theorem ScriptM.lift_bind {m : RealmM σ α} {k : α → ScriptM σ β}
    {post : Except Value β → World σ → Prop}
    (h : m.Safe π (fun a w' => (k a).attempt.Safe π post w') w) :
    (lift m >>= k).attempt.Safe π post w :=
  RealmM.Safe.bind (RealmM.Safe.bind (h.mono fun _ _ hk => .done hk))

/-- Safe, all boxes given back, and the result or what is thrown fits. -/
structure ScriptM.Sound (π : Policy σ) [Carrier α] (m : ScriptM σ α) (w : World σ) : Prop where
  attempt : m.attempt.Sound π w

namespace ScriptM.Sound

variable [Carrier α] [Carrier β]

theorem pure {a : α} (ha : w.Fits π a) : Sound π (Pure.pure a : ScriptM σ α) w :=
  ⟨.pure (World.fits_ok.mpr ha)⟩

theorem throwing {e : Value} (he : w.Fits π e) : Sound π (throw e : ScriptM σ α) w :=
  ⟨.pure (World.fits_error.mpr he)⟩

theorem lift {m : RealmM σ α} (hm : m.Sound π w) : (lift m).Sound π w :=
  ⟨.map hm fun _ _ => World.fits_ok.mpr⟩

theorem bind {m : ScriptM σ α} {k : α → ScriptM σ β} (hw : w.Sound π) (hm : m.Sound π w)
    (hk : ∀ a w', Later π w w' → w'.Fits π a → (k a).Sound π w') : (m >>= k).Sound π w := by
  refine ⟨.bind hw hm.attempt ?_⟩
  intro r w' hl hr
  cases r with
  | error e => exact .pure (World.fits_error.mpr (World.fits_error.mp hr))
  | ok a => exact (hk a w' hl (World.fits_ok.mp hr)).attempt

theorem map {m : ScriptM σ α} {f : α → β} (hw : w.Sound π) (hm : m.Sound π w)
    (hf : ∀ a (w' : World σ), w'.Fits π a → w'.Fits π (f a)) : (f <$> m).Sound π w := by
  refine ⟨.bind hw hm.attempt ?_⟩
  intro r w' _ hr
  cases r with
  | error e => exact .pure (World.fits_error.mpr (World.fits_error.mp hr))
  | ok a => exact .pure (World.fits_ok.mpr (hf a w' (World.fits_ok.mp hr)))

/-- Reading the realm first. -/
theorem realm_bind {k : Realm σ → ScriptM σ α} (h : (k w.realm).Sound π w) :
    Sound π (realm >>= k) w :=
  ⟨⟨.read h.attempt.safe⟩⟩

/-- Changing the realm by one move. -/
theorem change {f : Realm σ → Realm σ} (m : Move π w w') (hr : w'.realm = f w.realm)
    (hboxes : w'.boxes = w.boxes)
    (htarget : w'.realm.newTarget = w.realm.newTarget := by rfl) : (change f).Sound π w :=
  .lift (.move m hr hboxes htarget)

end ScriptM.Sound

end ScriptRealm
