import Mathlib.Data.List.Induction
import ScriptRealm.Proofs.OwnProperties

/-!
# PropertyOrder — keys in the order of their latest arrival

An object is specified with its properties in two parts that are changed one after the
other: what is stored under each key, and the keys in a list (`Listing`). Nothing but the
operations keeps the parts together. The realm's objects keep one table instead, and
every edit does to the table what it does to the two parts (`PropertyEdit.onLedger_of`),
with the same answer.

`Listing.Exact` says that the list has every stored key once and no other key, and
`Listing.Follows` what one edit can do to it: the keys that are still stored keep their
order, and a key that has come is last. Every edit leads from an exact listing to one
that follows it (`PropertyEdit.follows`), and that is exact again (`Listing.Follows.exact`).
So after any edits the keys are listed in the order in which they were last added under a
key that had nothing (`Object.propertyOrder_exact`).
-/

namespace ScriptRealm

/-- Entries in two parts: what is stored under each key, and the list of the keys. -/
structure Listing (α : Type) where
  stored : String → Option α
  order : List String

namespace Listing

variable {α : Type} {l l' : Listing α} {arrived : Option String}

/-- Something is stored under the key. -/
def holds (l : Listing α) (key : String) : Bool := (l.stored key).isSome

/-- Stores an entry; the key of a new one is added to the list. -/
def insert (l : Listing α) (key : String) (entry : α) : Listing α :=
  { stored := fun other => if other = key then some entry else l.stored other
    order := if l.holds key then l.order else l.order ++ [key] }

/-- The entry and the key taken out. -/
def without (l : Listing α) (key : String) : Listing α :=
  { stored := fun other => if other = key then none else l.stored other
    order := l.order.filter (· != key) }

/-- Removes an entry and its key, and answers whether there was one. -/
def remove (l : Listing α) (key : String) : Bool × Listing α :=
  if l.holds key then (true, l.without key) else (false, l)

/-- A table in two parts. -/
def ofTable (t : Table α) : Listing α := ⟨t.find?, t.names⟩

theorem ofTable_insert (t : Table α) (key : String) (entry : α) :
    ofTable (t.insert key entry) = (ofTable t).insert key entry := by
  have hstored : (t.insert key entry).find?
      = fun other => if other = key then some entry else t.find? other :=
    funext fun other => t.find?_insert key other entry
  have horder : (t.insert key entry).names
      = if t.contains key then t.names else t.names ++ [key] := by
    split
    · next hcontains => exact Table.names_insert_of_contains entry hcontains
    · next hnew => exact Table.names_insert_of_not_contains entry (Bool.eq_false_iff.mpr hnew)
  rw [ofTable, hstored, horder]
  rfl

theorem ofTable_erase (t : Table α) (key : String) :
    (ofTable t).remove key = (t.contains key, ofTable (t.erase key)) := by
  have hstored : (t.erase key).find? = fun other => if other = key then none else t.find? other :=
    funext fun other => t.find?_erase key other
  unfold remove
  split
  · next hholds =>
    have hcontains : t.contains key = true := hholds
    rw [hcontains, without, ofTable, ofTable, hstored, t.names_erase]
  · next hmissing =>
    have hcontains : t.contains key = false := Bool.eq_false_iff.mpr hmissing
    have hkept : (fun other => if other = key then none else t.find? other) = t.find? := by
      funext other
      split
      · next heq =>
        rw [heq]
        exact (Option.isNone_iff_eq_none.mp (by simpa [Table.contains] using hcontains)).symm
      · rfl
    have hnames : t.names.filter (· != key) = t.names := by
      refine List.filter_eq_self.mpr fun other hother => bne_iff_ne.mpr ?_
      rintro rfl
      exact hmissing ((t.mem_names_iff other).mp hother)
    rw [hcontains, ofTable, ofTable, hstored, t.names_erase, hkept, hnames]

/-! ## Listings that follow one another -/

/-- The list has every stored key, once, and no other. -/
structure Exact (l : Listing α) : Prop where
  nodup : l.order.Nodup
  mem_order : ∀ key, key ∈ l.order ↔ l.holds key = true

/-- The keys that are still stored keep their order, and after them comes the one that has
arrived. -/
structure Follows (l l' : Listing α) (arrived : Option String) : Prop where
  order : l'.order = l.order.filter l'.holds ++ arrived.toList
  arrived_eq_some : ∀ key, arrived = some key ↔ l.holds key = false ∧ l'.holds key = true

theorem exact_empty : (ofTable (Table.empty : Table α)).Exact :=
  ⟨List.nodup_nil, fun _ => by simp [ofTable, Table.empty, Table.names, holds, Table.find?]⟩

theorem Follows.exact (h : l.Exact) (hfollows : l.Follows l' arrived) : l'.Exact := by
  have hnew : ∀ key ∈ arrived.toList, l.holds key = false ∧ l'.holds key = true := fun key hkey =>
    (hfollows.arrived_eq_some key).mp (Option.mem_toList.mp hkey)
  refine ⟨?_, fun key => ?_⟩
  · rw [hfollows.order]
    refine List.nodup_append.mpr ⟨h.nodup.filter _, ?_, ?_⟩
    · cases arrived <;> simp
    · rintro key hold other hother rfl
      have hholds := (h.mem_order key).mp (List.mem_filter.mp hold).1
      rw [(hnew key hother).1] at hholds
      cases hholds
  · rw [hfollows.order, List.mem_append, List.mem_filter, h.mem_order]
    constructor
    · rintro (⟨-, hholds⟩ | hkey)
      · exact hholds
      · exact (hnew key hkey).2
    · intro hholds
      cases hbefore : l.holds key with
      | true => exact .inl ⟨rfl, hholds⟩
      | false =>
        exact .inr (Option.mem_toList.mpr ((hfollows.arrived_eq_some key).mpr ⟨hbefore, hholds⟩))

/-- Nothing has arrived when every stored key was stored before. -/
theorem follows_none (hold : ∀ key, l'.holds key = true → l.holds key = true)
    (horder : l'.order = l.order.filter l'.holds) : l.Follows l' none where
  order := horder.trans (List.append_nil _).symm
  arrived_eq_some key := iff_of_false nofun fun ⟨hbefore, hholds⟩ => by
    rw [hold key hholds] at hbefore
    cases hbefore

/-- The list is as it was when every key in it is still stored. -/
theorem Exact.filter_eq (h : l.Exact) (hkept : ∀ key, l.holds key = true → l'.holds key = true) :
    l.order.filter l'.holds = l.order :=
  List.filter_eq_self.mpr fun key hkey => hkept key ((h.mem_order key).mp hkey)

theorem Exact.follows_self (h : l.Exact) : l.Follows l none :=
  follows_none (fun _ => id) (h.filter_eq fun _ => id).symm

theorem holds_insert (l : Listing α) (key other : String) (entry : α) :
    (l.insert key entry).holds other = (decide (other = key) || l.holds other) := by
  unfold holds insert
  by_cases heq : other = key <;> simp [heq]

theorem Exact.follows_insert (h : l.Exact) (key : String) (entry : α) :
    ∃ arrived, l.Follows (l.insert key entry) arrived := by
  have hkept : ∀ other, l.holds other = true → (l.insert key entry).holds other = true := by
    intro other hother
    rw [holds_insert, hother, Bool.or_true]
  cases hholds : l.holds key with
  | true =>
    refine ⟨none, follows_none (fun other hother => ?_) ?_⟩
    · rw [holds_insert, Bool.or_eq_true, decide_eq_true_eq] at hother
      exact hother.elim (fun heq => heq ▸ hholds) id
    · rw [h.filter_eq hkept]
      exact if_pos hholds
  | false =>
    refine ⟨some key, ?_, fun other => ?_⟩
    · rw [h.filter_eq hkept]
      exact if_neg (by rw [hholds]; exact Bool.false_ne_true)
    · rw [holds_insert, Bool.or_eq_true, decide_eq_true_eq, Option.some.injEq]
      constructor
      · rintro rfl
        exact ⟨hholds, .inl rfl⟩
      · rintro ⟨hmissing, heq | hother⟩
        · exact heq.symm
        · rw [hmissing] at hother
          cases hother

theorem holds_without (l : Listing α) (key other : String) :
    (l.without key).holds other = (l.holds other && other != key) := by
  unfold holds without
  by_cases heq : other = key <;> simp [heq]

theorem Exact.follows_remove (h : l.Exact) (key : String) : l.Follows (l.remove key).2 none := by
  unfold remove
  split
  · refine follows_none (fun other hother => ?_) (List.filter_congr fun other hother => ?_)
    · rw [holds_without, Bool.and_eq_true] at hother
      exact hother.1
    · rw [holds_without, (h.mem_order other).mp hother, Bool.true_and]
  · exact h.follows_self

end Listing

/-! ## Edits -/

/-- The parts of an object that the operations on properties look at, the properties
themselves in two parts. -/
structure Ledger where
  properties : Listing Descriptor
  tag : ObjectClass
  primitive : Option Boxed
  extensible : Bool

namespace Ledger

/-- The string whose code units are own properties. -/
def stringData? (l : Ledger) : Option Utf16 :=
  match l.tag, l.primitive with
  | .string, some (.string s) => some s
  | _, _ => none

/-- The own property under a key. -/
def getOwn (l : Ledger) (key : String) : Option Descriptor :=
  (l.properties.stored key).orElse fun _ => l.stringData?.bind (Object.unitProperty? · key)

/-- Stores a property as it is. -/
def insert (l : Ledger) (key : String) (d : Descriptor) : Ledger :=
  { l with properties := l.properties.insert key d }

/-- A requested change to one property, and whether it is accepted. -/
def define (l : Ledger) (key : String) (d : Descriptor) : Bool × Ledger :=
  match l.getOwn key with
  | none => if l.extensible then (true, l.insert key d.complete) else (false, l)
  | some current =>
    if current.allows d then (true, l.insert key (current.merge d)) else (false, l)

/-- What the ledger of an object says. -/
def of {β : Type} (o : Object β) : Ledger :=
  ⟨.ofTable o.properties, o.tag, o.primitive, o.extensible⟩

end Ledger

/-- An operation on one object that its properties may depend on. -/
inductive PropertyEdit where
  | insert (key : String) (d : Descriptor)
  | insertValue (key : String) (v : Value)
  | insertBuiltin (key : String) (v : Value)
  | remove (key : String)
  | define (key : String) (d : Descriptor)
  | retag (tag : ObjectClass)
  | close

namespace PropertyEdit

variable {β : Type}

/-- What an edit answers and leaves, with the properties in two parts. -/
def onLedger (e : PropertyEdit) (l : Ledger) : Bool × Ledger :=
  match e with
  | insert key d => (true, l.insert key d)
  | insertValue key v => (true, l.insert key (.plain v))
  | insertBuiltin key v => (true, l.insert key (.hidden v))
  | remove key =>
    let (removed, properties) := l.properties.remove key
    (removed, { l with properties })
  | define key d => l.define key d
  | retag tag => (true, { l with tag })
  | close => (true, { l with extensible := false })

/-- What an edit answers and leaves of an object of the realm. -/
def onObject (e : PropertyEdit) (o : Object β) : Bool × Object β :=
  match e with
  | insert key d => (true, o.store key d)
  | insertValue key v => (true, o.store key (.plain v))
  | insertBuiltin key v => (true, o.store key (.hidden v))
  | remove key => (o.properties.contains key, o.discard key)
  | define key d => ((o.define? key d).isSome, (o.define? key d).getD o)
  | retag tag => (true, { o with tag })
  | close => (true, { o with extensible := false })

theorem ledger_store (o : Object β) (key : String) (d : Descriptor) :
    Ledger.of (o.store key d) = (Ledger.of o).insert key d :=
  congrArg (Ledger.mk · o.tag o.primitive o.extensible)
    (Listing.ofTable_insert o.properties key d)

theorem define_of (o : Object β) (key : String) (d : Descriptor) :
    (Ledger.of o).define key d
      = ((o.define? key d).isSome, Ledger.of ((o.define? key d).getD o)) := by
  have hown : (Ledger.of o).getOwn key = o.getOwn key := rfl
  have hextensible : (Ledger.of o).extensible = o.extensible := rfl
  unfold Ledger.define Object.define?
  rw [hown, hextensible]
  cases o.getOwn key with
  | none => cases o.extensible <;> simp [ledger_store]
  | some current => cases hallows : current.allows d <;> simp [hallows, ledger_store]

/-- The realm's objects and the ledgers answer alike and stay together. -/
theorem onLedger_of (e : PropertyEdit) (o : Object β) :
    e.onLedger (Ledger.of o) = ((e.onObject o).1, Ledger.of (e.onObject o).2) := by
  cases e with
  | insert key d => exact congrArg (true, ·) (ledger_store o key d).symm
  | insertValue key v => exact congrArg (true, ·) (ledger_store o key (.plain v)).symm
  | insertBuiltin key v => exact congrArg (true, ·) (ledger_store o key (.hidden v)).symm
  | remove key =>
    simp only [onLedger, onObject, Ledger.of, Listing.ofTable_erase]
    rfl
  | define key d => exact define_of o key d
  | retag | close => rfl

/-- An edit leads from an exact listing to one that follows it. -/
theorem follows (e : PropertyEdit) {l : Ledger} (h : l.properties.Exact) :
    ∃ arrived, l.properties.Follows (e.onLedger l).2.properties arrived := by
  cases e with
  | insert key d | insertValue key v | insertBuiltin key v => exact h.follows_insert key _
  | remove key => exact ⟨none, h.follows_remove key⟩
  | define key d =>
    show ∃ arrived, l.properties.Follows (l.define key d).2.properties arrived
    unfold Ledger.define
    split <;> split <;> first | exact h.follows_insert key _ | exact ⟨none, h.follows_self⟩
  | retag | close => exact ⟨none, h.follows_self⟩

end PropertyEdit

/-! ## Runs of edits -/

namespace Ledger

variable {l : Ledger} {es : List PropertyEdit} {key : String} {m n : Nat}

/-- The ledger after edits. -/
def after (l : Ledger) (es : List PropertyEdit) : Ledger :=
  es.foldl (fun l e => (e.onLedger l).2) l

theorem after_concat (l : Ledger) (es : List PropertyEdit) (e : PropertyEdit) :
    l.after (es ++ [e]) = (e.onLedger (l.after es)).2 :=
  List.foldl_concat ..

/-- The key was added by the edit of this number, and has been stored ever since. -/
structure Arrives (l : Ledger) (es : List PropertyEdit) (key : String) (n : Nat) : Prop where
  lt : n < es.length
  absent : (l.after (es.take n)).properties.holds key = false
  since : ∀ m, n < m → m ≤ es.length → (l.after (es.take m)).properties.holds key = true

/-- A key has one latest arrival at most. -/
theorem Arrives.unique (hm : l.Arrives es key m) (hn : l.Arrives es key n) : m = n := by
  rcases Nat.lt_trichotomy m n with hlt | heq | hgt
  · exact absurd (hm.since n hlt (Nat.le_of_lt hn.lt)) (by rw [hn.absent]; exact Bool.false_ne_true)
  · exact heq
  · exact absurd (hn.since m hgt (Nat.le_of_lt hm.lt)) (by rw [hm.absent]; exact Bool.false_ne_true)

/-- An arrival stays the latest one as long as the key is stored. -/
theorem Arrives.concat (h : l.Arrives es key n) {e : PropertyEdit}
    (hholds : (l.after (es ++ [e])).properties.holds key = true) :
    l.Arrives (es ++ [e]) key n := by
  have hlength : (es ++ [e]).length = es.length + 1 := List.length_append
  have htake : ∀ m, m ≤ es.length → (es ++ [e]).take m = es.take m := fun m hm =>
    List.take_append_of_le_length hm
  refine ⟨hlength ▸ Nat.lt_succ_of_lt h.lt, ?_, fun m hnm hm => ?_⟩
  · rw [htake n (Nat.le_of_lt h.lt)]
    exact h.absent
  · rcases Nat.eq_or_lt_of_le (hlength ▸ hm) with rfl | hlt
    · rwa [← hlength, List.take_length]
    · rw [htake m (Nat.le_of_lt_succ hlt)]
      exact h.since m hnm (Nat.le_of_lt_succ hlt)

theorem arrives_last {e : PropertyEdit} (hbefore : (l.after es).properties.holds key = false)
    (hholds : (l.after (es ++ [e])).properties.holds key = true) :
    l.Arrives (es ++ [e]) key es.length := by
  have hlength : (es ++ [e]).length = es.length + 1 := List.length_append
  refine ⟨hlength ▸ Nat.lt_succ_self _, ?_, fun m hm hle => ?_⟩
  · rwa [List.take_left]
  · have hall : m = (es ++ [e]).length := by omega
    rwa [hall, List.take_length]

/-- Any edits lead from an exact listing to an exact one. -/
theorem exact_after (h : l.properties.Exact) (es : List PropertyEdit) :
    (l.after es).properties.Exact := by
  induction es using List.reverseRecOn with
  | nil => exact h
  | append_singleton es e ih =>
    obtain ⟨arrived, hfollows⟩ := e.follows ih
    rw [after_concat]
    exact hfollows.exact ih

/-- From no keys on, the keys are listed by the numbers of the edits that they came with. -/
theorem exists_arrivals (h : l.properties.Exact) (hnone : l.properties.order = [])
    (es : List PropertyEdit) :
    ∃ time : String → Nat,
      (∀ key ∈ (l.after es).properties.order, l.Arrives es key (time key))
        ∧ (l.after es).properties.order.Pairwise fun a b => time a < time b := by
  induction es using List.reverseRecOn with
  | nil =>
    have horder : (l.after []).properties.order = [] := hnone
    rw [horder]
    exact ⟨fun _ => 0, fun _ => nofun, .nil⟩
  | append_singleton es e ih =>
    obtain ⟨time, harrives, hsorted⟩ := ih
    have hexact := exact_after h es
    obtain ⟨arrived, hfollows⟩ := e.follows hexact
    rw [← after_concat] at hfollows
    have hnow := hfollows.exact hexact
    have hold : ∀ key ∈ (l.after es).properties.order, arrived ≠ some key := by
      intro key hkey heq
      have hholds := (hexact.mem_order key).mp hkey
      rw [((hfollows.arrived_eq_some key).mp heq).1] at hholds
      cases hholds
    -- The key that has come gets the number of this edit, and all others keep theirs.
    obtain ⟨time', hcame, hkept⟩ : ∃ time' : String → Nat,
        (∀ key, arrived = some key → time' key = es.length)
          ∧ ∀ key, arrived ≠ some key → time' key = time key :=
      ⟨fun key => if arrived = some key then es.length else time key, fun _ heq => if_pos heq,
        fun _ hne => if_neg hne⟩
    refine ⟨time', fun key hkey => ?_, ?_⟩
    · have hholds := (hnow.mem_order key).mp hkey
      by_cases heq : arrived = some key
      · rw [hcame key heq]
        exact arrives_last ((hfollows.arrived_eq_some key).mp heq).1 hholds
      · rw [hkept key heq]
        rw [hfollows.order, List.mem_append, List.mem_filter, Option.mem_toList] at hkey
        exact (harrives key (hkey.resolve_right heq).1).concat hholds
    · rw [hfollows.order]
      refine List.pairwise_append.mpr ⟨?_, ?_, fun a ha b hb => ?_⟩
      · refine (hsorted.filter _).imp_of_mem fun {a b} ha hb hlt => ?_
        rwa [hkept a (hold a (List.mem_filter.mp ha).1), hkept b (hold b (List.mem_filter.mp hb).1)]
      · cases arrived with
        | none => exact .nil
        | some key => exact List.pairwise_singleton _ _
      · have ha := (List.mem_filter.mp ha).1
        rw [hkept a (hold a ha), hcame b (Option.mem_toList.mp hb)]
        exact (harrives a ha).lt

end Ledger

namespace Object

variable {β : Type}

/-- The object after edits. -/
def edited (o : Object β) (es : List PropertyEdit) : Object β :=
  es.foldl (fun o e => (e.onObject o).2) o

theorem ledger_edited (o : Object β) (es : List PropertyEdit) :
    Ledger.of (o.edited es) = (Ledger.of o).after es := by
  induction es using List.reverseRecOn with
  | nil => rfl
  | append_singleton es e ih =>
    rw [Ledger.after_concat, ← ih, e.onLedger_of]
    exact congrArg Ledger.of (List.foldl_concat ..)

/-- The list of keys is exact after any edits of an object that had no properties, with the
properties in two parts as in the one table of the realm's objects. Each edit answers the
same and does the same to both. The list has every stored key once and no other; one more
edit leaves the keys that are still stored in order and puts one that has come last; and the
keys are listed by the time of their latest arrival. -/
theorem propertyOrder_exact {o : Object β} (hnew : o.properties = .empty)
    (es : List PropertyEdit) :
    let start := Ledger.of o
    let now := start.after es
    Ledger.of (o.edited es) = now
      ∧ (∀ e : PropertyEdit, (e.onObject (o.edited es)).1 = (e.onLedger now).1)
      ∧ now.properties.Exact
      ∧ (∀ e : PropertyEdit, ∃ arrived,
          now.properties.Follows (e.onLedger now).2.properties arrived)
      ∧ ∃ time : String → Nat,
          (∀ key ∈ now.properties.order, ∀ n, start.Arrives es key n ↔ n = time key)
            ∧ now.properties.order.Pairwise fun a b => time a < time b := by
  have hexact : (Ledger.of o).properties.Exact := by
    rw [Ledger.of, hnew]
    exact Listing.exact_empty
  have hnone : (Ledger.of o).properties.order = [] := by
    rw [Ledger.of, hnew]
    rfl
  have hnow := Ledger.exact_after hexact es
  obtain ⟨time, harrives, hsorted⟩ := Ledger.exists_arrivals hexact hnone es
  refine ⟨o.ledger_edited es, fun e => ?_, hnow, fun e => e.follows hnow, time, ?_, hsorted⟩
  · rw [← ledger_edited, e.onLedger_of]
  · intro key hkey n
    constructor
    · exact fun hn => hn.unique (harrives key hkey)
    · rintro rfl
      exact harrives key hkey

/-- A key that is removed and defined again is last. -/
theorem propertyOrder_exact_again :
    let o : Object Unit := {}
    let es : List PropertyEdit :=
      [.insertValue "a" .null, .insert "b" .empty, .remove "a", .define "a" .empty]
    ((Ledger.of o).after es).properties.order = ["b", "a"]
      ∧ ((Ledger.of o).after es).properties.Exact :=
  ⟨by decide, (propertyOrder_exact rfl _).2.2.1⟩

end Object

end ScriptRealm
