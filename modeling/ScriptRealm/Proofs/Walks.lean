import Mathlib.Data.List.Nodup
import Mathlib.Data.List.Perm.Subperm
import Mathlib.Logic.Relation

/-!
# Walks — following links

Objects have a prototype and frames a frame around them: from each node at
most one link leads up.

A `Way` lists what one passes from a node to one where it may end. Whatever links
lead to can be come to without passing a node twice (`Way.exists_nodup`).

A `Walk` goes on until there is no further link. There is one from a node at most
(`Walk.unique`), no node is met twice on it (`Walk.nodup`), and where every
link leads down in some numbering there is one from every node
(`Walk.exists_of_descending`).

`climb` follows so many links at most. Nodes that are not passed twice are no more
than there are (`Numbered.length_le`), so when it may take as many steps as there are
nodes it is the whole walk (`Walk.climb_eq`) and misses nothing, even where links lead
round in a circle (`mem_climb_iff`).
-/

namespace ScriptRealm

variable {α : Type} {up down : α → Option (Option α)} {a b c : α} {l l' : List α}

/-- A link leads from the one node to the other. What is not there has nothing for its
link, and what has no further link has `none`. -/
def Links (up : α → Option (Option α)) (a b : α) : Prop := up a = some (some b)

/-! ## From one node to another -/

/-- The links from a node lead past the listed nodes, itself first, to the last of them,
where the way may end. -/
inductive Way (up : α → Option (Option α)) (ends : α → Prop) : α → List α → Prop
  | last {a : α} (here : ends a) : Way up ends a [a]
  | step {a b : α} {l : List α} (link : Links up a b) (rest : Way up ends b l) :
      Way up ends a (a :: l)

/-- The one node, which is there. -/
def Reaches (up : α → Option (Option α)) (c a : α) : Prop := a = c ∧ (up a).isSome = true

namespace Way

variable {ends : α → Prop}

theorem head_mem (hl : Way up ends a l) : a ∈ l := by
  cases hl <;> exact List.mem_cons_self

/-- All nodes on a way are there if its last is. -/
theorem present (hl : Way up ends a l) (hends : ∀ c, ends c → (up c).isSome = true) :
    ∀ b ∈ l, (up b).isSome = true := by
  induction hl with
  | last here => exact fun b hb => List.mem_singleton.mp hb ▸ hends _ here
  | step link rest ih =>
    intro b hb
    rcases List.mem_cons.mp hb with rfl | hb
    · exact Option.isSome_of_eq_some link
    · exact ih b hb

/-- What lies on the way has the rest of the way before it. -/
theorem of_mem (hl : Way up ends a l) (hb : b ∈ l) : ∃ l', Way up ends b l' ∧ l' <:+ l := by
  induction hl with
  | last here =>
    rw [List.mem_singleton.mp hb]
    exact ⟨_, .last here, List.suffix_rfl⟩
  | @step a d l link rest ih =>
    rcases List.mem_cons.mp hb with rfl | hb
    · exact ⟨_, .step link rest, List.suffix_rfl⟩
    · obtain ⟨l', hl', hsuffix⟩ := ih hb
      exact ⟨l', hl', hsuffix.trans (List.suffix_cons a l)⟩

/-- What links lead to can be come to without passing a node twice: a node that would be
passed again is gone on from at once. -/
theorem exists_nodup (hlinks : Relation.ReflTransGen (Links up) a c)
    (hc : (up c).isSome = true) : ∃ l, Way up (Reaches up c) a l ∧ l.Nodup := by
  induction hlinks using Relation.ReflTransGen.head_induction_on with
  | refl => exact ⟨_, .last ⟨rfl, hc⟩, List.nodup_singleton _⟩
  | @head a b link _ ih =>
    obtain ⟨l, hl, hnodup⟩ := ih
    by_cases ha : a ∈ l
    · obtain ⟨l', hl', hsuffix⟩ := hl.of_mem ha
      exact ⟨l', hl', hsuffix.sublist.nodup hnodup⟩
    · exact ⟨a :: l, .step link hl, List.nodup_cons.mpr ⟨ha, hnodup⟩⟩

end Way

/-! ## As far as links lead -/

/-- The node is there and has no further link. -/
def Top (up : α → Option (Option α)) (a : α) : Prop := up a = some none

/-- The links from a node lead past the listed nodes, itself first, the last of which has
no further link. -/
def Walk (up : α → Option (Option α)) (a : α) (l : List α) : Prop := Way up (Top up) a l

namespace Walk

theorem present (hl : Walk up a l) : ∀ b ∈ l, (up b).isSome = true :=
  Way.present hl fun _ hc => Option.isSome_of_eq_some hc

/-- There is one way up. -/
theorem unique (hl : Walk up a l) (hl' : Walk up a l') : l = l' := by
  induction hl generalizing l' with
  | last here =>
    cases hl' with
    | last => rfl
    | step link' => cases here.symm.trans link'
  | step link rest ih =>
    cases hl' with
    | last here' => cases here'.symm.trans link
    | step link' rest' =>
      cases link.symm.trans link'
      rw [ih rest']

/-- No node is met twice: the way from the second meeting would be both as long as the
way from the first and shorter. -/
theorem nodup (hl : Walk up a l) : l.Nodup := by
  induction hl with
  | last => exact List.nodup_singleton _
  | @step a b l link rest ih =>
    refine List.nodup_cons.mpr ⟨fun hmem => ?_, ih⟩
    obtain ⟨l', hl', hsuffix⟩ := rest.of_mem hmem
    have hle := hsuffix.length_le
    rw [Walk.unique hl' (.step link rest), List.length_cons] at hle
    omega

/-- A walk is still there when the links on it are. -/
theorem transport (hl : Walk up a l) (hsame : ∀ b ∈ l, down b = up b) : Walk down a l := by
  induction hl with
  | last here => exact .last ((hsame _ List.mem_cons_self).trans here)
  | step link rest ih =>
    exact .step ((hsame _ List.mem_cons_self).trans link)
      (ih fun b hb => hsame b (List.mem_cons_of_mem _ hb))

/-- Where every link leads to a node of a lower number, every walk ends. -/
theorem exists_of_descending (number : α → Nat)
    (hdown : ∀ a b, Links up a b → (up b).isSome = true ∧ number b < number a)
    (ha : (up a).isSome = true) : ∃ l, Walk up a l := by
  induction hn : number a using Nat.strongRecOn generalizing a with
  | ind n ih =>
    obtain ⟨above, habove⟩ := Option.isSome_iff_exists.mp ha
    cases above with
    | none => exact ⟨_, .last habove⟩
    | some b =>
      obtain ⟨hb, hlt⟩ := hdown a b habove
      obtain ⟨l, hl⟩ := ih (number b) (hn ▸ hlt) hb rfl
      exact ⟨_, .step habove hl⟩

end Walk

/-! ## Climbs of bounded length -/

/-- At most so many nodes from one on, along the links. -/
def climb (up : α → Option (Option α)) : Nat → α → List α
  | 0, _ => []
  | n + 1, a =>
    match up a with
    | none => []
    | some none => [a]
    | some (some b) => a :: climb up n b

/-- The nodes that are there have numbers of their own below the count. -/
structure Numbered (up : α → Option (Option α)) (number : α → Nat) (count : Nat) : Prop where
  injective : Function.Injective number
  lt : ∀ a, (up a).isSome = true → number a < count

variable {number : α → Nat} {n : Nat}

/-- Nodes that are listed once, and are there, are no more than there are. -/
theorem Numbered.length_le (hnumbered : Numbered up number n) (hl : l.Nodup)
    (hthere : ∀ b ∈ l, (up b).isSome = true) : l.length ≤ n := by
  have hsub : l.map number ⊆ List.range n := by
    intro k hk
    obtain ⟨b, hb, rfl⟩ := List.mem_map.mp hk
    exact List.mem_range.mpr (hnumbered.lt b (hthere b hb))
  simpa using ((hl.map hnumbered.injective).subperm hsub).length_le

/-- A node is climbed to by as many steps as the way there has nodes. -/
theorem Way.mem_climb (hl : Way up (Reaches up c) a l) (hn : l.length ≤ n) : c ∈ climb up n a := by
  induction hl generalizing n with
  | @last a here =>
    obtain ⟨rfl, hthere⟩ := here
    obtain ⟨n, rfl⟩ := Nat.exists_eq_succ_of_ne_zero (Nat.ne_of_gt hn)
    obtain ⟨above, habove⟩ := Option.isSome_iff_exists.mp hthere
    cases above <;> simp [climb, habove]
  | @step a b l link rest ih =>
    rw [List.length_cons] at hn
    obtain ⟨n, rfl⟩ := Nat.exists_eq_succ_of_ne_zero (Nat.ne_zero_of_lt hn)
    simp only [climb, show up a = _ from link]
    exact List.mem_cons_of_mem _ (ih (Nat.le_of_succ_le_succ hn))

theorem links_of_mem_climb (hc : c ∈ climb up n a) :
    (up c).isSome = true ∧ Relation.ReflTransGen (Links up) a c := by
  induction n generalizing a with
  | zero => cases hc
  | succ n ih =>
    unfold climb at hc
    split at hc
    · cases hc
    · rename_i htop
      obtain rfl := List.mem_singleton.mp hc
      exact ⟨Option.isSome_of_eq_some htop, .refl⟩
    · rename_i link
      rcases List.mem_cons.mp hc with rfl | hc
      · exact ⟨Option.isSome_of_eq_some link, .refl⟩
      · obtain ⟨hthere, hlinks⟩ := ih hc
        exact ⟨hthere, .head link hlinks⟩

/-- With as many steps as there are nodes, all that links lead to is climbed to. -/
theorem mem_climb_iff (hnumbered : Numbered up number n) : c ∈ climb up n a ↔
    (up c).isSome = true ∧ Relation.ReflTransGen (Links up) a c := by
  refine ⟨links_of_mem_climb, fun ⟨hthere, hlinks⟩ => ?_⟩
  obtain ⟨l, hl, hnodup⟩ := Way.exists_nodup hlinks hthere
  exact hl.mem_climb (hnumbered.length_le hnodup (hl.present fun _ hc => hc.2))

theorem Walk.climb_of_length_le (hl : Walk up a l) (hn : l.length ≤ n) : climb up n a = l := by
  induction hl generalizing n with
  | @last a here =>
    obtain ⟨n, rfl⟩ := Nat.exists_eq_succ_of_ne_zero (Nat.ne_of_gt hn)
    simp only [climb, show up a = _ from here]
  | @step a b l link rest ih =>
    rw [List.length_cons] at hn
    obtain ⟨n, rfl⟩ := Nat.exists_eq_succ_of_ne_zero (Nat.ne_zero_of_lt hn)
    simp only [climb, show up a = _ from link]
    rw [ih (Nat.le_of_succ_le_succ hn)]

/-- With as many steps as there are nodes, the whole walk is climbed. -/
theorem Walk.climb_eq (hl : Walk up a l) (hnumbered : Numbered up number n) : climb up n a = l :=
  hl.climb_of_length_le (hnumbered.length_le hl.nodup hl.present)

end ScriptRealm
