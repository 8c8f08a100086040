import ScriptRealm.Proofs.Carrier
import ScriptRealm.Proofs.Descriptors

/-!
# Policy — what a host's code is held to

A statement about all runs is a statement about all programs, or about those
that keep to some rules: to make no raw edit, to describe no property as data
and accessor at once, to use only handles that the realm has handed out. A
`Policy` names the rules, and `Program.Obeys` says that a program keeps them,
whatever it is answered.

A handle is known to a program when a request answered with it, when it came
with the receiver or the arguments of the call being run, or when the code
that made the running function knew it. `Policy.free` asks for nothing
(`obeys_free`).
-/

namespace ScriptRealm

/-- The rules that a host's code keeps to. -/
structure Policy (σ : Type) where
  /-- Handles that may be used without having been handed out. -/
  foreign : Handle → Prop
  /-- Handles that a state of the host holds on to. -/
  held : σ → Handle → Prop
  /-- Raw edits of an object that may be asked for. -/
  raw : Handle → RawEdit → Prop
  /-- Properties may be described as data and accessor at once. -/
  mixed : Prop

namespace Policy

variable {σ : Type}

/-- The policy that rules nothing out. -/
def free : Policy σ := ⟨fun _ => True, fun _ _ => False, fun _ _ => True, True⟩

/-- The request keeps to the rules on edits and descriptors. -/
def Permits (π : Policy σ) : Request → Prop
  | .edit o e => π.raw o e
  | .define _ _ d => π.mixed ∨ ¬ d.Mixed
  | _ => True

/-- All handles of the data are known or may be used anyhow. -/
def Knows (π : Policy σ) {α : Type} [Carrier α] (known : Handle → Prop) (a : α) : Prop :=
  ∀ h ∈ handles a, π.foreign h ∨ known h

end Policy

/-- What is known after being handed some data. -/
def learn {α : Type} [Carrier α] (known : Handle → Prop) (a : α) : Handle → Prop :=
  fun h => known h ∨ h ∈ handles a

variable {σ : Type}

/-- A program that begins with some known handles keeps to the policy. -/
def Program.Obeys (π : Policy σ) : Program σ → (Handle → Prop) → Prop
  | finish c, known => π.Knows known c
  | observe next, known => ∀ s, (next s).Obeys π fun h => known h ∨ π.held s h
  | update state next, known =>
    (∀ h, π.held state h → π.foreign h ∨ known h) ∧ next.Obeys π known
  | ask q next, known =>
    π.Permits q ∧ π.Knows known q ∧ ∀ a, (next a).Obeys π (learn known a)
  | newFunction _ _ _ body next, known =>
    (∀ this args, (body this args).Obeys π (learn (learn known this) args))
      ∧ ∀ f, (next f).Obeys π (learn known f)

/-- Where every handle may be used, nothing need be known. -/
theorem Policy.knows_of_foreign {π : Policy σ} (hall : ∀ h, π.foreign h) {α : Type} [Carrier α]
    (known : Handle → Prop) (a : α) : π.Knows known a :=
  fun h _ => .inl (hall h)

/-- A program that keeps to a policy keeps to one that rules out no more edits and
descriptors, and asks nothing of handles. -/
theorem Program.Obeys.relax {π ρ : Policy σ} {p : Program σ} {known more : Handle → Prop}
    (hp : p.Obeys π known) (hall : ∀ h, ρ.foreign h) (hraw : ∀ h e, π.raw h e → ρ.raw h e)
    (hmixed : π.mixed → ρ.mixed) : p.Obeys ρ more := by
  induction p generalizing known more with
  | finish c => exact Policy.knows_of_foreign hall more c
  | observe next ih =>
    intro s
    exact ih s (hp s)
  | update state next ih => exact ⟨fun h _ => .inl (hall h), ih hp.2⟩
  | ask q next ih =>
    obtain ⟨hpermit, -, hnext⟩ := hp
    refine ⟨?_, Policy.knows_of_foreign hall more q, fun a => ih a (hnext a)⟩
    cases q with
    | edit o e => exact hraw o e hpermit
    | define o key d => exact Or.imp_left hmixed hpermit
    | _ => trivial
  | newFunction name arity isConstructor body next ihb ihn =>
    obtain ⟨hbody, hnext⟩ := hp
    exact ⟨fun this args => ihb this args (hbody this args), fun f => ihn f (hnext f)⟩

theorem Policy.permits_free (q : Request) : (free : Policy σ).Permits q := by
  cases q <;> first | exact trivial | exact .inl trivial

/-- Where every edit and every description may be asked for and every handle is known
or may be used, there is nothing to keep to. -/
theorem Program.obeys_of_known {π : Policy σ} (hpermits : ∀ q, π.Permits q)
    (hheld : ∀ s h, ¬ π.held s h) (p : Program σ) {known : Handle → Prop}
    (hknown : ∀ h, π.foreign h ∨ known h) : p.Obeys π known := by
  induction p generalizing known with
  | finish c => exact fun h _ => hknown h
  | observe next ih => exact fun s => ih s fun h => (hknown h).imp_right .inl
  | update state next ih => exact ⟨fun h hh => absurd hh (hheld state h), ih hknown⟩
  | ask q next ih =>
    exact ⟨hpermits q, fun h _ => hknown h, fun a => ih a fun h => (hknown h).imp_right .inl⟩
  | newFunction name arity isConstructor body next ihb ihn =>
    exact ⟨fun this args => ihb this args fun h => (hknown h).imp_right fun hh => .inl (.inl hh),
      fun f => ihn f fun h => (hknown h).imp_right .inl⟩

/-- Every program keeps to the policy that rules nothing out. -/
theorem Program.obeys_free (p : Program σ) (known : Handle → Prop) : p.Obeys Policy.free known :=
  p.obeys_of_known Policy.permits_free (fun _ _ hh => hh) fun _ => .inl trivial

end ScriptRealm
