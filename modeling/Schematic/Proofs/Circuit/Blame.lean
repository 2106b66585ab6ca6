import Mathlib.Order.WellFounded
import Mathlib.Data.Set.Finite.List
import Schematic.Proofs.Circuit.Containment

/-!
# Composables that lie in nothing

Parent names lead from a composable to one without a parent, or into a cycle, or to a parent
that is not declared.  When registration ends early it names the first composable in order of
declaration for which it is not the first of these.  It looks no farther than to the parent of
that one: if the parent is declared it speaks of a cycle, although the parent's own chain
may just as well end at a name that is not declared.

## Main definitions

* `ComposableDef.Inside` — a composable and the one around it.
* `ComposableDef.Circles`, `ComposableDef.Dangles` — the two ways in which a chain of parents
  goes wrong.
* `CircuitDef.Stuck` — the composable that is blamed.
* `ReplayM.FailsWith` — the errors that a step ends with.

## Main statements

* `ComposableDef.not_rooted_iff` — there are no other ways.
* `CircuitDef.registerComposables_error_iff` — which composable is blamed.
* `CircuitDef.replay_containment_errors` — what the errors about containment say.
-/

namespace Schematic

open Relation (ReflTransGen TransGen)

variable {α β γ : Type}

/-! ### Chains of parents -/

namespace ComposableDef

variable {declared : List (ComposableDef α)} {c d e : ComposableDef α}

/-- A declared composable is the parent of another one. -/
def Inside (declared : List (ComposableDef α)) (d e : ComposableDef α) : Prop :=
  e ∈ declared ∧ d.parent = some e.name

/-- Parent names lead into a cycle. -/
def Circles (declared : List (ComposableDef α)) (d : ComposableDef α) : Prop :=
  ∃ e, ReflTransGen (Inside declared) d e ∧ TransGen (Inside declared) e e

/-- Parent names lead to a parent that is not declared. -/
def Dangles (declared : List (ComposableDef α)) (d : ComposableDef α) : Prop :=
  ∃ e p, ReflTransGen (Inside declared) d e ∧ e.parent = some p ∧ p ∉ declared.map (·.name)

section Distinct

variable (hnames : (declared.map (·.name)).Nodup)
include hnames

theorem Inside.eq (h : Inside declared d e) (h' : Inside declared d c) : e = c :=
  List.inj_on_of_nodup_map hnames h.1 h'.1 (Option.some.inj (h.2.symm.trans h'.2))

theorem Rooted.of_inside (hd : d.Rooted declared) (h : Inside declared d e) :
    e.Rooted declared := by
  cases hd with
  | outermost hparent =>
    rw [h.2] at hparent
    cases hparent
  | inside hc hparent hroot => rwa [h.eq hnames ⟨hc, hparent⟩]

theorem Rooted.of_chain (hd : d.Rooted declared) (h : ReflTransGen (Inside declared) d e) :
    e.Rooted declared := by
  induction h with
  | refl => exact hd
  | tail _ hlast ih => exact ih.of_inside hnames hlast

/-- A cycle goes on from every composable on it. -/
theorem cyclic_of_chain (hcycle : TransGen (Inside declared) d d)
    (h : ReflTransGen (Inside declared) d e) : TransGen (Inside declared) e e := by
  induction h with
  | refl => exact hcycle
  | tail _ hlast ih =>
    obtain ⟨c, hc, hback⟩ := TransGen.head'_iff.1 ih
    obtain rfl := hc.eq hnames hlast
    exact TransGen.tail' hback hlast

/-- A chain that ends does not lead into a cycle. -/
theorem not_circles_of_end (h : ReflTransGen (Inside declared) d e)
    (hend : ∀ c, ¬Inside declared e c) : ¬d.Circles declared := by
  rintro ⟨f, hchain, hcycle⟩
  have hunique : Relator.RightUnique (Inside declared) := fun _ _ _ hb hc => hb.eq hnames hc
  have hcyclic : TransGen (Inside declared) e e := by
    rcases ReflTransGen.total_of_right_unique hunique h hchain with hef | hfe
    · rcases ReflTransGen.cases_head hef with rfl | ⟨c, hc, -⟩
      · exact hcycle
      · exact absurd hc (hend c)
    · exact cyclic_of_chain hnames hcycle hfe
  obtain ⟨c, hc, -⟩ := TransGen.head'_iff.1 hcyclic
  exact hend c hc

theorem Rooted.not_circles (hd : d.Rooted declared) : ¬d.Circles declared := by
  have hend : ∃ e, ReflTransGen (Inside declared) d e ∧ e.parent = none := by
    induction hd with
    | outermost hparent => exact ⟨_, .refl, hparent⟩
    | inside hc hparent _ ih =>
      obtain ⟨e, hchain, hnone⟩ := ih
      exact ⟨e, hchain.head ⟨hc, hparent⟩, hnone⟩
  obtain ⟨e, hchain, hnone⟩ := hend
  refine not_circles_of_end hnames hchain fun c hc => ?_
  rw [hc.2] at hnone
  cases hnone

theorem Dangles.not_circles (hd : d.Dangles declared) : ¬d.Circles declared := by
  obtain ⟨e, p, hchain, hparent, hmissing⟩ := hd
  refine not_circles_of_end hnames hchain fun c hc => hmissing ?_
  rw [hc.2] at hparent
  exact List.mem_map.2 ⟨c, hc.1, Option.some.inj hparent⟩

end Distinct

/-- A chain that neither comes back nor ends at a missing parent leads to a composable without
a parent. -/
theorem rooted_of_chain (hd : d ∈ declared) (hcircles : ¬d.Circles declared)
    (hdangles : ¬d.Dangles declared) : d.Rooted declared := by
  let Above := {e : ComposableDef α // e ∈ declared ∧ ReflTransGen (Inside declared) d e}
  have hfinite : Finite Above :=
    (declared.finite_toSet.subset fun e (he : e ∈ declared ∧ _) => he.1).to_subtype
  -- what is above `d` is finite and has no cycle, so that the induction goes from the top down
  have hwf : WellFounded fun x y : Above => TransGen (Inside declared) y.1 x.1 := by
    have htrans : IsTrans Above fun x y => TransGen (Inside declared) y.1 x.1 :=
      ⟨fun _ _ _ hxy hyz => hyz.trans hxy⟩
    have hirrefl : Std.Irrefl fun x y : Above => TransGen (Inside declared) y.1 x.1 :=
      ⟨fun x hx => hcircles ⟨x.1, x.2.2, hx⟩⟩
    exact Finite.wellFounded_of_trans_of_irrefl _
  refine hwf.induction (C := fun x => x.1.Rooted declared) ⟨d, hd, .refl⟩ fun x ih => ?_
  cases hparent : x.1.parent with
  | none => exact .outermost hparent
  | some p =>
    by_cases hp : p ∈ declared.map (·.name)
    · obtain ⟨e, he, rfl⟩ := List.mem_map.1 hp
      have hinside : Inside declared x.1 e := ⟨he, hparent⟩
      exact .inside he hparent (ih ⟨e, he, x.2.2.tail hinside⟩ (.single hinside))
    · exact absurd ⟨x.1, p, x.2.2, hparent, hp⟩ hdangles

/-- A chain goes wrong by coming back or by leading to a parent that is not declared. -/
theorem not_rooted_iff (hnames : (declared.map (·.name)).Nodup) (hd : d ∈ declared) :
    ¬d.Rooted declared ↔ d.Circles declared ∨ d.Dangles declared := by
  constructor
  · intro hnot
    by_contra hneither
    obtain ⟨hcircles, hdangles⟩ := not_or.1 hneither
    exact hnot (rooted_of_chain hd hcircles hdangles)
  · rintro (hcircles | ⟨e, p, hchain, hparent, hmissing⟩) hroot
    · exact hroot.not_circles hnames hcircles
    · cases hroot.of_chain hnames hchain with
      | outermost hnone =>
        rw [hnone] at hparent
        cases hparent
      | @inside _ c hc hsome _ =>
        rw [hsome] at hparent
        exact hmissing (List.mem_map.2 ⟨c, hc, Option.some.inj hparent⟩)

end ComposableDef

open Build

namespace CircuitDef

/-! ### The composable that is blamed -/

section Stuck

variable [Scalar α] {b b' : Build α} {built names : Names} {start : Build α}
  {pending declared : List (ComposableDef α)} {d : ComposableDef α} {e : CircuitError}

/-- The first composable from which parent names lead to none without a parent, where all that
come to be registered have well-formed positions. -/
structure Stuck (declared : List (ComposableDef α)) (d : ComposableDef α) : Prop where
  /-- The composables that come to be registered have well-formed positions. -/
  placed : ∀ e ∈ declared, e.Rooted declared →
    ∃ position, authorPlacement e.name e.at? = .ok position
  /-- Parent names lead from all before it to one without a parent. -/
  first : ∃ before after, declared = before ++ d :: after ∧ ∀ e ∈ before, e.Rooted declared
  /-- From the composable itself they do not. -/
  not_rooted : ¬d.Rooted declared

theorem Stuck.mem (h : Stuck declared d) : d ∈ declared := by
  obtain ⟨before, after, heq, -⟩ := h.first
  rw [heq]
  exact List.mem_append_right before List.mem_cons_self

/-- There is one first composable. -/
theorem Stuck.unique {e : ComposableDef α} (hd : Stuck declared d) (he : Stuck declared e) :
    d = e := by
  classical
  have hfirst : ∀ {c : ComposableDef α}, Stuck declared c →
      declared.find? (fun x => ¬x.Rooted declared) = some c := by
    intro c hc
    obtain ⟨before, after, heq, hbefore⟩ := hc.first
    refine List.find?_eq_some_iff_append.2
      ⟨decide_eq_true hc.not_rooted, before, after, heq, fun x hx => ?_⟩
    simpa using hbefore x hx
  exact Option.some.inj ((hfirst hd).symm.trans (hfirst he))

/-- When the pending composables are all that are left, and none of them is ready, the first
one is stuck. -/
theorem Progress.stuck (hnames : (declared.map (·.name)).Nodup)
    (h : Progress declared start built (d :: pending) b) (hsub : (d :: pending).Sublist declared)
    (hstuck : ∀ e ∈ d :: pending, e.outer? built = none) : Stuck declared d where
  placed e he hroot := by
    obtain ⟨id, outer, hstands⟩ :=
      (h.stands e he).resolve_left (h.not_rooted hstuck hroot)
    obtain ⟨position, hposition, -⟩ := hstands.entry
    exact ⟨position, hposition⟩
  first := by
    obtain ⟨front, after, rfl, hd, hafter⟩ := List.cons_sublist_iff.1 hsub
    obtain ⟨before, between, rfl⟩ := List.append_of_mem hd
    refine ⟨before, between ++ after, by simp, fun e he => ?_⟩
    have hmem : e ∈ before ++ d :: between ++ after := by simp [he]
    -- what is pending comes later, and nothing is declared twice
    have hnot : e ∉ d :: pending := by
      intro hpending
      have hlater : e ∈ d :: between ++ after := by
        rcases List.mem_cons.1 hpending with rfl | hpending
        · exact List.mem_cons_self
        · exact List.mem_append_right _ (hafter.subset hpending)
      have hnodup := hnames.of_map
      rw [List.append_assoc] at hnodup
      exact (List.nodup_append.1 hnodup).2.2 e he e hlater rfl
    obtain ⟨id, outer, hstands⟩ := (h.stands e hmem).resolve_left hnot
    obtain ⟨c, hc, hname, hroot, -⟩ := h.rooted e.name id hstands.lookup_eq
    rwa [← List.inj_on_of_nodup_map hnames hc hmem hname]
  not_rooted hroot := h.not_rooted hstuck hroot List.mem_cons_self

theorem error_of_authorPlacement {owner : String} {at? : Option (List α)}
    (h : authorPlacement owner at? = .error e) : e = .badPosition owner := by
  unfold authorPlacement at h
  split at h <;> cases h
  rfl

omit [Scalar α] in
/-- The error says whether the parent of the composable is declared. -/
theorem stuckError_cases (declared : List (ComposableDef α)) {p : String}
    (hparent : d.parent = some p) :
    p ∈ declared.map (·.name) ∧ stuckError declared d = .containmentCycle d.name ∨
      p ∉ declared.map (·.name) ∧ stuckError declared d = .unknownComposable p := by
  have hany : declared.any (·.name == p) = true ↔ p ∈ declared.map (·.name) := by
    simp [List.any_eq_true]
  rw [stuckError, hparent, Option.getD_some]
  by_cases hp : p ∈ declared.map (·.name)
  · exact .inl ⟨hp, if_pos (hany.2 hp)⟩
  · exact .inr ⟨hp, if_neg (mt hany.1 hp)⟩

/-- Only a composable with a parent is stuck. -/
theorem Stuck.exists_parent (h : Stuck declared d) : ∃ p, d.parent = some p :=
  Option.ne_none_iff_exists'.1 fun hnone => h.not_rooted (.outermost hnone)

/-- Registering the composables of a definition ends well, or it blames the one that is stuck,
or a position. -/
theorem registerComposables_cases (circuit : CircuitDef α) (b : Build α)
    (hnames : (circuit.composables.map (·.name)).Nodup) :
    (∃ names b', circuit.registerComposables b = .ok names b' ∧
      Nests circuit.composables names b b' ∧
      ∀ d ∈ circuit.composables, d.Rooted circuit.composables) ∨
    (∃ d b', Stuck circuit.composables d ∧
      circuit.registerComposables b = .error (stuckError circuit.composables d) b') ∨
    ∃ d b', d ∈ circuit.composables ∧ d.Rooted circuit.composables ∧
      authorPlacement d.name d.at? = .error (.badPosition d.name) ∧
      circuit.registerComposables b = .error (.badPosition d.name) b' := by
  have hout := registerAll_registered hnames (progress_start circuit.composables b)
  rw [registerComposables]
  generalize registerAll circuit.composables [] circuit.composables b = result at hout ⊢
  cases hout with
  | nested nests rooted => exact .inl ⟨_, _, rfl, nests, rooted⟩
  | stuck progress unready sublist =>
    exact .inr (.inl ⟨_, _, progress.stuck hnames sublist unready, rfl⟩)
  | misplaced mem rooted misplaced =>
    obtain rfl := error_of_authorPlacement misplaced
    exact .inr (.inr ⟨_, _, mem, rooted, misplaced, rfl⟩)

/-- The composable that is stuck is blamed. -/
theorem Stuck.registerComposables {circuit : CircuitDef α}
    (h : Stuck circuit.composables d) (hnames : (circuit.composables.map (·.name)).Nodup)
    (b : Build α) :
    ∃ b', circuit.registerComposables b = .error (stuckError circuit.composables d) b' := by
  rcases registerComposables_cases circuit b hnames with
    ⟨_, _, -, -, hrooted⟩ | ⟨c, b', hc, herror⟩ | ⟨c, _, hc, hrooted, hposition, -⟩
  · exact absurd (hrooted d h.mem) h.not_rooted
  · exact ⟨b', h.unique hc ▸ herror⟩
  · obtain ⟨position, hplaced⟩ := h.placed c hc hrooted
    rw [hposition] at hplaced
    cases hplaced

end Stuck

end CircuitDef

/-! ### Errors of the later steps -/

namespace ReplayM

variable {kind : CircuitError → Prop} {x : ReplayM α β} {f : β → ReplayM α γ}

/-- A step fails with errors of one kind only. -/
def FailsWith (kind : CircuitError → Prop) (x : ReplayM α β) : Prop :=
  ∀ b e b', x b = .error e b' → kind e

theorem failsWith_bind (hx : FailsWith kind x) (hf : ∀ v, FailsWith kind (f v)) :
    FailsWith kind (x >>= f) := by
  intro b e b' h
  rcases stateful_bind_error_iff.1 h with h | ⟨v, b₁, -, h⟩
  · exact hx b e b' h
  · exact hf v b₁ e b' h

theorem failsWith_pure (v : β) : FailsWith kind (pure v : ReplayM α β) := nofun

theorem failsWith_get : FailsWith kind (get : ReplayM α (Build α)) := nofun

theorem failsWith_throw {e : CircuitError} (h : kind e) :
    FailsWith kind (throw e : ReplayM α β) := by
  rintro b e' b' ⟨⟩
  exact h

/-- What comes after an error is not done. -/
theorem failsWith_throw_bind {e : CircuitError} (h : kind e) :
    FailsWith kind ((throw e : ReplayM α β) >>= f) := by
  rintro b e' b' ⟨⟩
  exact h

/-- A building operation is refused, and nothing else. -/
theorem failsWith_ofBuild (h : ∀ e, kind (.connect e)) (x : BuildM α β) :
    FailsWith kind (ofBuild x) := by
  intro b e b' hx
  rw [ofBuild] at hx
  split at hx
  · cases hx
  · cases hx
    exact h _

end ReplayM

/-- An error about a reference to a pin, or a refused connection. -/
inductive CircuitError.OfPins : CircuitError → Prop
  /-- A text is no pin reference. -/
  | badPinRef (text : String) : OfPins (.badPinRef text)
  /-- A pin reference names no component. -/
  | unknownRef (text : String) : OfPins (.unknownRef text)
  /-- A connection is refused. -/
  | connect (e : ConnectError) : OfPins (.connect e)

/-- An error about components, given the names of the composables. -/
inductive CircuitError.OfComponents (names : CircuitDef.Names) (ds : List (ComponentDef α)) :
    CircuitError → Prop
  /-- Two components have one reference designator. -/
  | duplicateRef (reference : String) : OfComponents names ds (.duplicateRef reference)
  /-- A component has no well-formed position. -/
  | badPosition (owner : String) : OfComponents names ds (.badPosition owner)
  /-- The composable that a component names as its parent is missing. -/
  | unknownComposable {d : ComponentDef α} {p : String} (mem : d ∈ ds)
      (named : d.parent = some p) (missing : names.lookup p = none) :
      OfComponents names ds (.unknownComposable p)
  /-- A component is refused. -/
  | connect (e : ConnectError) : OfComponents names ds (.connect e)

theorem CircuitError.OfComponents.cons {names : CircuitDef.Names} {ds : List (ComponentDef α)}
    {e : CircuitError} (h : OfComponents names ds e) (d : ComponentDef α) :
    OfComponents names (d :: ds) e := by
  cases h with
  | duplicateRef reference => exact .duplicateRef reference
  | badPosition owner => exact .badPosition owner
  | unknownComposable mem named missing =>
    exact .unknownComposable (List.mem_cons_of_mem d mem) named missing
  | connect e => exact .connect e

namespace CircuitDef

open ReplayM CircuitError

variable {numbering : PinNumbering} {refs names : Names}

theorem resolvePin_failsWith (text : String) :
    FailsWith OfPins (resolvePin numbering refs text : ReplayM α PinId) := by
  rw [resolvePin]
  split
  · exact failsWith_throw (.badPinRef text)
  · split
    · exact failsWith_throw (.unknownRef text)
    · exact failsWith_bind failsWith_get fun b => failsWith_ofBuild .connect _

theorem tieAll_failsWith (net : NetId) (texts : List String) :
    FailsWith OfPins (tieAll numbering refs net texts : ReplayM α Unit) := by
  induction texts with
  | nil => exact failsWith_pure ()
  | cons text texts ih =>
    rw [tieAll]
    exact failsWith_bind (resolvePin_failsWith text) fun pin =>
      failsWith_bind (failsWith_ofBuild .connect _) fun _ => ih

theorem addNets_failsWith (ds : List NetDef) :
    FailsWith OfPins (addNets numbering refs ds : ReplayM α Unit) := by
  induction ds with
  | nil => exact failsWith_pure ()
  | cons d ds ih =>
    rw [addNets]
    exact failsWith_bind (failsWith_ofBuild .connect _) fun net =>
      failsWith_bind (failsWith_ofBuild .connect _) fun _ =>
      failsWith_bind (tieAll_failsWith net d.pins) fun _ => ih

theorem exposePorts_failsWith (composable : ComposableId) (ports : List (String × String)) :
    FailsWith OfPins (exposePorts numbering refs composable ports : ReplayM α Unit) := by
  induction ports with
  | nil => exact failsWith_pure ()
  | cons port ports ih =>
    have hexpose : ∀ net, FailsWith OfPins (do
        ofBuild (expose composable port.1 net)
        exposePorts numbering refs composable ports : ReplayM α Unit) := fun net =>
      failsWith_bind (failsWith_ofBuild .connect _) fun _ => ih
    rw [exposePorts]
    refine failsWith_bind (resolvePin_failsWith port.2) fun pin =>
      failsWith_bind failsWith_get fun b => ?_
    dsimp only
    split
    · exact failsWith_bind (failsWith_pure _) hexpose
    · exact failsWith_bind (failsWith_ofBuild .connect _) fun net =>
        failsWith_bind (failsWith_ofBuild .connect _) fun _ =>
        failsWith_bind (failsWith_pure net) hexpose

theorem exposeAll_failsWith (ds : List (ComposableDef α)) :
    FailsWith OfPins (exposeAll numbering refs names ds : ReplayM α Unit) := by
  induction ds with
  | nil => exact failsWith_pure ()
  | cons d ds ih =>
    rw [exposeAll]
    split
    · exact failsWith_bind (exposePorts_failsWith _ _) fun _ => ih
    · exact ih

theorem markAll_failsWith (ds : List NoConnectDef) :
    FailsWith OfPins (markAll numbering refs ds : ReplayM α Unit) := by
  induction ds with
  | nil => exact failsWith_pure ()
  | cons d ds ih =>
    rw [markAll]
    exact failsWith_bind (resolvePin_failsWith d.pin) fun pin =>
      failsWith_bind (failsWith_ofBuild .connect _) fun _ => ih

theorem liftExcept_failsWith {kind : CircuitError → Prop} {x : Except CircuitError β}
    (h : ∀ e, x = .error e → kind e) :
    FailsWith kind (registerReady.liftExcept x : ReplayM α β) := by
  cases x with
  | ok v => exact failsWith_pure v
  | error e => exact failsWith_throw (h e rfl)

theorem addComponents_failsWith [Scalar α] (refs : Names) (ds : List (ComponentDef α)) :
    FailsWith (OfComponents names ds) (addComponents names refs ds) := by
  induction ds generalizing refs with
  | nil => exact failsWith_pure refs
  | cons d ds ih =>
    have hrest : ∀ id, FailsWith (OfComponents names (d :: ds))
        (addComponents names ((d.reference, id) :: refs) ds) :=
      fun id b e b' h => (ih _ b e b' h).cons d
    have hposition : FailsWith (OfComponents names (d :: ds)) (registerReady.liftExcept
        (authorPlacement d.reference d.at?) : ReplayM α (Option (Placement α))) :=
      liftExcept_failsWith fun e he => error_of_authorPlacement he ▸ .badPosition d.reference
    have hadd : ∀ position parent, FailsWith (OfComponents names (d :: ds)) (do
        let id ← ofBuild (Build.addComponent
          { symbol := d.symbol, reference := d.reference, value := d.value,
            footprint := d.footprint, position, parent, group := d.group })
        addComponents names ((d.reference, id) :: refs) ds) := fun position parent =>
      failsWith_bind (failsWith_ofBuild .connect _) hrest
    rw [addComponents]
    dsimp only
    split
    · exact failsWith_throw_bind (.duplicateRef d.reference)
    · refine failsWith_bind hposition fun position => ?_
      split
      · exact failsWith_bind (failsWith_pure none) (hadd position)
      · next p hparent =>
        split
        · exact failsWith_bind (failsWith_pure _) (hadd position)
        · next hmissing =>
          exact failsWith_throw_bind (.unknownComposable List.mem_cons_self hparent hmissing)

/-! ### Errors about containment -/

section Blame

variable [Scalar α] {circuit : CircuitDef α} {b b' : Build α} {e : CircuitError}

/-- Playing a definition fails when its composables cannot be registered, or later for a
component or for a pin. -/
theorem replay_error_cases (h : circuit.replay numbering b = .error e b') :
    circuit.registerComposables b = .error e b' ∨ ∃ names b₁,
      circuit.registerComposables b = .ok names b₁ ∧
        (OfComponents names circuit.components e ∨ OfPins e) := by
  rw [replay] at h
  rcases stateful_bind_error_iff.1 h with h | ⟨names, b₁, hnames, h⟩
  · exact .inl h
  refine .inr ⟨names, b₁, hnames, ?_⟩
  rcases stateful_bind_error_iff.1 h with h | ⟨refs, b₂, -, h⟩
  · exact .inl (addComponents_failsWith [] circuit.components b₁ e b' h)
  · refine .inr (failsWith_bind (addNets_failsWith circuit.nets) (fun _ => ?_) b₂ e b' h)
    exact failsWith_bind (exposeAll_failsWith circuit.composables) fun _ =>
      markAll_failsWith circuit.noConnects

theorem replay_of_registerComposables (h : circuit.registerComposables b = .error e b') :
    circuit.replay numbering b = .error e b' := stateful_bind_of_error h

variable (hnames : (circuit.composables.map (·.name)).Nodup)
include hnames

/-- A cycle is reported for the composable that is stuck, when its parent is declared. -/
theorem replay_containmentCycle_iff (n : String) :
    (∃ b', circuit.replay numbering b = .error (.containmentCycle n) b') ↔
      ∃ d p, Stuck circuit.composables d ∧ d.name = n ∧ d.parent = some p ∧
        p ∈ circuit.composables.map (·.name) := by
  constructor
  · rintro ⟨b', h⟩
    rcases replay_error_cases h with h | ⟨_, _, -, h | h⟩
    · rcases registerComposables_cases circuit b hnames with
        ⟨_, _, hok, -⟩ | ⟨d, _, hd, herror⟩ | ⟨_, _, -, -, -, herror⟩
      · rw [hok] at h
        cases h
      · obtain ⟨p, hp⟩ := hd.exists_parent
        rw [herror, EStateM.Result.error.injEq] at h
        rcases stuckError_cases circuit.composables hp with ⟨hmem, heq⟩ | ⟨-, heq⟩
        · rw [heq] at h
          exact ⟨d, p, hd, CircuitError.containmentCycle.inj h.1, hp, hmem⟩
        · rw [heq] at h
          cases h.1
      · rw [herror] at h
        cases h
    · cases h
    · cases h
  · rintro ⟨d, p, hd, rfl, hp, hmem⟩
    obtain ⟨b', herror⟩ := hd.registerComposables hnames b
    rcases stuckError_cases circuit.composables hp with ⟨-, heq⟩ | ⟨hnot, -⟩
    · exact ⟨b', replay_of_registerComposables (heq ▸ herror)⟩
    · exact absurd hmem hnot

/-- An unknown composable is one that is named as a parent and not declared. -/
theorem replay_unknownComposable {p : String}
    (h : circuit.replay numbering b = .error (.unknownComposable p) b') :
    p ∉ circuit.composables.map (·.name) ∧
      ((∃ d, Stuck circuit.composables d ∧ d.parent = some p) ∨
        ∃ c ∈ circuit.components, c.parent = some p) := by
  rcases replay_error_cases h with h | ⟨names, b₁, hregister, h | h⟩
  · rcases registerComposables_cases circuit b hnames with
      ⟨_, _, hok, -⟩ | ⟨d, _, hd, herror⟩ | ⟨_, _, -, -, -, herror⟩
    · rw [hok] at h
      cases h
    · obtain ⟨q, hq⟩ := hd.exists_parent
      rw [herror, EStateM.Result.error.injEq] at h
      rcases stuckError_cases circuit.composables hq with ⟨-, heq⟩ | ⟨hnot, heq⟩
      · rw [heq] at h
        cases h.1
      · rw [heq] at h
        cases h.1
        exact ⟨hnot, .inl ⟨d, hd, hq⟩⟩
    · rw [herror] at h
      cases h
  · cases h with
    | unknownComposable mem named missing =>
      refine ⟨fun hp => ?_, .inr ⟨_, mem, named⟩⟩
      obtain ⟨d, hd, rfl⟩ := List.mem_map.1 hp
      -- all declared composables are registered when components are added
      rcases registerComposables_cases circuit b hnames with
        ⟨names', _, hok, hnests, -⟩ | ⟨_, _, -, herror⟩ | ⟨_, _, -, -, -, herror⟩
      · rw [hregister] at hok
        cases hok
        obtain ⟨id, outer, hstands⟩ := hnests.stands d hd
        rw [hstands.lookup_eq] at missing
        cases missing
      · rw [hregister] at herror
        cases herror
      · rw [hregister] at herror
        cases herror
  · cases h

/-- What the errors about containment say.  A cycle is reported exactly for the composable that is
stuck, when its own parent is declared; the parent names lead into a cycle then, or else to a
parent farther out that is not declared.  An unknown composable is one that is named as a parent,
by the composable that is stuck or by a component, and not declared. -/
theorem replay_containment_errors (numbering : PinNumbering) (b : Build α) :
    (∀ n, (∃ b', circuit.replay numbering b = .error (.containmentCycle n) b') ↔
      ∃ d p, Stuck circuit.composables d ∧ d.name = n ∧ d.parent = some p ∧
        p ∈ circuit.composables.map (·.name)) ∧
    (∀ d, Stuck circuit.composables d →
      (d.Circles circuit.composables ↔ ¬d.Dangles circuit.composables)) ∧
    (∀ p b', circuit.replay numbering b = .error (.unknownComposable p) b' →
      p ∉ circuit.composables.map (·.name) ∧
        ((∃ d, Stuck circuit.composables d ∧ d.parent = some p) ∨
          ∃ c ∈ circuit.components, c.parent = some p)) ∧
    ∀ d p, Stuck circuit.composables d → d.parent = some p →
      p ∉ circuit.composables.map (·.name) →
        ∃ b', circuit.replay numbering b = .error (.unknownComposable p) b' := by
  refine ⟨replay_containmentCycle_iff hnames, fun d hd => ?_,
    fun p b' h => replay_unknownComposable hnames h, fun d p hd hp hmissing => ?_⟩
  · have hwrong := (ComposableDef.not_rooted_iff hnames hd.mem).1 hd.not_rooted
    exact ⟨fun hcircles hdangles => hdangles.not_circles hnames hcircles, hwrong.resolve_right⟩
  · obtain ⟨b', herror⟩ := hd.registerComposables hnames b
    rcases stuckError_cases circuit.composables hp with ⟨hmem, -⟩ | ⟨-, heq⟩
    · exact absurd hmem hmissing
    · exact ⟨b', replay_of_registerComposables (heq ▸ herror)⟩

end Blame

/-- Two composables lie inside each other; a third one, declared before them, lies in one of
them. -/
def spiral : CircuitDef ℚ where
  name := "spiral"
  composables := [{ name := "outer" }, { name := "c", parent := some "a" },
    { name := "a", parent := some "b" }, { name := "b", parent := some "a" }]

/-- The cycle is reported for the composable that leads into it. -/
theorem spiral_stuck :
    (spiral.composables.map (·.name)).Nodup ∧
      Stuck spiral.composables { name := "c", parent := some "a" } ∧
      ∃ b', spiral.replay literalPins (new "spiral") = .error (.containmentCycle "c") b' := by
  have hnames : (spiral.composables.map (·.name)).Nodup := by decide
  let c : ComposableDef ℚ := { name := "c", parent := some "a" }
  let a : ComposableDef ℚ := { name := "a", parent := some "b" }
  let d : ComposableDef ℚ := { name := "b", parent := some "a" }
  have hca : c.Inside spiral.composables a := ⟨by simp [spiral, a], rfl⟩
  have had : a.Inside spiral.composables d := ⟨by simp [spiral, d], rfl⟩
  have hda : d.Inside spiral.composables a := ⟨by simp [spiral, a], rfl⟩
  have hcircles : c.Circles spiral.composables := ⟨a, .single hca, .tail (.single had) hda⟩
  have hc : c ∈ spiral.composables := List.mem_cons_of_mem _ List.mem_cons_self
  have hstuck : Stuck spiral.composables c :=
    { placed := by simp [spiral, authorPlacement]
      first := ⟨[{ name := "outer" }], [a, d], rfl, by simpa using .outermost rfl⟩
      not_rooted := (ComposableDef.not_rooted_iff hnames hc).2 (.inl hcircles) }
  exact ⟨hnames, hstuck, ((replay_containment_errors hnames literalPins (new "spiral")).1 "c").2
    ⟨c, "a", hstuck, rfl, rfl, by decide⟩⟩

/-- A composable lies in one whose parent is not declared. -/
def brokenChain : CircuitDef ℚ where
  name := "broken"
  composables := [{ name := "a", parent := some "b" }, { name := "b", parent := some "x" }]

/-- A cycle is reported although there is none. -/
theorem brokenChain_no_cycle :
    (brokenChain.composables.map (·.name)).Nodup ∧
      (∃ b', brokenChain.replay literalPins (new "broken") = .error (.containmentCycle "a") b') ∧
      ∀ d, ¬TransGen (ComposableDef.Inside brokenChain.composables) d d := by
  have hnames : (brokenChain.composables.map (·.name)).Nodup := by decide
  let a : ComposableDef ℚ := { name := "a", parent := some "b" }
  let c : ComposableDef ℚ := { name := "b", parent := some "x" }
  have hac : a.Inside brokenChain.composables c := ⟨by simp [brokenChain, c], rfl⟩
  have hdangles : ∀ d ∈ brokenChain.composables, d.Dangles brokenChain.composables := by
    intro d hd
    rcases List.mem_pair.1 hd with rfl | rfl
    · exact ⟨c, "x", .single hac, rfl, by decide⟩
    · exact ⟨c, "x", .refl, rfl, by decide⟩
  have ha : a ∈ brokenChain.composables := List.mem_cons_self
  have hstuck : Stuck brokenChain.composables a :=
    { placed := by simp [brokenChain, authorPlacement]
      first := ⟨[], [c], rfl, by simp⟩
      not_rooted := (ComposableDef.not_rooted_iff hnames ha).2 (.inr (hdangles a ha)) }
  refine ⟨hnames, (replay_containmentCycle_iff hnames "a").2
    ⟨a, "b", hstuck, rfl, rfl, by decide⟩, fun d hcycle => ?_⟩
  obtain ⟨e, -, hinside⟩ := TransGen.tail'_iff.1 hcycle
  exact (hdangles d hinside.1).not_circles hnames ⟨d, .refl, hcycle⟩

end CircuitDef

end Schematic
