import Schematic.Circuit.Replay
import Schematic.Proofs.Circuit.WellFormed

/-!
# Registering what a definition declares

The first half of playing a definition registers the declared composables, outer
ones first, and adds the declared components in order.  The numbers they get are
kept by name, and a name leads to what is declared under it.

## Main definitions

* `Build.composableNames`, `CircuitDef.Named` — the composables by name.
* `CircuitDef.Registers` — what registering composables does to a circuit.
* `CircuitDef.Refers` — the components by reference designator.
* `ComponentDef.Declares` — a component is as it is declared.
* `CircuitDef.Adds` — what adding components does to a circuit.

## Main statements

* `CircuitDef.registerComposables_ok` — every declared composable is registered once.
* `CircuitDef.addComponents_ok` — the declared components are added in order.
-/

namespace Schematic

open Relation (ReflTransGen)

variable {α β γ : Type}

/-! ### Steps of playing a definition -/

namespace ReplayM

variable {x : ReplayM α β} {f : β → ReplayM α γ} {b b' : Build α}

theorem bind_ok_iff {v : γ} :
    (x >>= f) b = .ok v b' ↔ ∃ a b₁, x b = .ok a b₁ ∧ f a b₁ = .ok v b' :=
  stateful_bind_ok_iff

@[simp] theorem pure_apply (v : β) : (pure v : ReplayM α β) b = .ok v b := rfl

@[simp] theorem throw_apply (e : CircuitError) : (throw e : ReplayM α β) b = .error e b := rfl

@[simp] theorem get_bind_apply (f : Build α → ReplayM α γ) : (get >>= f) b = f b b := rfl

/-- A building operation succeeds as it does by itself. -/
theorem ofBuild_ok_iff {x : BuildM α β} {v : β} : ofBuild x b = .ok v b' ↔ x b = .ok v b' := by
  rw [ofBuild]
  cases x b <;> simp

end ReplayM

/-! ### Composables -/

/-- A change of one entry that does not show in a view of the entries. -/
theorem map_modify_of_keeps {xs : Array β} {g : β → γ} (f : β → β) (hf : ∀ x, g (f x) = g x)
    (i : Nat) : (xs.modify i f).map g = xs.map g := by
  apply Array.ext_getElem?
  intro j
  rw [Array.getElem?_map, Array.getElem?_map, Array.getElem?_modify]
  split <;> simp [Function.comp_def, hf]

namespace Build

/-- The names of the composables, in order. -/
def composableNames (b : Build α) : Array String := b.composables.map (·.name)

theorem composableNames_addChild (b : Build α) (parent : Option ComposableId) (child : Child) :
    (b.addChild parent child).composableNames = b.composableNames := by
  cases parent with
  | none => rfl
  | some id =>
    exact map_modify_of_keeps (fun c : Composable α => { c with children := c.children ++ [child] })
      (fun _ => rfl) id

theorem composableNames_putComposable (b : Build α) (name : String)
    (parent : Option ComposableId) (position : Option (Placement α)) :
    (b.putComposable name parent position).composableNames = b.composableNames.push name := by
  rw [putComposable, composableNames_addChild]
  exact Array.map_push

end Build

open Build

namespace CircuitDef

theorem lookup_cons_eq (name other : String) (id : Nat) (names : Names) :
    List.lookup other ((name, id) :: names) =
      if other = name then some id else names.lookup other := by
  split
  · next h => rw [h, List.lookup_cons_self]
  · next h => rw [List.lookup_cons, beq_false_of_ne h]

/-- Names have the numbers of the composables of these names. -/
structure Named (composables : Names) (b : Build α) : Prop where
  /-- A number stands for a composable of the name. -/
  stands : ∀ name id, composables.lookup name = some id → b.composableNames[id]? = some name
  /-- Every composable is found by its name. -/
  found : ∀ name ∈ b.composableNames, (composables.lookup name).isSome = true

/-- Composables of some names are registered, and nothing else is done. -/
structure Registers (b b' : Build α) (names : List String) : Prop where
  /-- The circuit only grows. -/
  chain : ReflTransGen Growth b b'
  /-- The composables come after those there are. -/
  names_eq : b'.composableNames = b.composableNames ++ names.toArray
  /-- Pin keys are given the same form. -/
  numbering_eq : b'.numbering = b.numbering
  /-- There are the same components. -/
  components_eq : b'.components = b.components
  /-- There are the same pins. -/
  pins_eq : b'.pins = b.pins
  /-- There are the same nets. -/
  nets_eq : b'.nets = b.nets

variable {b b' : Build α} {built built' : Names}

theorem Registers.refl (b : Build α) : Registers b b [] :=
  ⟨.refl, by simp, rfl, rfl, rfl, rfl⟩

theorem Registers.trans {b₁ : Build α} {names names' : List String} (h : Registers b b₁ names)
    (h' : Registers b₁ b' names') : Registers b b' (names ++ names') where
  chain := h.chain.trans h'.chain
  names_eq := by simp [h'.names_eq, h.names_eq]
  numbering_eq := h'.numbering_eq.trans h.numbering_eq
  components_eq := h'.components_eq.trans h.components_eq
  pins_eq := h'.pins_eq.trans h.pins_eq
  nets_eq := h'.nets_eq.trans h.nets_eq

theorem registers_addComposable {name : String} {parent : Option ComposableId}
    {position : Option (Placement α)} {id : ComposableId}
    (h : addComposable name parent position b = .ok id b') : Registers b b' [name] := by
  obtain ⟨known, -, rfl⟩ := addComposable_ok_iff.1 h
  exact {
    chain := .single (.composable known)
    names_eq := by rw [composableNames_putComposable, Array.push_eq_append]
    numbering_eq := by cases parent <;> rfl
    components_eq := by simp
    pins_eq := by simp
    nets_eq := by simp }

theorem Named.registered (h : Named built b) {name : String} {parent : Option ComposableId}
    {position : Option (Placement α)} {id : ComposableId}
    (ok : addComposable name parent position b = .ok id b') : Named ((name, id) :: built) b' := by
  obtain ⟨-, rfl, rfl⟩ := addComposable_ok_iff.1 ok
  have hsize : b.composables.size = b.composableNames.size := by simp [composableNames]
  constructor
  case stands =>
    intro other k hk
    rw [lookup_cons_eq] at hk
    rw [composableNames_putComposable, Array.getElem?_push]
    split at hk
    · next heq => rw [← Option.some.inj hk, if_pos hsize, heq]
    · have hold := h.stands other k hk
      have hlt := (Array.getElem?_eq_some_iff.1 hold).1
      rw [if_neg (Nat.ne_of_lt hlt), hold]
  case found =>
    intro other hother
    rw [composableNames_putComposable, Array.mem_push] at hother
    rw [lookup_cons_eq]
    split
    · rfl
    · next hne => exact h.found other (hother.resolve_right hne)

variable [Scalar α]

omit [Scalar α] in
theorem liftExcept_ok_iff {x : Except CircuitError β} {v : β} :
    (registerReady.liftExcept x : ReplayM α β) b = .ok v b' ↔ x = .ok v ∧ b = b' := by
  cases x <;> simp [registerReady.liftExcept]

/-- The first of the composables to be registered is registered, or it has to wait. -/
theorem registerReady_cons {d : ComposableDef α} {ds waiting : List (ComposableDef α)}
    (h : registerReady built (d :: ds) b = .ok (built', waiting) b') :
    (∃ parent position id b₁, addComposable d.name parent position b = .ok id b₁ ∧
      registerReady ((d.name, id) :: built) ds b₁ = .ok (built', waiting) b') ∨
    ∃ rest, waiting = d :: rest ∧ registerReady built ds b = .ok (built', rest) b' := by
  cases hparent : d.parent with
  | none =>
    simp only [registerReady, hparent, ReplayM.bind_ok_iff, liftExcept_ok_iff,
      ReplayM.ofBuild_ok_iff] at h
    obtain ⟨position, _, ⟨-, rfl⟩, id, b₁, hadd, hrest⟩ := h
    exact .inl ⟨none, position, id, b₁, hadd, hrest⟩
  | some name =>
    cases houter : built.lookup name with
    | some outer =>
      simp only [registerReady, hparent, houter, ReplayM.bind_ok_iff, liftExcept_ok_iff,
        ReplayM.ofBuild_ok_iff] at h
      obtain ⟨position, _, ⟨-, rfl⟩, id, b₁, hadd, hrest⟩ := h
      exact .inl ⟨some outer, position, id, b₁, hadd, hrest⟩
    | none =>
      simp only [registerReady, hparent, houter] at h
      obtain ⟨⟨built₁, rest⟩, b₁, hrest, heq⟩ := ReplayM.bind_ok_iff.1 h
      cases heq
      exact .inr ⟨rest, rfl, hrest⟩

/-- What can be registered is registered, in some order, and what has to wait is kept. -/
theorem registerReady_ok {ds waiting : List (ComposableDef α)} (hbuilt : Named built b)
    (h : registerReady built ds b = .ok (built', waiting) b') :
    Named built' b' ∧ ∃ done, Registers b b' done ∧
      (done ++ waiting.map (·.name)).Perm (ds.map (·.name)) := by
  induction ds generalizing built waiting b with
  | nil =>
    cases h
    exact ⟨hbuilt, [], .refl _, .refl _⟩
  | cons d ds ih =>
    rcases registerReady_cons h with ⟨parent, position, id, b₁, hadd, hrest⟩ | ⟨rest, rfl, hrest⟩
    · obtain ⟨hbuilt', done, hdone, hperm⟩ := ih (hbuilt.registered hadd) hrest
      exact ⟨hbuilt', d.name :: done, (registers_addComposable hadd).trans hdone, hperm.cons _⟩
    · obtain ⟨hbuilt', done, hdone, hperm⟩ := ih hbuilt hrest
      refine ⟨hbuilt', done, hdone, ?_⟩
      rw [List.map_cons, List.map_cons]
      exact List.perm_middle.trans (hperm.cons _)

theorem registerAll_ok {declared pending : List (ComposableDef α)} (hbuilt : Named built b)
    (h : registerAll declared built pending b = .ok built' b') :
    Named built' b' ∧ ∃ done, Registers b b' done ∧ done.Perm (pending.map (·.name)) := by
  -- by induction on the number of composables that are pending: each round leaves fewer
  induction hsize : pending.length using Nat.strongRecOn generalizing built pending b with
  | ind size ih =>
    rw [registerAll] at h
    obtain ⟨⟨built₁, waiting⟩, b₁, hready, h⟩ := ReplayM.bind_ok_iff.1 h
    obtain ⟨hbuilt₁, done, hdone, hperm⟩ := registerReady_ok hbuilt hready
    cases waiting with
    | nil =>
      cases h
      exact ⟨hbuilt₁, done, hdone, by simpa using hperm⟩
    | cons stuck rest =>
      dsimp only at h
      split at h
      · next hlt =>
        obtain ⟨hbuilt', more, hmore, hperm'⟩ := ih _ (hsize ▸ hlt) hbuilt₁ h rfl
        exact ⟨hbuilt', done ++ more, hdone.trans hmore, (hperm'.append_left done).trans hperm⟩
      · cases h

/-- Every declared composable is registered once. -/
theorem registerComposables_ok {circuit : CircuitDef α} {composables : Names}
    (hnone : b.composables = #[]) (h : circuit.registerComposables b = .ok composables b') :
    Named composables b' ∧ ∃ done, Registers b b' done ∧
      done.Perm (circuit.composables.map (·.name)) := by
  refine registerAll_ok ⟨by rintro _ _ ⟨⟩, ?_⟩ h
  simp [composableNames, hnone]

/-! ### Components -/

/-- The components are found under their reference designators, and nothing else is. -/
def Refers (refs : Names) (b : Build α) : Prop :=
  ∀ reference i, refs.lookup reference = some i ↔
    ∃ c, b.components[i]? = some c ∧ c.reference = reference

end CircuitDef

variable [Scalar α] {b b' : Build α}

/-- A component is as it is declared, in the composable that `find` finds by the name of the
declared parent. -/
structure ComponentDef.Declares (find : String → Option ComposableId) (d : ComponentDef α)
    (c : Component α) : Prop where
  /-- It has the reference designator. -/
  reference_eq : c.reference = d.reference
  /-- It is drawn with the symbol. -/
  symbol_eq : c.symbol = d.symbol
  /-- It has the value. -/
  value_eq : c.value = d.value
  /-- It has the footprint. -/
  footprint_eq : c.footprint = d.footprint
  /-- It has the tag. -/
  group_eq : c.group = d.group
  /-- It is placed where the author says. -/
  position_ok : authorPlacement d.reference d.at? = .ok c.position
  /-- It stays in its place when the author gives one. -/
  fixed_eq : c.fixed = c.position.isSome
  /-- It is no marker. -/
  not_marker : c.marker = false
  /-- It lies in the composable that its declaration names, if it names one. -/
  parent_eq : c.parent = d.parent.bind find
  /-- There is such a composable. -/
  parent_known : ∀ name, d.parent = some name → (find name).isSome = true

namespace CircuitDef

/-- Components are added as they are declared, and nothing else is done. -/
structure Adds (composables : Names) (ds : List (ComponentDef α)) (b b' : Build α) : Prop where
  /-- The circuit only grows. -/
  chain : ReflTransGen Growth b b'
  /-- The components come after those there are, in order and without pins. -/
  components : ∃ cs : List (Component α), b'.components = b.components ++ cs.toArray ∧
    List.Forall₂ (ComponentDef.Declares fun name => composables.lookup name) ds cs ∧
      ∀ c ∈ cs, c.pins = ∅
  /-- Pin keys are given the same form. -/
  numbering_eq : b'.numbering = b.numbering
  /-- There are composables of the same names. -/
  names_eq : b'.composableNames = b.composableNames
  /-- There are the same pins. -/
  pins_eq : b'.pins = b.pins
  /-- There are the same nets. -/
  nets_eq : b'.nets = b.nets

variable {composables refs refs' : Names}

/-- Adding a component puts what its declaration says. -/
theorem addComponents_cons {d : ComponentDef α} {ds : List (ComponentDef α)}
    (h : addComponents composables refs (d :: ds) b = .ok refs' b') :
    refs.lookup d.reference = none ∧ ∃ spec id b₁, addComponent spec b = .ok id b₁ ∧
      d.Declares (fun name => composables.lookup name) (spec.component id) ∧
      addComponents composables ((d.reference, id) :: refs) ds b₁ = .ok refs' b' := by
  rw [addComponents] at h
  cases hdup : refs.lookup d.reference with
  | some i =>
    simp only [hdup, Option.isSome_some, if_true, ReplayM.bind_ok_iff, ReplayM.throw_apply,
      reduceCtorEq, false_and, exists_false] at h
  | none =>
    simp only [hdup, Option.isSome_none, Bool.false_eq_true, if_false, ReplayM.bind_ok_iff,
      liftExcept_ok_iff] at h
    obtain ⟨position, _, ⟨hposition, rfl⟩, h⟩ := h
    refine ⟨rfl, ?_⟩
    -- with the parent found, what is left is one call
    cases hparent : d.parent with
    | none =>
      simp only [hparent, ReplayM.bind_ok_iff, ReplayM.pure_apply, ReplayM.ofBuild_ok_iff] at h
      obtain ⟨_, _, ⟨⟩, id, b₁, hadd, hrest⟩ := h
      exact ⟨_, id, b₁, hadd, ⟨rfl, rfl, rfl, rfl, rfl, hposition, rfl, rfl, by rw [hparent]; rfl,
        by rw [hparent]; rintro _ ⟨⟩⟩, hrest⟩
    | some name =>
      cases houter : composables.lookup name with
      | none =>
        simp only [hparent, houter, ReplayM.bind_ok_iff, ReplayM.throw_apply, reduceCtorEq,
          false_and, exists_false] at h
      | some outer =>
        simp only [hparent, houter, ReplayM.bind_ok_iff, ReplayM.pure_apply,
          ReplayM.ofBuild_ok_iff] at h
        obtain ⟨_, _, ⟨⟩, id, b₁, hadd, hrest⟩ := h
        exact ⟨_, id, b₁, hadd, ⟨rfl, rfl, rfl, rfl, rfl, hposition, rfl, rfl,
          by rw [hparent]; exact houter.symm,
          by rw [hparent]; rintro _ ⟨⟩; rw [houter]; rfl⟩, hrest⟩

omit [Scalar α] in
theorem Refers.added (h : Refers refs b) {spec : ComponentSpec α} {id : ComponentId}
    (new : refs.lookup spec.reference = none) (ok : addComponent spec b = .ok id b') :
    Refers ((spec.reference, id) :: refs) b' := by
  obtain ⟨-, rfl, rfl⟩ := addComponent_ok_iff.1 ok
  intro reference i
  rw [putComponent_components, Array.getElem?_push, lookup_cons_eq]
  by_cases hi : i = b.components.size
  · subst hi
    have hold : refs.lookup reference ≠ some b.components.size := fun hlookup => by
      obtain ⟨c, hc, -⟩ := (h reference _).1 hlookup
      simp at hc
    by_cases heq : reference = spec.reference
    · simp [heq, ComponentSpec.component]
    · simp [heq, hold, ComponentSpec.component, Ne.symm heq]
  · by_cases heq : reference = spec.reference
    · subst heq
      rw [if_pos rfl, if_neg hi, ← h, new]
      simp [Ne.symm hi]
    · rw [if_neg heq, if_neg hi, h]

theorem adds_addComponent {spec : ComponentSpec α} {id : ComponentId} {d : ComponentDef α}
    (hd : d.Declares (fun name => composables.lookup name) (spec.component id))
    (ok : addComponent spec b = .ok id b') :
    Adds composables [d] b b' := by
  obtain ⟨known, rfl, rfl⟩ := addComponent_ok_iff.1 ok
  exact {
    chain := .single (.component known)
    components := ⟨[spec.component b.components.size], by simp, .cons hd .nil, by simp; rfl⟩
    numbering_eq := by rw [putComponent]; cases spec.parent <;> rfl
    names_eq := composableNames_addChild ..
    pins_eq := putComponent_pins ..
    nets_eq := putComponent_nets .. }

theorem Adds.refl (b : Build α) : Adds composables [] b b :=
  ⟨.refl, ⟨[], by simp, .nil, by simp⟩, rfl, rfl, rfl, rfl⟩

theorem Adds.trans {b₁ : Build α} {ds ds' : List (ComponentDef α)} (h : Adds composables ds b b₁)
    (h' : Adds composables ds' b₁ b') : Adds composables (ds ++ ds') b b' := by
  obtain ⟨cs, hcs, hdeclares, hbare⟩ := h.components
  obtain ⟨cs', hcs', hdeclares', hbare'⟩ := h'.components
  exact {
    chain := h.chain.trans h'.chain
    components := by
      refine ⟨cs ++ cs', by simp [hcs', hcs], List.rel_append hdeclares hdeclares', ?_⟩
      intro c hc
      exact (List.mem_append.1 hc).elim (hbare c) (hbare' c)
    numbering_eq := h'.numbering_eq.trans h.numbering_eq
    names_eq := h'.names_eq.trans h.names_eq
    pins_eq := h'.pins_eq.trans h.pins_eq
    nets_eq := h'.nets_eq.trans h.nets_eq }

/-- The declared components are added in order, and are found by their references. -/
theorem addComponents_ok {ds : List (ComponentDef α)} (hrefs : Refers refs b)
    (h : addComponents composables refs ds b = .ok refs' b') :
    Refers refs' b' ∧ Adds composables ds b b' := by
  induction ds generalizing refs b with
  | nil =>
    cases h
    exact ⟨hrefs, .refl _⟩
  | cons d ds ih =>
    obtain ⟨hnew, spec, id, b₁, hadd, hd, hrest⟩ := addComponents_cons h
    have hreference : spec.reference = d.reference := hd.reference_eq
    obtain ⟨hrefs', hadds⟩ := ih (hreference ▸ hrefs.added (hreference ▸ hnew) hadd) hrest
    exact ⟨hrefs', (adds_addComponent hd hadd).trans hadds⟩

end CircuitDef

end Schematic
