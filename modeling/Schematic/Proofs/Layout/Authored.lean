import Schematic.Proofs.Circuit.Compaction
import Schematic.Proofs.Layout.Frames

/-!
# What the author has placed

In a finished circuit whatever has a position was placed by the author, since a
position can only be given to a component or composable when it is added.

## Main definitions

* `Build.FixedPlaced` — what has a position is fixed.
* `Netlist.Authored` — a circuit in which the author has placed some things, turned
  by whole quarter turns.

## Main statements

* `Build.fixedPlaced_run` — a circuit under construction keeps to it.
* `Build.authored_toNetlist` — so does every finished circuit.
-/

namespace Schematic

/-- All entries of an array have a property. -/
def EveryEntry {β : Type} (P : β → Prop) (xs : Array β) : Prop :=
  ∀ (i : Nat) x, xs[i]? = some x → P x

section EveryEntry

variable {β : Type} {P : β → Prop} {xs : Array β}

theorem EveryEntry.push (h : EveryEntry P xs) {x : β} (hx : P x) : EveryEntry P (xs.push x) := by
  intro i y hy
  rw [Array.getElem?_push] at hy
  split at hy
  · cases hy
    exact hx
  · exact h i y hy

theorem EveryEntry.modify (h : EveryEntry P xs) (i : Nat) {f : β → β} (hf : ∀ x, P x → P (f x)) :
    EveryEntry P (xs.modify i f) := by
  intro j y hy
  rw [Array.getElem?_modify] at hy
  split at hy
  · obtain ⟨x, hx, rfl⟩ := Option.map_eq_some_iff.1 hy
    exact hf x (h j x hx)
  · exact h j y hy

end EveryEntry

variable {α : Type}

namespace Build

variable {b b' : Build α}

/-- What has a position is fixed, and nothing else is. -/
structure FixedPlaced (b : Build α) : Prop where
  /-- For components. -/
  component : EveryEntry (fun c => c.fixed = c.position.isSome) b.components
  /-- For composables. -/
  composable : EveryEntry (fun c => c.fixed = c.position.isSome) b.composables

theorem FixedPlaced.addChild (h : b.FixedPlaced) (parent : Option ComposableId) (child : Child) :
    (b.addChild parent child).FixedPlaced := by
  cases parent with
  | none => exact h
  | some i => exact { h with composable := h.composable.modify i fun _ hc => hc }

/-- Every elementary change leaves what has a position fixed. -/
theorem FixedPlaced.grow (h : b.FixedPlaced) (g : Growth b b') : b'.FixedPlaced := by
  cases g with
  | @component spec known =>
    refine addChild (b := { b with components := b.components.push (spec.component _) }) ?_ _ _
    exact { h with component := h.component.push rfl }
  | marker bare => exact { h with component := h.component.modify _ fun _ hc => hc }
  | composable known =>
    refine addChild (b := { b with composables := b.composables.push _ }) ?_ _ _
    exact { h with composable := h.composable.push rfl }
  | net => exact { h with }
  | power => exact { h with }
  | numbering => exact { h with }
  | pin known new => exact { h with component := h.component.modify _ fun _ hc => hc }
  | attach live known free room => exact { h with }
  | absorb ne live other room => exact ⟨by simpa using h.component, by simpa using h.composable⟩
  | noConnect on beside isMarker => exact { h with }
  | port live => exact { h with composable := h.composable.modify _ fun _ hc => hc }
  | interface => exact { h with composable := h.composable.modify _ fun _ hc => hc }

/-- After every run what has a position is fixed. -/
theorem fixedPlaced_run (name : String) (ops : List (Operation α)) :
    ((new name).run ops).FixedPlaced :=
  run_induction
    (fun _ =>
      ⟨fun _ _ h => absurd h (by simp [cleared]), fun _ _ h => absurd h (by simp [cleared])⟩)
    (fun _ _ g h => h.grow g) name ops

end Build

namespace Netlist

variable {n : Netlist α}

theorem WellFormed.nested (h : n.WellFormed) : n.Nested := by
  intro i p hp
  obtain ⟨c, hc, hparent⟩ := Option.bind_eq_some_iff.1 hp
  exact (h.outer_lt hc hparent).2

variable [Scalar α] [ExactScalar α]

/-- A circuit in which the author has placed some things, turned by whole quarter turns. -/
structure Authored (n : Netlist α) : Prop where
  /-- Its numbers stand for entries. -/
  wellFormed : n.WellFormed
  /-- The author has placed the components that have a position. -/
  fixed : EveryEntry (fun c => c.fixed = c.position.isSome) n.components
  /-- The author has placed the composables that have a position. -/
  composableFixed : EveryEntry (fun c => c.fixed = c.position.isSome) n.composables
  /-- Components are turned by quarter turns. -/
  square : EveryEntry (fun c => ∀ p ∈ c.position, p.Square) n.components
  /-- Composables are turned by quarter turns. -/
  composableSquare : EveryEntry (fun c => ∀ p ∈ c.position, p.Square) n.composables

theorem Authored.nested (h : n.Authored) : n.Nested := h.wellFormed.nested

theorem Authored.numbered (h : n.Authored) {i : ComponentId} {c : Component α}
    (hc : n.components[i]? = some c) : c.id = i :=
  h.wellFormed.circuit.numbered.component i c hc

end Netlist

/-- A circuit that is handed out holds what the author has placed. -/
theorem Build.authored_toNetlist [Scalar α] [ExactScalar α] {b : Build α} (hwf : b.WellFormed)
    (hfixed : b.FixedPlaced)
    (hsquare : EveryEntry (fun c => ∀ p ∈ c.position, p.Square) b.toNetlist.components)
    (hcomposables : EveryEntry (fun c => ∀ p ∈ c.position, p.Square) b.toNetlist.composables) :
    b.toNetlist.Authored where
  wellFormed := toNetlist_wellFormed hwf
  fixed := hfixed.component
  composableFixed i c hc := by
    rw [toNetlist_composables, Array.getElem?_map] at hc
    obtain ⟨c', hc', rfl⟩ := Option.map_eq_some_iff.1 hc
    exact hfixed.composable i c' hc'
  square := hsquare
  composableSquare := hcomposables

/-- So does one that was built and then handed out, if everything in it is turned by quarter
turns. -/
theorem Build.authored_of_drain [Scalar α] [ExactScalar α] {name : String}
    {ops : List (Operation α)} {n : Netlist α} {b : Build α}
    (hdrain : drain ((new name).run ops) = .ok n b)
    (hcomponents : ∀ c ∈ n.components, ∀ p ∈ c.position, IsQuarter p.rotation)
    (hcomposables : ∀ c ∈ n.composables, ∀ p ∈ c.position, IsQuarter p.rotation) :
    n.Authored := by
  cases hdrain
  exact authored_toNetlist (wellFormed_run name ops) (fixedPlaced_run name ops)
    (fun i c hc => hcomponents c (Array.mem_iff_getElem?.2 ⟨i, hc⟩))
    (fun i c hc => hcomposables c (Array.mem_iff_getElem?.2 ⟨i, hc⟩))

end Schematic
