import Schematic.Proofs.Geometry.Composition
import Schematic.Proofs.Layout.Authored

/-!
# What moves along

To place a component changes where that component lies, and nothing else.  To place a
composable changes where it lies and where everything in it lies, at any depth, and
nothing else.  With exact coordinates and quarter turns what is in it moves as one rigid
body: the motion that brings its old frame to the new one brings everything in it along.

All this holds of a netlist that is handed out, and it goes on to hold whatever has been
placed in it since.

## Main definitions

* `Move`, `Netlist.after`, `Netlist.run` — things that are placed, one after the other.
* `Netlist.holder?` — the composable that a component is in.
* `Netlist.MovesWithin` — what changes when something is placed.
* `Netlist.QuarterTurned`, `Netlist.MovesRigidly` — how what is in a composable moves.

## Main statements

* `Netlist.nested_run` — parents stay as they are.
* `Netlist.movesWithin_of_nested`, `Netlist.movesRigidly_of_nested` — what follows from
  that.
* `Build.drain_moves` — so it is with a netlist that is handed out.
-/

namespace Schematic

/-- Something is placed in the frame of its parent. -/
inductive Move (α : Type) where
  /-- A component. -/
  | component (id : ComponentId) (position : Placement α)
  /-- A composable. -/
  | composable (id : ComposableId) (position : Placement α)

variable {α : Type}

namespace Netlist

variable {n : Netlist α}

/-- The netlist after a move. -/
def after (n : Netlist α) : Move α → Netlist α
  | .component id position => n.setPosition id position
  | .composable id position => n.setComposablePosition id position

/-- The netlist after some moves. -/
def run (n : Netlist α) (moves : List (Move α)) : Netlist α := moves.foldl after n

/-- The composable that a component is in. -/
def holder? (n : Netlist α) (i : ComponentId) : Option ComposableId :=
  n.components[i]?.bind (·.parent)

/-! ### Parents -/

theorem outer?_setComposablePosition (n : Netlist α) (c : ComposableId) (p : Placement α)
    (j : ComposableId) : (n.setComposablePosition c p).outer? j = n.outer? j := by
  rw [outer?, getElem?_setComposablePosition, outer?]
  split
  · cases n.composables[j]? <;> rfl
  · rfl

/-- A move leaves the parents of composables as they are. -/
theorem outer?_after (n : Netlist α) (move : Move α) (j : ComposableId) :
    (n.after move).outer? j = n.outer? j := by
  cases move with
  | component id position => rfl
  | composable id position => exact outer?_setComposablePosition n id position j

theorem nested_after (h : n.Nested) (move : Move α) : (n.after move).Nested :=
  fun i p hp => h i p (n.outer?_after move i ▸ hp)

/-- After any moves parents have smaller numbers. -/
theorem nested_run (h : n.Nested) (moves : List (Move α)) : (n.run moves).Nested := by
  induction moves generalizing n with
  | nil => exact h
  | cons move moves ih => exact ih (nested_after h move)

/-! ### What changes -/

section Within

variable [Scalar α]

/-- What changes when something is placed: a component and nothing else, or a composable and
what it is around. -/
structure MovesWithin (n : Netlist α) : Prop where
  /-- The chains outward hold what is around. -/
  mem_ancestors : ∀ c parent, c ∈ n.ancestors parent ↔ n.Around c parent
  /-- A component that is placed lies there in its frame. -/
  component : ∀ d p, d < n.components.size →
    (n.setPosition d p).absolute? d = some ((n.parentFrame d).compose p)
  /-- The other components stay where they are. -/
  other_component : ∀ d p i, i ≠ d → (n.setPosition d p).absolute? i = n.absolute? i
  /-- So do all composables. -/
  any_composable : ∀ d p j, (n.setPosition d p).composableFrame j = n.composableFrame j
  /-- A composable that is placed lies there in the frame of its parent. -/
  composable : ∀ c p, c < n.composables.size →
    (n.setComposablePosition c p).composableFrame c = (n.outerFrame c).compose p
  /-- Composables that it is not around stay where they are. -/
  other_composable : ∀ c p j, ¬n.Around c (some j) →
    (n.setComposablePosition c p).composableFrame j = n.composableFrame j
  /-- So do components that it is not around. -/
  any_component : ∀ c p i, ¬n.Around c (n.holder? i) →
    (n.setComposablePosition c p).absolute? i = n.absolute? i

theorem composablePlacement_setComposablePosition_of_ne {c j : ComposableId} (h : j ≠ c)
    (p : Placement α) :
    (n.setComposablePosition c p).composablePlacement j = n.composablePlacement j := by
  rw [composablePlacement, composablePlacement, getElem?_setComposablePosition, if_neg h.symm]

theorem composablePlacement_setComposablePosition {c : ComposableId}
    (hc : c < n.composables.size) (p : Placement α) :
    (n.setComposablePosition c p).composablePlacement c = p := by
  rw [composablePlacement, getElem?_setComposablePosition, if_pos rfl,
    Array.getElem?_eq_getElem hc]
  rfl

theorem parentFrame_eq (n : Netlist α) (i : ComponentId) :
    n.parentFrame i = match n.holder? i with
      | some j => n.composableFrame j
      | none => .origin := rfl

omit [Scalar α] in
theorem holder?_setComposablePosition (n : Netlist α) (c : ComposableId) (p : Placement α)
    (i : ComponentId) : (n.setComposablePosition c p).holder? i = n.holder? i := rfl

/-- The frame of what a composable is not around stays as it is. -/
theorem composableFrame_setComposablePosition_of_not_around (h : n.Nested) {c j : ComposableId}
    (hj : ¬n.Around c (some j)) (p : Placement α) :
    (n.setComposablePosition c p).composableFrame j = n.composableFrame j := by
  refine composableFrame_congr h (n.outer?_setComposablePosition c p) fun k hk => ?_
  have hne : k ≠ c := fun heq => hj (heq ▸ hk)
  exact composablePlacement_setComposablePosition_of_ne hne p

theorem outerFrame_setComposablePosition (h : n.Nested) (c : ComposableId) (p : Placement α) :
    (n.setComposablePosition c p).outerFrame c = n.outerFrame c := by
  rw [outerFrame_eq, outerFrame_eq, outer?_setComposablePosition]
  cases hq : n.outer? c with
  | none => rfl
  | some q =>
    -- a composable is not around its own parent
    have hout : ¬n.Around c (some q) := fun hc => Nat.not_lt.2 (hc.le h) (h c q hq)
    exact composableFrame_setComposablePosition_of_not_around h hout p

theorem composableFrame_setComposablePosition (h : n.Nested) {c : ComposableId}
    (hc : c < n.composables.size) (p : Placement α) :
    (n.setComposablePosition c p).composableFrame c = (n.outerFrame c).compose p := by
  have hm : (n.setComposablePosition c p).Nested := nested_after h (.composable c p)
  rw [composableFrame_eq hm, outerFrame_setComposablePosition h,
    composablePlacement_setComposablePosition hc]

/-- Parents with smaller numbers are enough for a move to change only what it has to. -/
theorem movesWithin_of_nested (h : n.Nested) : n.MovesWithin where
  mem_ancestors c parent := mem_ancestors_iff h
  component d p hd := by rw [absolute?_setPosition hd, if_pos rfl]
  other_component d p i hi := by
    refine absolute?_congr ?_ (parentFrame_setPosition n d p i)
    rw [getElem?_setPosition, if_neg hi.symm]
  any_composable d p j := composableFrame_setPosition n d p j
  composable c p hc := composableFrame_setComposablePosition h hc p
  other_composable c p j hj := composableFrame_setComposablePosition_of_not_around h hj p
  any_component c p i hi := by
    refine absolute?_congr rfl ?_
    rw [parentFrame_eq, parentFrame_eq, holder?_setComposablePosition]
    cases hj : n.holder? i with
    | none => rfl
    | some j => exact composableFrame_setComposablePosition_of_not_around h (hj ▸ hi) p

end Within

/-! ### How it changes -/

section Rigidly

variable [Scalar α] [ExactScalar α]

/-- Whatever is placed is turned by whole quarter turns. -/
structure QuarterTurned (n : Netlist α) : Prop where
  /-- Components are. -/
  component : ∀ c ∈ n.components, ∀ p ∈ c.position, p.Square
  /-- Composables are. -/
  composable : ∀ c ∈ n.composables, ∀ p ∈ c.position, p.Square

theorem QuarterTurned.composablePlacement (h : n.QuarterTurned) (j : ComposableId) :
    (n.composablePlacement j).Square := by
  rw [Netlist.composablePlacement]
  cases hp : n.composables[j]?.bind (·.position) with
  | none => exact Placement.square_origin
  | some p =>
    obtain ⟨c, hc, hposition⟩ := Option.bind_eq_some_iff.1 hp
    exact h.composable c (Array.mem_of_getElem? hc) p hposition

theorem QuarterTurned.composableFrame (h : n.QuarterTurned) (hn : n.Nested) (j : ComposableId) :
    (n.composableFrame j).Square :=
  square_composableFrame hn h.composablePlacement j

/-- How things move when a composable is placed. -/
structure MovesRigidly (n : Netlist α) : Prop where
  /-- There is a motion that brings the old frame to the new one. -/
  exists_motion : ∀ c p, c < n.composables.size → p.Square → ∃ t : Placement α, t.Normal ∧
    (n.setComposablePosition c p).composableFrame c = t.compose (n.composableFrame c)
  /-- Whichever motion that is, it brings the frames of all composables within along. -/
  composable : ∀ c p (t : Placement α), t.Square →
    (n.setComposablePosition c p).composableFrame c = t.compose (n.composableFrame c) →
    ∀ j, n.Around c (some j) →
      (n.setComposablePosition c p).composableFrame j = t.compose (n.composableFrame j)
  /-- It brings all components within along as well. -/
  component : ∀ c p (t : Placement α), t.Square →
    (n.setComposablePosition c p).composableFrame c = t.compose (n.composableFrame c) →
    ∀ i, n.Around c (n.holder? i) →
      (n.setComposablePosition c p).absolute? i = (n.absolute? i).map t.compose

/-- The frames of all composables within a composable move as its own frame does. -/
theorem composableFrame_moved (h : n.Nested) (hturned : n.QuarterTurned) {c : ComposableId}
    {p t : Placement α} (ht : t.Square)
    (hc : (n.setComposablePosition c p).composableFrame c = t.compose (n.composableFrame c))
    {j : ComposableId} (hj : n.Around c (some j)) :
    (n.setComposablePosition c p).composableFrame j = t.compose (n.composableFrame j) := by
  have hm : (n.setComposablePosition c p).Nested := nested_after h (.composable c p)
  induction j using Nat.strongRecOn with
  | _ j ih =>
    by_cases heq : j = c
    · rw [heq]
      exact hc
    · have hout := (around_some_iff.1 hj).resolve_left (Ne.symm heq)
      cases hq : n.outer? j with
      | none => exact absurd (hq ▸ hout) not_around_none
      | some q =>
        have hframe := ih q (h j q hq) (hq ▸ hout)
        rw [composableFrame_eq hm, composableFrame_eq h, outerFrame_eq, outerFrame_eq,
          outer?_setComposablePosition, hq,
          composablePlacement_setComposablePosition_of_ne heq]
        simp only [hframe]
        exact Placement.compose_assoc ht (hturned.composableFrame h q)
          (hturned.composablePlacement j)

/-- Components within a composable move as its frame does. -/
theorem absolute?_moved (h : n.Nested) (hturned : n.QuarterTurned) {c : ComposableId}
    {p t : Placement α} (ht : t.Square)
    (hc : (n.setComposablePosition c p).composableFrame c = t.compose (n.composableFrame c))
    {i : ComponentId} (hi : n.Around c (n.holder? i)) :
    (n.setComposablePosition c p).absolute? i = (n.absolute? i).map t.compose := by
  cases hj : n.holder? i with
  | none => exact absurd (hj ▸ hi) not_around_none
  | some j =>
    have hframe := composableFrame_moved h hturned ht hc (hj ▸ hi)
    have hold : n.parentFrame i = n.composableFrame j := by rw [parentFrame_eq, hj]
    have hnew : (n.setComposablePosition c p).parentFrame i = t.compose (n.composableFrame j) := by
      rw [← hframe, parentFrame_eq, holder?_setComposablePosition, hj]
    rw [absolute?, absolute?, hnew, hold]
    change (n.components[i]?.bind (·.position)).map _ = _
    cases hq : n.components[i]?.bind (·.position) with
    | none => rfl
    | some q =>
      obtain ⟨d, hd, hposition⟩ := Option.bind_eq_some_iff.1 hq
      have hsquare : q.Square := hturned.component d (Array.mem_of_getElem? hd) q hposition
      exact congrArg some
        (Placement.compose_assoc ht (hturned.composableFrame h j) hsquare)

/-- Parents with smaller numbers and quarter turns are enough for rigid motions. -/
theorem movesRigidly_of_nested (h : n.Nested) (hturned : n.QuarterTurned) : n.MovesRigidly where
  exists_motion c p hc hp := by
    have hnormal := Placement.normal_compose
      (square_outerFrame h hturned.composablePlacement c) hp
    rw [composableFrame_setComposablePosition h hc]
    obtain ⟨t, ht, heq⟩ :=
      Placement.exists_compose_eq (hturned.composableFrame h c) hnormal
    exact ⟨t, ht, heq.symm⟩
  composable c p t ht hc j hj := composableFrame_moved h hturned ht hc hj
  component c p t ht hc i hi := absolute?_moved h hturned ht hc hi

end Rigidly

end Netlist

/-! ### Netlists that are handed out -/

/-- After every run a netlist is handed out.  Whatever is moved in it, the next move changes
only what it has to, and as long as everything is turned by quarter turns, what is in a
composable moves with it as one rigid body. -/
theorem Build.drain_moves [Scalar α] (name : String) (ops : List (Operation α)) :
    let b := (new name).run ops
    ∃ n, drain b = .ok n b.cleared ∧ ∀ moves : List (Move α),
      (n.run moves).MovesWithin ∧
        ∀ [ExactScalar α], (n.run moves).QuarterTurned → (n.run moves).MovesRigidly := by
  intro b
  have hwf : b.toNetlist.WellFormed := toNetlist_wellFormed (wellFormed_run name ops)
  refine ⟨b.toNetlist, rfl, fun moves => ?_⟩
  have hnested := Netlist.nested_run hwf.nested moves
  exact ⟨Netlist.movesWithin_of_nested hnested, Netlist.movesRigidly_of_nested hnested⟩

/-- A stage in an amplifier, a resistor in the stage, and another one beside the amplifier. -/
def stagedAmplifier : List (Operation ℚ) :=
  [.addComposable "amp" none (some ⟨100, 50, 90⟩), .addComposable "stage" (some 0) (some ⟨10, 0, 0⟩),
   .addComponent { symbol := "Device:R", reference := "R1", parent := some 1,
                   position := some ⟨5, 0, 90⟩ },
   .addComponent { symbol := "Device:R", reference := "R2", position := some ⟨0, 0, 0⟩ }]

/-- The amplifier is turned once more and moved; the resistor in its stage goes along, and the
other one stays. -/
theorem stagedAmplifier_moves :
    ∃ n, Build.drain ((Build.new "t").run stagedAmplifier) =
        .ok n ((Build.new "t").run stagedAmplifier).cleared ∧
      n.QuarterTurned ∧ n.MovesWithin ∧ n.MovesRigidly ∧
      (n.absolute? 0 == some ⟨100, 35, 180⟩) = true ∧
      ((n.setComposablePosition 0 ⟨20, 30, 180⟩).absolute? 0 ==
        (n.absolute? 0).map (Placement.compose ⟨-30, 130, 90⟩)) = true ∧
      ((n.setComposablePosition 0 ⟨20, 30, 180⟩).absolute? 0 == some ⟨5, 30, 270⟩) = true ∧
      ((n.setComposablePosition 0 ⟨20, 30, 180⟩).absolute? 1 == some ⟨0, 0, 0⟩) = true := by
  obtain ⟨n, hn, hmoves⟩ := Build.drain_moves "t" stagedAmplifier
  cases hn
  have hturned : ((Build.new "t").run stagedAmplifier).toNetlist.QuarterTurned :=
    ⟨by decide +kernel, by decide +kernel⟩
  obtain ⟨hwithin, hrigidly⟩ := hmoves []
  exact ⟨_, rfl, hturned, hwithin, hrigidly hturned, by decide +kernel, by decide +kernel,
    by decide +kernel, by decide +kernel⟩

end Schematic
