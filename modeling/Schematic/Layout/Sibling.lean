import Schematic.Circuit.Connection
import Schematic.Layout.Cluster
import Schematic.Layout.Force
import Schematic.Layout.Grid
import Schematic.Layout.Separation

/-!
# The members of one cluster

The members of a cluster are arranged without looking at anything else.  Those
whose placements the author chose stay where they are, unless they overlap and
have to be spread; the others are arranged by the strategy of the configuration.

## Main definitions

* `Sibling` — a member with its box, and `Sibling.footprint`, where it lies.
* `spreadFixed` — the members with those of the author spread.
* `arrangeInGrid`, `arrangeByForces` — the strategies.
* `arrangeSiblings` — the arrangement of all members.
-/

namespace Schematic

open Scalar

/-- A member of a cluster. -/
structure Sibling (α : Type) where
  /-- Its node. -/
  node : NodeId
  /-- The box around its origin when it is not turned. -/
  bounds : Rect α
  /-- The origin in the frame of the cluster. -/
  offset : Point α
  /-- The rotation in degrees. -/
  rotation : α
  /-- Whether the author chose the placement. -/
  fixed : Bool
  /-- The nets that join it to something. -/
  nets : List NetId
  deriving Repr

/-- The outcome for the members of a cluster. -/
structure SiblingLayout (α : Type) where
  /-- The members with their new offsets. -/
  siblings : List (Sibling α)
  /-- Whether the placements of the author were spread. -/
  spread : Bool
  /-- Why they could not be spread. -/
  failure : Option (SeparationFailure α)
  deriving Repr

variable {α : Type} [Scalar α]

namespace Sibling

/-- The box around the origin, with the rotation. -/
def box (s : Sibling α) : Rect α := placeBox s.bounds ⟨0, 0, s.rotation⟩

/-- The box in the frame of the cluster. -/
def footprint (s : Sibling α) : Rect α := placeBox s.bounds ⟨s.offset.x, s.offset.y, s.rotation⟩

omit [Scalar α] in
/-- Give new offsets, in order, to the members that are fixed, or to those that
are not. -/
def assign (fixed : Bool) : List (Sibling α) → List (Point α) → List (Sibling α)
  | [], _ => []
  | siblings, [] => siblings
  | s :: siblings, p :: points =>
      if s.fixed = fixed then { s with offset := p } :: assign fixed siblings points
      else s :: assign fixed siblings (p :: points)

end Sibling

/-- The smallest box around some boxes, if there are any. -/
def unionBox? : List (Rect α) → Option (Rect α)
  | [] => none
  | r :: rs => some (rs.foldl Rect.union r)

/-- Spread the members that the author placed, so that they do not overlap.  The
factor is one when nothing has to be done. -/
def spreadFixed (maxScale : α) (siblings : List (Sibling α)) :
    Except (SeparationFailure α) (α × List (Sibling α)) :=
  let fixed := siblings.filter (·.fixed)
  if fixed.length < 2 then .ok (1, siblings)
  else
    let shapes := fixed.map fun s => (s.node, s.box)
    (separateNumbered maxScale shapes (fixed.map (·.offset))).map fun r =>
      (r.1, if 1 < r.1 then Sibling.assign true siblings r.2 else siblings)

/-- Where the grid of the free members begins: to the right of the others. -/
def gridAnchor (spacing : α) (siblings : List (Sibling α)) : Point α :=
  match unionBox? ((siblings.filter (·.fixed)).map (·.footprint)) with
  | some r => ⟨r.right + spacing, r.y⟩
  | none => .origin

/-- Arrange the free members in a grid. -/
def arrangeInGrid (spacing : α) (siblings : List (Sibling α)) : List (Sibling α) :=
  let free := siblings.filter fun s => !s.fixed
  let order := connectivityOrder (weightMatrix (free.map (·.nets)) : List (List α))
  let anchor := gridAnchor spacing siblings
  let origins := gridLayout (free.map (·.box)) order spacing
  Sibling.assign false siblings (origins.map fun p => p.offset anchor.x anchor.y)

/-- Arrange the free members by forces. -/
def arrangeByForces (config : PlacementConfig α) (siblings : List (Sibling α)) :
    List (Sibling α) :=
  let bodies := siblings.map fun s => (⟨s.box, s.offset, s.fixed⟩ : Placeable α)
  let origins := forceLayout config (weightMatrix (siblings.map (·.nets))) bodies
  siblings.zipWith (fun s p => if s.fixed then s else { s with offset := p }) origins

/-- Arrange the free members by the strategy of the configuration. -/
def arrangeFree (config : PlacementConfig α) (siblings : List (Sibling α)) : List (Sibling α) :=
  match config.strategy with
  | .grid => arrangeInGrid config.spacing siblings
  | .force => arrangeByForces config siblings

/-- Arrange the members of a cluster.  A single one that is free lies at the
origin. -/
def arrangeSiblings (config : PlacementConfig α) : List (Sibling α) → SiblingLayout α
  | [] => ⟨[], false, none⟩
  | [s] => ⟨[if s.fixed then s else { s with offset := .origin }], false, none⟩
  | siblings =>
      match spreadFixed config.maxFixedScale siblings with
      | .ok (scale, spread) => ⟨arrangeFree config spread, 1 < scale, none⟩
      | .error failure => ⟨arrangeFree config siblings, false, some failure⟩

end Schematic
