import Schematic.Layout.Sibling
import Schematic.Symbol.Basic

/-!
# Arranging clusters

Clusters are arranged from the inside out: the box of a cluster is known once
its members are arranged, and the box of a component is that of its symbol with
room for the wires that lead to it.

## Main definitions

* `PlacementError` — a cluster whose fixed members could not be spread.
* `Arrangement` — where nodes lie in their clusters.
* `ClusterTree.arrange` — the arrangement of everything below a node.
-/

namespace Schematic

open Scalar

/-- Why the placements that the author chose in a cluster overlap. -/
inductive PlacementError (α : Type) where
  /-- Two of them agree. -/
  | coincident (first second : String)
  /-- They would have to be spread too far. -/
  | scaleTooLarge (cluster : String) (scale limit : α)
  deriving Repr

/-- The wording of an error. -/
def PlacementError.message {α : Type} [Scalar α] : PlacementError α → String
  | .coincident first second =>
      "fixed positions of " ++ first ++ " and " ++ second ++
        " coincide; scaling cannot separate them"
  | .scaleTooLarge cluster scale limit =>
      "separating fixed parts in " ++ cluster ++ " needs a scale of " ++ Scalar.fixed 3 scale ++
        ", above the limit of " ++ Scalar.shortest limit

/-- Where the nodes below a node lie. -/
structure Arrangement (α : Type) where
  /-- The box around the node's origin when it is not turned. -/
  bounds : Rect α
  /-- The nodes below it with their offsets in their clusters. -/
  offsets : List (NodeId × Point α)
  /-- Those that the author placed and that were moved nevertheless. -/
  moved : List NodeId
  /-- The clusters that could not be spread, innermost first. -/
  errors : List (PlacementError α)
  deriving Repr

/-- What an arrangement depends on. -/
structure LayoutContext (α : Type) where
  /-- The circuit. -/
  netlist : Netlist α
  /-- What its nets join. -/
  graph : ConnectionGraph
  /-- The symbols of its components. -/
  symbols : SymbolSource α
  /-- The settings. -/
  config : PlacementConfig α

variable {α : Type} [Scalar α]

/-- The box of a component's symbol with room for its wires. -/
def LayoutContext.partBounds (ctx : LayoutContext α) (id : ComponentId) : Rect α :=
  let symbol := (ctx.netlist.components[id]?.map (·.symbol)).getD ""
  let nets : α := Scalar.ofInt (ctx.netlist.connectedNetCount id)
  let corridor := Scalar.min (ctx.config.corridorPerNet * nets) ctx.config.maxCorridor
  (ctx.symbols.localBounds symbol).inflate corridor

namespace ClusterTree

/-- A member of a cluster with a given box. -/
def sibling (t : ClusterTree α) (graph : ConnectionGraph) (id : NodeId) (bounds : Rect α) :
    Sibling α :=
  { node := id
    bounds
    offset := t.offset id
    rotation := t.rotation id
    fixed := t.isFixed id
    nets := graph.netsOfGroup (t.leaves id) }

/-- A failure to spread the members of a cluster. -/
def placementError (t : ClusterTree α) (ctx : LayoutContext α) (cluster : NodeId) :
    SeparationFailure α → PlacementError α
  | .coincident first second =>
      .coincident (t.label ctx.netlist first) (t.label ctx.netlist second)
  | .tooLarge scale =>
      .scaleTooLarge (t.label ctx.netlist cluster) scale ctx.config.maxFixedScale

/-- A cluster, given its arranged members. -/
def arrangeCluster (t : ClusterTree α) (ctx : LayoutContext α) (id : NodeId)
    (members : List (NodeId × Arrangement α)) : Arrangement α :=
  let layout := arrangeSiblings ctx.config <| members.map fun m =>
    t.sibling ctx.graph m.1 m.2.bounds
  let moved := layout.siblings.filter fun s => layout.spread && s.fixed
  { bounds := (unionBox? (layout.siblings.map (·.footprint))).getD .zero
    offsets := members.flatMap (·.2.offsets) ++ layout.siblings.map fun s => (s.node, s.offset)
    moved := members.flatMap (·.2.moved) ++ moved.map (·.node)
    errors := members.flatMap (·.2.errors) ++
      (layout.failure.map (t.placementError ctx id)).toList }

/-- The arrangement of everything below a node. -/
def arrange (t : ClusterTree α) (ctx : LayoutContext α) (id : Nat) : Arrangement α :=
  match t.kind id with
  | .part c => { bounds := ctx.partBounds c, offsets := [], moved := [], errors := [] }
  | _ => t.arrangeCluster ctx id ((t.children id).attach.map fun c => (c.1, t.arrange ctx c.1))
termination_by t.size - id
decreasing_by
  obtain ⟨later, inside, _⟩ := mem_children_iff.1 c.2
  omega

end ClusterTree

end Schematic
