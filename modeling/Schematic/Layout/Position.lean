import Schematic.Layout.Arrangement

/-!
# Placing a circuit

Components with a connected pin are placed cluster by cluster; the others are
put in rows below them; the markers of unconnected pins have no place of their
own.  The outcome is written into the netlist as placements in the frames of the
parents.

## Main definitions

* `Netlist.electrical`, `Netlist.mechanical` — the two kinds of components.
* `Netlist.applyArrangement` — positions from an arrangement.
* `Netlist.placeMechanical` — positions for the other components.
* `Netlist.place` — positions for everything.
-/

namespace Schematic

open Scalar

/-- The outcome of placing a circuit. -/
structure PlacementReport (α : Type) where
  /-- How many components were placed in clusters. -/
  electrical : Nat
  /-- How many components were put below them. -/
  mechanical : Nat
  /-- The clusters whose fixed members overlap. -/
  errors : List (PlacementError α)
  deriving Repr

variable {α : Type}

namespace Netlist

/-- The components with a connected pin. -/
def electrical (n : Netlist α) : List ComponentId :=
  ((n.components.toList.filter fun c => !c.marker).map (·.id)).filter n.isElectrical

/-- The components without a connected pin; markers are none of them. -/
def mechanical (n : Netlist α) : List ComponentId :=
  ((n.components.toList.filter fun c => !c.marker).map (·.id)).filter fun id =>
    !n.isElectrical id

variable [Scalar α]

/-! ### Clusters -/

/-- Where a node lies in its cluster after an arrangement. -/
def offsetAfter (t : ClusterTree α) (a : Arrangement α) (id : NodeId) : Point α :=
  (a.offsets.lookup id).getD (t.offset id)

/-- The frame of a node on the sheet after an arrangement. -/
def frameAfter (t : ClusterTree α) (a : Arrangement α) (id : NodeId) : Placement α :=
  t.frameWith (offsetAfter t a) id

/-- The frame of the composable around a composable. -/
def outerFrame (n : Netlist α) (id : ComposableId) : Placement α :=
  match n.composables[id]?.bind (·.parent) with
  | some parent => n.composableFrame parent
  | none => .origin

/-- Write the position of a composable, unless the author chose it and it was
not moved. -/
def applyComposable (t : ClusterTree α) (a : Arrangement α) (n : Netlist α) (node : NodeId) :
    Netlist α :=
  match t.kind node with
  | .composable id =>
      if t.isFixed node && !a.moved.contains node then n
      else n.setComposablePosition id ((n.outerFrame id).localize (frameAfter t a node))
  | _ => n

/-- Whether a node or the group it belongs to was moved although the author
placed it. -/
def wasMoved (t : ClusterTree α) (a : Arrangement α) (node : NodeId) : Bool :=
  a.moved.contains node ||
    (t.parent? node).any fun p => (t.kind p).isGroup && a.moved.contains p

/-- A placement brought onto the grid. -/
def snapPlacement (pitch : α) (p : Placement α) : Placement α :=
  { p with x := snap p.x pitch, y := snap p.y pitch }

/-- Write the position of a component, unless the author chose it and it was not
moved.  One that the author did not place is brought onto the grid. -/
def applyPart (pitch : α) (t : ClusterTree α) (a : Arrangement α) (n : Netlist α)
    (node : NodeId) : Netlist α :=
  match t.kind node with
  | .part id =>
      if t.isFixed node && !wasMoved t a node then n
      else
        let frame := frameAfter t a node
        let absolute := if t.isFixed node then frame else snapPlacement pitch frame
        n.setPosition id ((n.parentFrame id).localize absolute)
  | _ => n

/-- Write the positions of an arrangement, those of composables first, since the
positions of components depend on them. -/
def applyArrangement (n : Netlist α) (pitch : α) (t : ClusterTree α) (a : Arrangement α) :
    Netlist α :=
  let nodes := List.range t.size
  nodes.foldl (applyPart pitch t a) (nodes.foldl (applyComposable t a) n)

/-! ### Other components -/

/-- The box around the components that are placed, if there are any. -/
def blockBox? (n : Netlist α) (symbols : SymbolSource α) (ids : List ComponentId) :
    Option (Rect α) :=
  unionBox? <| ids.filterMap fun id =>
    (n.absolute? id).map fun placement =>
      symbols.boundingBox ((n.components[id]?.map (·.symbol)).getD "") placement

/-- Where the rows of the other components begin: below the block. -/
def rowsAnchor (spacing : α) : Option (Rect α) → Point α
  | some r => ⟨r.x, r.bottom + spacing⟩
  | none => .origin

/-- Put the components that neither are connected nor were placed by the author
in rows below the others. -/
def placeMechanical (n : Netlist α) (symbols : SymbolSource α) (config : PlacementConfig α)
    (electrical mechanical : List ComponentId) : Netlist α :=
  let pending := mechanical.filter fun id => !(n.components[id]?.any (·.fixed))
  let anchor := rowsAnchor config.spacing (n.blockBox? symbols electrical)
  let boxes := pending.map fun id =>
    symbols.localBounds ((n.components[id]?.map (·.symbol)).getD "")
  let origins := gridLayout boxes (List.range pending.length) config.spacing
  (pending.zip origins).foldl
    (fun n p =>
      let point := (p.2.offset anchor.x anchor.y).snap config.gridSnap
      n.setPosition p.1 ((n.parentFrame p.1).localize ⟨point.x, point.y, 0⟩))
    n

/-! ### Everything -/

/-- Place every component and every composable. -/
def place (n : Netlist α) (symbols : SymbolSource α) (config : PlacementConfig α) :
    Netlist α × PlacementReport α :=
  let tree := ClusterTree.ofMembers n n.electrical
  let context : LayoutContext α :=
    { netlist := n, graph := .ofNetlist n, symbols, config }
  let arrangement := tree.arrange context 0
  let placed := (n.applyArrangement config.gridSnap tree arrangement).placeMechanical
    symbols config n.electrical n.mechanical
  (placed,
    { electrical := n.electrical.length
      mechanical := n.mechanical.length
      errors := arrangement.errors })

end Netlist

end Schematic
