import Schematic.Circuit.Netlist
import Schematic.Symbol.Basic

/-!
# Obstacles

The boxes of the placed components, with some clearance, are the obstacles that
wires go around.  They are computed once and remember the epoch of the netlist
they were computed from.

## Main definitions

* `ObstacleMap`, `ObstacleMap.ofNetlist` — the boxes.
* `ObstacleMap.isStale`, `ObstacleMap.refresh`, `ObstacleMap.update` — keeping up
  with changed positions.
-/

namespace Schematic

/-- The boxes of the placed components at some epoch. -/
structure ObstacleMap (α : Type) where
  /-- The epoch of the netlist when they were computed. -/
  epoch : Nat
  /-- The clearance around components. -/
  padding : α
  /-- The placed components with their boxes. -/
  entries : List (ComponentId × Rect α)
  deriving Repr

namespace ObstacleMap

variable {α : Type} [Scalar α]

/-- The boxes of the placed components; markers have none. -/
def ofNetlist (n : Netlist α) (symbols : SymbolSource α) (padding : α) : ObstacleMap α :=
  { epoch := n.epoch
    padding
    entries := (n.components.toList.filter fun c => !c.marker).filterMap fun c =>
      (n.absolute? c.id).map fun placement =>
        (c.id, (symbols.boundingBox c.symbol placement).inflate padding) }

omit [Scalar α] in
/-- Whether a position has been set since the boxes were computed. -/
def isStale (m : ObstacleMap α) (n : Netlist α) : Bool := m.epoch != n.epoch

/-- Compute the boxes again when they are stale. -/
def refresh (m : ObstacleMap α) (n : Netlist α) (symbols : SymbolSource α) : ObstacleMap α :=
  if m.isStale n then ofNetlist n symbols m.padding else m

/-- Refresh the boxes, and tell whether they were computed again. -/
def update (m : ObstacleMap α) (n : Netlist α) (symbols : SymbolSource α) :
    Bool × ObstacleMap α :=
  (m.isStale n, m.refresh n symbols)

omit [Scalar α] in
/-- The boxes alone. -/
def boxes (m : ObstacleMap α) : List (Rect α) := m.entries.map Prod.snd

omit [Scalar α] in
/-- The box of a component. -/
def find? (m : ObstacleMap α) (id : ComponentId) : Option (Rect α) := m.entries.lookup id

end ObstacleMap

end Schematic
