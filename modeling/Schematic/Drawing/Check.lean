import Schematic.Drawing.Finding
import Schematic.Drawing.Terminal
import Schematic.Routing.Obstacles

/-!
# Checking a drawing

The finished drawing is checked: components may not overlap; a wire may cross a
component only if it touches one of its pins; no wire may touch a pin of another
net or join the wire of another net; and some wire has to lead to every pin of a
net.

## Main definitions

* `overlapFindings` — the components that overlap.
* `wireFindings` — what is wrong with the wires.
-/

namespace Schematic

open Scalar

variable {α : Type} [Scalar α]

/-- Whether a wire touches a pin. -/
def Wire.touches (tolerance : α) (w : Wire α) (t : Terminal α) : Bool :=
  onSegment t.point w.a w.b tolerance

namespace Netlist

omit [Scalar α] in
/-- The reference designator of a component. -/
def reference (n : Netlist α) (id : ComponentId) : String :=
  (n.components[id]?.map (·.reference)).getD ""

/-- The components that overlap when all are given some room around them. -/
def overlapFindings (n : Netlist α) (symbols : SymbolSource α) (padding : α) :
    List (Finding α) :=
  let boxes := (ObstacleMap.ofNetlist n symbols padding).entries
  ((pairs boxes).filter fun p => p.1.2.overlaps p.2.2).map fun p =>
    .overlap (n.reference p.1.1) (n.reference p.2.1)

/-! ### Wires -/

/-- The components that a wire crosses without touching one of their pins. -/
def crossingFindings (n : Netlist α) (boxes : List (ComponentId × Rect α))
    (terminals : List (Terminal α)) (tolerance : α) (w : Wire α) : List (Finding α) :=
  (boxes.filter fun b =>
    b.2.crossedBy w.a w.b &&
      !terminals.any fun t => t.component == b.1 && w.touches tolerance t).map fun b =>
    .crossesPart w (n.netName w.net) (n.reference b.1)

omit [Scalar α] in
/-- The net a pin is on. -/
def netOfPin? (n : Netlist α) (pin : PinId) : Option NetId := n.pins[pin]?.bind (·.net)

/-- The pins of other nets that a wire touches. -/
def touchFindings (n : Netlist α) (terminals : List (Terminal α)) (tolerance : α) (w : Wire α) :
    List (Finding α) :=
  (terminals.filter fun t =>
    n.netOfPin? t.pin != some w.net && w.touches tolerance t).map fun t =>
    .touchesPin w (n.netName w.net) (n.pinLabel t.pin) ((n.netOfPin? t.pin).map n.netName)

/-- An end of one of two wires that lies on the other one. -/
def joint? (tolerance : α) (v w : Wire α) : Option (Point α) :=
  ([v.a, v.b].find? fun p => onSegment p w.a w.b tolerance).orElse fun _ =>
    [w.a, w.b].find? fun p => onSegment p v.a v.b tolerance

/-- The finding about two wires of different nets that join. -/
def jointFinding? (n : Netlist α) (tolerance : α) (p : Wire α × Wire α) : Option (Finding α) :=
  if p.1.net = p.2.net then none
  else
    (joint? tolerance p.1 p.2).map fun point =>
      .joinsNet p.1 (n.netName p.1.net) (n.netName p.2.net) point

/-- The finding about a pin on a net that none of its wires leads to.  The nets
of intentionally unconnected pins need no wires. -/
def reachFinding? (n : Netlist α) (wires : List (Wire α)) (tolerance : α) (t : Terminal α) :
    Option (Finding α) :=
  match n.netOfPin? t.pin with
  | none => none
  | some net =>
      if n.isNoConnectNet net || wires.any fun w => w.net == net && w.touches tolerance t then none
      else some (.unreachedPin (n.pinLabel t.pin) (n.netName net))

/-- What is wrong with the wires of a drawing. -/
def wireFindings (n : Netlist α) (symbols : SymbolSource α)
    (terminals : Array (Option (Terminal α))) (wires : List (Wire α)) (tolerance : α) :
    List (Finding α) :=
  let boxes := (ObstacleMap.ofNetlist n symbols 0).entries
  let terminals := terminals.toList.filterMap id
  (wires.flatMap fun w =>
    n.crossingFindings boxes terminals tolerance w ++ n.touchFindings terminals tolerance w) ++
    (pairs wires).filterMap (n.jointFinding? tolerance) ++
    terminals.filterMap (n.reachFinding? wires tolerance)

end Netlist

end Schematic
