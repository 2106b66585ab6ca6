import Schematic.Circuit.Netlist
import Schematic.Symbol.Basic

/-!
# Where pins lie

The pins of a placed component lie where its symbol has them.  A pin that the
symbol does not have is put at the origin of the component.

## Main definitions

* `SymbolPin.place` — the point and the direction of a pin on the sheet.
* `Terminal`, `Netlist.terminal?` — a pin of the circuit with its point.
* `Netlist.strayPins` — the pins that their symbols do not have.
-/

namespace Schematic

open Scalar

/-- A pin of the circuit on the sheet. -/
structure Terminal (α : Type) where
  /-- The pin. -/
  pin : PinId
  /-- Its component. -/
  component : ComponentId
  /-- Its point. -/
  point : Point α
  /-- The direction away from the component, a vector of length one. -/
  outward : Point α
  deriving Repr

variable {α : Type}

/-- The pin of a symbol that a pin of the circuit stands for. -/
def SymbolSource.pinFor? (symbols : SymbolSource α) (c : Component α) (p : Pin) :
    Option (SymbolPin α) :=
  (symbols c.symbol).bind (·.findPin? p.key)

variable [Scalar α]

/-- The point of a pin, and the direction away from the body, when its symbol is
placed. -/
def SymbolPin.place (p : SymbolPin α) (placement : Placement α) : Point α × Point α :=
  let tip := p.sheetOffset
  let d := rotateOffset tip.x tip.y placement.rotation
  let u := rotateOffset 1 0 (p.outwardAngle + placement.rotation)
  (⟨placement.x + d.1, placement.y + d.2⟩, ⟨u.1, u.2⟩)

namespace Netlist

/-- A pin of a component on the sheet; none for the pin of a marker, or of a
component without a place. -/
def terminal? (n : Netlist α) (symbols : SymbolSource α) (p : Pin) : Option (Terminal α) := do
  let c ← n.components[p.component]?
  if c.marker then none
  else
    let placement ← n.absolute? p.component
    let (point, outward) := match symbols.pinFor? c p with
      | some pin => pin.place placement
      | none => (placement.point, ⟨0, -1⟩)
    some { pin := p.id, component := p.component, point, outward }

/-- All pins on the sheet, by number. -/
def terminals (n : Netlist α) (symbols : SymbolSource α) : Array (Option (Terminal α)) :=
  n.pins.map (n.terminal? symbols)

/-- The pins of placed components that their symbols do not have, component by
component. -/
def strayPins (n : Netlist α) (symbols : SymbolSource α) : List (Component α × Pin) :=
  (n.components.toList.filter fun c => !c.marker && (n.absolute? c.id).isSome).flatMap fun c =>
    ((c.pins.ids.filterMap (n.pins[·]?)).filter fun p => (symbols.pinFor? c p).isNone).map
      fun p => (c, p)

end Netlist

end Schematic
