import Schematic.Drawing.Wire

/-!
# Sheets

A sheet is the finished drawing of a circuit, before it is written down.

## Main definitions

* `SymbolInstance`, `PowerSymbol`, `NoConnectFlag` — what stands on a sheet.
* `Route` — a connection between two pins.
* `Sheet` — the drawing.
-/

namespace Schematic

/-- The symbol of a component. -/
structure SymbolInstance (α : Type) where
  /-- The component. -/
  component : ComponentId
  /-- Its reference designator. -/
  reference : String
  /-- The symbol it is drawn with. -/
  symbol : String
  /-- Its value. -/
  value : String
  /-- Its footprint. -/
  footprint : String
  /-- Where it stands. -/
  placement : Placement α
  /-- The numbers of the pins that the symbol has. -/
  pins : List String
  deriving Repr

/-- A power symbol at a pin. -/
structure PowerSymbol (α : Type) where
  /-- The net. -/
  net : NetId
  /-- The symbol it is drawn with. -/
  symbol : String
  /-- The name of the net. -/
  value : String
  /-- Where it stands. -/
  placement : Placement α
  /-- The name under which it is known from run to run. -/
  key : String
  deriving Repr

/-- The flag of a pin that is intentionally unconnected. -/
structure NoConnectFlag (α : Type) where
  /-- Where it stands. -/
  point : Point α
  /-- The name under which it is known from run to run. -/
  key : String
  deriving Repr

/-- The line from pin to pin that a connection was drawn along. -/
structure Route (α : Type) where
  /-- The net. -/
  net : NetId
  /-- The first pin. -/
  source : PinId
  /-- The second pin. -/
  target : PinId
  /-- The points from one to the other. -/
  path : List (Point α)
  /-- Whether no path was found and a direct line was drawn. -/
  fallback : Bool
  deriving Repr

/-- A drawing. -/
structure Sheet (α : Type) where
  /-- The name of the circuit. -/
  name : String
  /-- The paper size. -/
  paper : String
  /-- The symbols of components. -/
  symbols : List (SymbolInstance α)
  /-- The power symbols. -/
  power : List (PowerSymbol α)
  /-- The wires. -/
  wires : List (Wire α)
  /-- The flags of unconnected pins. -/
  noConnects : List (NoConnectFlag α)
  /-- The connections. -/
  routes : List (Route α)
  deriving Repr

end Schematic
