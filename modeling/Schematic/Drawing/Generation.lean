import Schematic.Drawing.Assembly
import Schematic.Drawing.Check
import Schematic.Layout.Position

/-!
# From a circuit to a drawing

## Main definitions

* `Generation` — a placed circuit with its drawing and all findings.
* `Netlist.generate` — place, draw and check a circuit.
-/

namespace Schematic

/-- A placed circuit with its drawing. -/
structure Generation (α : Type) where
  /-- The placed circuit. -/
  netlist : Netlist α
  /-- The drawing. -/
  sheet : Sheet α
  /-- What is wrong with it. -/
  findings : List (Finding α)

variable {α : Type}

/-- Whether nothing is wrong with a drawing. -/
def Generation.isClean (g : Generation α) : Bool := g.findings.isEmpty

variable [Scalar α]

/-- The findings about pins that their symbols do not have. -/
def Netlist.strayPinFindings (n : Netlist α) (symbols : SymbolSource α) : List (Finding α) :=
  (n.strayPins symbols).map fun e => .strayPin (n.pinLabel e.2.id) e.1.symbol

/-- Place, draw and check a circuit. -/
def Netlist.generate (n : Netlist α) (symbols : SymbolSource α) (config : Config α) :
    Generation α :=
  let (placed, report) := n.place symbols config.placement
  let ctx := DrawingContext.ofNetlist placed symbols config
  let (sheet, failures) := ctx.sheet
  let settings := config.drawing
  { netlist := placed
    sheet
    findings :=
      report.errors.map .placement ++ placed.strayPinFindings symbols ++ failures ++
        placed.overlapFindings symbols settings.overlapPadding ++
        if settings.emitWires then
          placed.wireFindings symbols ctx.terminals sheet.wires settings.touchTolerance
        else [] }

end Schematic
