import Schematic.Circuit.Netlist
import Schematic.SExpr.Printer

/-!
# Netlist documents

The netlist as a document for board layout: the components with their library
symbols, and the nets with their pins.  The markers of unconnected pins belong
to the drawing alone and are left out, and so are nets without functional pins.

## Main definitions

* `Netlist.componentRecord`, `Netlist.netRecord` — the records of the document.
* `Netlist.document`, `Netlist.documentText` — the document and its text.
-/

namespace Schematic

/-- The name under which documents are written. -/
def generatorName : String := "netweave"

/-- A symbol's library and its name there, parted at the first colon.  Without a
colon the library is empty. -/
def splitSymbol (symbol : String) : String × String :=
  let cs := symbol.toList
  match cs.dropWhile (· ≠ ':') with
  | _ :: part => (String.ofList (cs.takeWhile (· ≠ ':')), String.ofList part)
  | [] => ("", symbol)

namespace Netlist

variable {α : Type}

/-- The record of a component. -/
def componentRecord (c : Component α) : SExpr α :=
  let (lib, part) := splitSymbol c.symbol
  let footprint := match c.footprint with
    | some f => [.field "footprint" f]
    | none => []
  .record "comp" <|
    [.field "ref" c.reference, .field "value" (c.value.getD "~")] ++ footprint ++
      [.record "libsource" [.field "lib" lib, .field "part" part]]

/-- The record of a pin on a net. -/
def nodeRecord (n : Netlist α) (pin : PinId) : SExpr α :=
  match n.pins[pin]? with
  | some p => .record "node" [.field "ref" (n.referenceOf p), .field "pin" p.key]
  | none => .record "node" []

/-- The record of a net under a code number. -/
def netRecord (n : Netlist α) (code : Nat) (net : NetId) : SExpr α :=
  .record "net" <|
    [.field "code" (digitText code), .field "name" (n.netName net)] ++
      (n.functionalPins net).map n.nodeRecord

/-- The nets that have functional pins. -/
def functionalNets (n : Netlist α) : List NetId :=
  (List.range n.nets.size).filter fun net => !(n.functionalPins net).isEmpty

/-- The netlist document. -/
def document (n : Netlist α) : SExpr α :=
  let components := (n.components.toList.filter fun c => !c.marker).map componentRecord
  let nets := n.functionalNets.mapIdx fun i net => n.netRecord (i + 1) net
  .record "export"
    [.field "version" "E",
     .record "design" [.field "source" (n.name ++ ".kicad_sch"), .field "tool" generatorName],
     .record "components" components,
     .record "nets" nets]

/-- The text of the netlist document. -/
def documentText [Scalar α] (n : Netlist α) : String := n.document.documentText

end Netlist

end Schematic
