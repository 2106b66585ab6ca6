import Schematic.Circuit.Netlist

/-!
# Power nets

Supplies and grounds are not drawn as wires from pin to pin: each of their pins
gets a power symbol.  A net is told to be one by its author or by its name.

## Main definitions

* `isGroundName`, `isPowerName` — names of grounds, and of grounds and supplies.
* `Netlist.isPowerNet` — nets that are drawn with power symbols.
-/

namespace Schematic

/-- A name in capital letters; only the letters of the English alphabet have
them here. -/
def capitals (name : String) : List Char := name.toList.map Char.toUpper

/-- Whether a text contains another one. -/
def containsRun (run : List Char) : List Char → Bool
  | [] => run.isEmpty
  | c :: cs => run.isPrefixOf (c :: cs) || containsRun run cs

/-- Whether a name in capital letters is that of a ground. -/
def isGround (upper : List Char) : Bool :=
  containsRun "GND".toList upper || upper = "VSS".toList || upper = "0V".toList

/-- How the names of supplies start. -/
def supplyNames : List (List Char) := ["VCC", "VDD", "VEE", "VSS", "VBAT"].map String.toList

/-- Whether a name in capital letters is a voltage, such as `3V3` or `5V`. -/
def isVoltage (body : List Char) : Bool :=
  body.head?.any Char.isDigit && body.contains 'V' &&
    body.all fun c => c.isDigit || c = 'V' || c = '.'

/-- Whether a name is that of a ground. -/
def isGroundName (name : String) : Bool := isGround (capitals name)

/-- Whether a name is that of a ground or a supply: it names one, is a voltage,
or is a signed number with whatever follows. -/
def isPowerName (name : String) : Bool :=
  let upper := capitals name
  let body := upper.dropWhile fun c => c = '+' || c = '-'
  let isSigned := body.length < upper.length
  isGround upper || supplyNames.any (·.isPrefixOf upper) || isVoltage body ||
    (isSigned && body.head?.any Char.isDigit)

/-- Whether a net is drawn with power symbols. -/
def Netlist.isPowerNet {α : Type} (n : Netlist α) (net : NetId) : Bool :=
  n.nets[net]?.any fun e => e.power || e.name.any isPowerName

end Schematic
