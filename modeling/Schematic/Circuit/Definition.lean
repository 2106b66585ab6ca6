import Schematic.Circuit.Model
import Schematic.Yaml.Decode

/-!
# Circuit definitions

The form in which an author describes a circuit: composables, components, nets
given by lists of pin references, and pins that stay unconnected on purpose.

## Main definitions

* `CircuitDef` — circuit definitions.
* `CircuitDef.ofNode?`, `CircuitDef.read?` — reading one from YAML.
-/

namespace Schematic

/-- A composable as it is declared. -/
structure ComposableDef (α : Type) where
  /-- Its name. -/
  name : String
  /-- The name of the composable around it. -/
  parent : Option String := none
  /-- Its position and maybe rotation in the frame of its parent. -/
  at? : Option (List α) := none
  /-- The ports it exposes, each with a reference to a pin on the net. -/
  ports : Table String := ∅
  deriving Repr

/-- A component as it is declared. -/
structure ComponentDef (α : Type) where
  /-- The reference designator. -/
  reference : String
  /-- The library symbol. -/
  symbol : String
  /-- The value shown beside it. -/
  value : Option String := none
  /-- The footprint on a board. -/
  footprint : Option String := none
  /-- The name of the composable it belongs to. -/
  parent : Option String := none
  /-- A tag that keeps parts together in the drawing. -/
  group : Option String := none
  /-- Its position and maybe rotation in the frame of its parent. -/
  at? : Option (List α) := none
  deriving Repr

/-- A net as it is declared. -/
structure NetDef where
  /-- Its name. -/
  name : Option String := none
  /-- Whether it is a power net. -/
  power : Bool := false
  /-- References to its pins. -/
  pins : List String
  deriving Repr

/-- A pin declared as intentionally unconnected. -/
structure NoConnectDef where
  /-- The reference to the pin. -/
  pin : String
  /-- The reason given for it. -/
  reason : Option String := none
  deriving Repr

/-- A circuit as its author describes it. -/
structure CircuitDef (α : Type) where
  /-- The name of the circuit. -/
  name : String
  /-- The composables. -/
  composables : List (ComposableDef α) := []
  /-- The components. -/
  components : List (ComponentDef α) := []
  /-- The nets. -/
  nets : List NetDef := []
  /-- The unconnected pins. -/
  noConnects : List NoConnectDef := []
  deriving Repr

open Yaml

variable {α : Type} [Scalar α]

/-- Read a declared composable. -/
def ComposableDef.ofNode? (n : Node) : Option (ComposableDef α) := do
  let fs ← n.fields? ["name", "parent", "at", "ports"]
  let name ← fs.required? "name" Node.text?
  let parent ← fs.optional? "parent" Node.text?
  let at? ← fs.optional? "at" (Node.list? Node.scalar?)
  let ports ← fs.withDefault? "ports"
    (fun n => n.pairs?.bind (·.mapM fun p => p.2.text?.map fun pin => (p.1, pin))) []
  some { name, parent, at?, ports := Table.ofList ports }

/-- Read a declared component. -/
def ComponentDef.ofNode? (n : Node) : Option (ComponentDef α) := do
  let fs ← n.fields? ["ref", "symbol", "value", "footprint", "parent", "group", "at"]
  let reference ← fs.required? "ref" Node.text?
  let symbol ← fs.required? "symbol" Node.text?
  let value ← fs.optional? "value" Node.text?
  let footprint ← fs.optional? "footprint" Node.text?
  let parent ← fs.optional? "parent" Node.text?
  let group ← fs.optional? "group" Node.text?
  let at? ← fs.optional? "at" (Node.list? Node.scalar?)
  some { reference, symbol, value, footprint, parent, group, at? }

/-- Read a declared net. -/
def NetDef.ofNode? (n : Node) : Option NetDef := do
  let fs ← n.fields? ["name", "power", "pins"]
  let name ← fs.optional? "name" Node.text?
  let power ← fs.withDefault? "power" Node.bool? false
  let pins ← fs.required? "pins" (Node.list? Node.text?)
  some { name, power, pins }

/-- Read a pin declared as unconnected. -/
def NoConnectDef.ofNode? (n : Node) : Option NoConnectDef := do
  let fs ← n.fields? ["pin", "reason"]
  let pin ← fs.required? "pin" Node.text?
  let reason ← fs.optional? "reason" Node.text?
  some { pin, reason }

namespace CircuitDef

/-- Read a circuit definition. -/
def ofNode? (n : Node) : Option (CircuitDef α) := do
  let fs ← n.fields? ["name", "composables", "components", "nets", "dnc"]
  let name ← fs.required? "name" Node.text?
  let composables ← fs.withDefault? "composables" (Node.list? ComposableDef.ofNode?) []
  let components ← fs.withDefault? "components" (Node.list? ComponentDef.ofNode?) []
  let nets ← fs.withDefault? "nets" (Node.list? NetDef.ofNode?) []
  let noConnects ← fs.withDefault? "dnc" (Node.list? NoConnectDef.ofNode?) []
  some { name, composables, components, nets, noConnects }

/-- Read a circuit definition from YAML text. -/
def read? (text : String) : Option (CircuitDef α) := (Node.read? text).bind ofNode?

end CircuitDef

end Schematic
