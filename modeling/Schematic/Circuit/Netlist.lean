import Schematic.Circuit.Model

/-!
# Netlists

A netlist is a finished circuit: its arenas as they were built, with nets
numbered without gaps.  Positions are the only thing that still changes; each
change counts up the epoch, so that what was computed from positions can tell
that it is out of date.

## Main definitions

* `Netlist` — finished circuits.
* `Netlist.netName`, `Netlist.pinLabel` — the names shown for nets and pins.
* `Netlist.functionalPins`, `Netlist.isNoConnectNet` — the pins of a net without
  the markers of unconnected pins.
* `Netlist.ancestors`, `Netlist.composableFrame`, `Netlist.absolute?` — where
  things lie on the sheet.
-/

namespace Schematic

/-- A finished circuit. -/
structure Netlist (α : Type) where
  /-- The name of the circuit. -/
  name : String
  /-- The components. -/
  components : Array (Component α)
  /-- The pins. -/
  pins : Array Pin
  /-- The nets. -/
  nets : Array Net
  /-- The composables. -/
  composables : Array (Composable α)
  /-- How often a position has been set. -/
  epoch : Nat
  deriving Repr

namespace Netlist

variable {α : Type}

/-! ### Names and pins -/

/-- The component a pin belongs to. -/
def owner? (n : Netlist α) (pin : PinId) : Option (Component α) :=
  n.pins[pin]?.bind fun p => n.components[p.component]?

/-- Whether a pin belongs to a marker of unconnected pins. -/
def isMarkerPin (n : Netlist α) (pin : PinId) : Bool := (n.owner? pin).any (·.marker)

/-- The first component with a reference designator. -/
def findComponent? (n : Netlist α) (reference : String) : Option ComponentId :=
  (n.components.find? (·.reference == reference)).map (·.id)

/-- The pin of the first component with a reference designator that has a key. -/
def findPin? (n : Netlist α) (reference key : String) : Option PinId :=
  ((n.findComponent? reference).bind (n.components[·]?)).bind (·.pins.find? key)

/-- The reference designator of a pin's component. -/
def referenceOf (n : Netlist α) (pin : Pin) : String :=
  (n.components[pin.component]?.map (·.reference)).getD ""

/-- A pin in a message: reference designator, point, key. -/
def pinLabel (n : Netlist α) (pin : PinId) : String :=
  match n.pins[pin]? with
  | some p => n.referenceOf p ++ "." ++ p.key
  | none => "."

/-- The pins of a net. -/
def netPins (n : Netlist α) (net : NetId) : List PinId := (n.nets[net]?.map (·.pins)).getD []

/-- Whether a net carries a marker of an unconnected pin. -/
def isNoConnectNet (n : Netlist α) (net : NetId) : Bool := (n.netPins net).any n.isMarkerPin

/-- The pins of a net that belong to no marker, in the order they were tied. -/
def functionalPins (n : Netlist α) (net : NetId) : List PinId :=
  (n.netPins net).filter fun p => !n.isMarkerPin p

/-- The name shown for a net: its own, else one made from its first functional
pin, else one made from its number. -/
def netName (n : Netlist α) (net : NetId) : String :=
  match n.nets[net]?.bind (·.name) with
  | some name => name
  | none =>
      match (n.functionalPins net).head?.bind (n.pins[·]?) with
      | some p =>
          let kind := if n.isNoConnectNet net then "unconnected" else "Net"
          kind ++ "-(" ++ n.referenceOf p ++ "-Pad" ++ p.key ++ ")"
      | none => "Net-" ++ toString net

/-- The nets of a component's pins, first touched first. -/
def netsOfPins (n : Netlist α) (c : Component α) : List NetId :=
  c.pins.ids.filterMap fun p => n.pins[p]?.bind (·.net)

/-- How many different nets the pins of a component are on. -/
def connectedNetCount (n : Netlist α) (id : ComponentId) : Nat :=
  match n.components[id]? with
  | some c => (n.netsOfPins c).eraseDups.length
  | none => 0

/-- Whether any pin of a component is on a net. -/
def isElectrical (n : Netlist α) (id : ComponentId) : Bool :=
  n.components[id]?.any fun c => !(n.netsOfPins c).isEmpty

/-! ### Frames -/

/-- The chain of composables outward from one, for at most `fuel` steps and not
past a repetition; `seen` holds what was passed, last first. -/
def ancestorsFrom (n : Netlist α) :
    Nat → List ComposableId → Option ComposableId → List ComposableId
  | 0, seen, _ => seen.reverse
  | _ + 1, seen, none => seen.reverse
  | fuel + 1, seen, some id =>
      if seen.contains id then seen.reverse
      else n.ancestorsFrom fuel (id :: seen) (n.composables[id]?.bind (·.parent))

/-- The composables around something with the given parent, innermost first. -/
def ancestors (n : Netlist α) (parent : Option ComposableId) : List ComposableId :=
  n.ancestorsFrom (n.composables.size + 1) [] parent

variable [Scalar α]

/-- The placement of a composable in its parent, the origin while it has none. -/
def composablePlacement (n : Netlist α) (id : ComposableId) : Placement α :=
  (n.composables[id]?.bind (·.position)).getD .origin

/-- The frame of a composable on the sheet. -/
def composableFrame (n : Netlist α) (id : ComposableId) : Placement α :=
  (n.ancestors (some id)).reverse.foldl (fun frame c => frame.compose (n.composablePlacement c))
    .origin

/-- The frame of the composable around a component, the sheet itself for a
component without one. -/
def parentFrame (n : Netlist α) (id : ComponentId) : Placement α :=
  match n.components[id]?.bind (·.parent) with
  | some parent => n.composableFrame parent
  | none => .origin

/-- Where a component lies on the sheet, once it has a position. -/
def absolute? (n : Netlist α) (id : ComponentId) : Option (Placement α) :=
  (n.components[id]?.bind (·.position)).map (n.parentFrame id).compose

/-- Place a component in the frame of its parent. -/
def setPosition (n : Netlist α) (id : ComponentId) (position : Placement α) : Netlist α :=
  { n with
    components := n.components.modify id fun c => { c with position := some position }
    epoch := n.epoch + 1 }

/-- Place a composable in the frame of its parent. -/
def setComposablePosition (n : Netlist α) (id : ComposableId) (position : Placement α) :
    Netlist α :=
  { n with
    composables := n.composables.modify id fun c => { c with position := some position }
    epoch := n.epoch + 1 }

end Netlist

end Schematic
