import Schematic.Geometry.Placement
import Schematic.Table

/-!
# Components, pins, nets and composables

A circuit is kept in arenas: numbered lists of components, pins, nets and
composables that refer to each other by number.

## Main definitions

* `Component`, `Pin`, `Net`, `Composable` — the entries of the arenas.
* `PinTable` — the pins of a component by key, in the order they were first
  asked for.
* `Interface` — how a composable is connected to the rest of the circuit.
* `PinNumbering` — a symbol library's answer to what pin a key addresses.
-/

namespace Schematic

/-- The number of a component. -/
abbrev ComponentId := Nat

/-- The number of a pin. -/
abbrev PinId := Nat

/-- The number of a net. -/
abbrev NetId := Nat

/-- The number of a composable. -/
abbrev ComposableId := Nat

/-- Given a symbol and a pin key, the number of the symbol's pin that the key
addresses, if there is one. -/
abbrev PinNumbering := String → String → Option String

/-- One electrical contact of a component. -/
structure Pin where
  /-- Its place in the arena. -/
  id : PinId
  /-- The component it belongs to. -/
  component : ComponentId
  /-- The number or name that addresses it. -/
  key : String
  /-- The net it is on; a pin is on at most one. -/
  net : Option NetId
  /-- Whether it is marked as intentionally unconnected. -/
  noConnect : Bool
  deriving DecidableEq, Repr, Inhabited

/-- A set of electrically identical pins, in the order they were tied. -/
structure Net where
  /-- Its place in the arena. -/
  id : NetId
  /-- The name given to it, if any. -/
  name : Option String
  /-- Its pins. -/
  pins : List PinId
  /-- Whether it is explicitly a power net. -/
  power : Bool
  deriving DecidableEq, Repr, Inhabited

/-- What a net becomes when another one is merged into it: it gets that one's
pins, its name if it has none itself, and is a power net if either is. -/
def Net.absorb (n retired : Net) : Net :=
  { n with
    name := n.name.orElse fun _ => retired.name
    pins := n.pins ++ retired.pins
    power := n.power || retired.power }

/-- The pins of a component, found by key and kept in the order they were first
asked for. -/
structure PinTable where
  /-- The pins by key. -/
  keys : Table PinId
  /-- The pins, first touched first. -/
  ids : List PinId
  deriving DecidableEq, Repr, Inhabited

namespace PinTable

instance : EmptyCollection PinTable := ⟨⟨∅, []⟩⟩

/-- The pin with a key. -/
def find? (t : PinTable) (key : String) : Option PinId := t.keys.find? key

/-- Add a pin at the end. -/
def push (t : PinTable) (key : String) (pin : PinId) : PinTable :=
  ⟨t.keys.insert key pin, t.ids ++ [pin]⟩

@[simp] theorem keys_empty : (∅ : PinTable).keys = ∅ := rfl

@[simp] theorem ids_empty : (∅ : PinTable).ids = [] := rfl

@[simp] theorem keys_push (t : PinTable) (key : String) (pin : PinId) :
    (t.push key pin).keys = t.keys.insert key pin := rfl

@[simp] theorem ids_push (t : PinTable) (key : String) (pin : PinId) :
    (t.push key pin).ids = t.ids ++ [pin] := rfl

end PinTable

/-- A part of the circuit. -/
structure Component (α : Type) where
  /-- Its place in the arena. -/
  id : ComponentId
  /-- The library symbol it is drawn with, such as `Device:R`. -/
  symbol : String
  /-- The reference designator, such as `R1`. -/
  reference : String
  /-- The value shown beside it. -/
  value : Option String
  /-- The footprint on a board. -/
  footprint : Option String
  /-- Its placement in the frame of its parent, once it has one. -/
  position : Option (Placement α)
  /-- Whether the author chose the placement. -/
  fixed : Bool
  /-- The composable it belongs to. -/
  parent : Option ComposableId
  /-- A tag that keeps parts together in the drawing. -/
  group : Option String
  /-- Whether it only marks a pin as intentionally unconnected. -/
  marker : Bool
  /-- Its pins. -/
  pins : PinTable
  deriving Repr

/-- What is said of a component when it is added. -/
structure ComponentSpec (α : Type) where
  /-- The library symbol. -/
  symbol : String
  /-- The reference designator. -/
  reference : String
  /-- The value shown beside it. -/
  value : Option String := none
  /-- The footprint on a board. -/
  footprint : Option String := none
  /-- The placement chosen by the author. -/
  position : Option (Placement α) := none
  /-- The composable it belongs to. -/
  parent : Option ComposableId := none
  /-- A tag that keeps parts together in the drawing. -/
  group : Option String := none
  deriving Repr

/-- The component with a number that a specification describes, without pins; its
position, if it has one, is fixed. -/
def ComponentSpec.component {α : Type} (spec : ComponentSpec α) (id : ComponentId) :
    Component α :=
  { id
    symbol := spec.symbol
    reference := spec.reference
    value := spec.value
    footprint := spec.footprint
    position := spec.position
    fixed := spec.position.isSome
    parent := spec.parent
    group := spec.group
    marker := false
    pins := ∅ }

/-- A member of a composable. -/
inductive Child where
  /-- A component. -/
  | component (id : ComponentId)
  /-- A composable. -/
  | composable (id : ComposableId)
  deriving DecidableEq, Repr, Inhabited

/-- How a composable is connected to the rest of the circuit. -/
structure Interface where
  /-- Its exposed ports by name. -/
  ports : List (String × NetId)
  /-- The nets with functional pins both inside and outside of it. -/
  bridged : List NetId
  deriving DecidableEq, Repr, Inhabited

/-- A named part of the circuit that holds components and further composables. -/
structure Composable (α : Type) where
  /-- Its place in the arena. -/
  id : ComposableId
  /-- Its name. -/
  name : String
  /-- Its placement in the frame of its parent, once it has one. -/
  position : Option (Placement α)
  /-- Whether the author chose the placement. -/
  fixed : Bool
  /-- The composable around it. -/
  parent : Option ComposableId
  /-- Its members, in the order they were added. -/
  children : List Child
  /-- The nets it exposes, by port name. -/
  ports : Table NetId
  /-- Its interface, once it has been asked for. -/
  interface : Option Interface
  deriving Repr

end Schematic
