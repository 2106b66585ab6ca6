import Schematic.Circuit.Netlist

/-!
# Building a circuit

A circuit is built step by step: components are added, their pins are tied
together into nets, and pins are marked as intentionally unconnected.  Every tie
is checked before it changes anything; a net that holds the marker of an
unconnected pin never holds more than one functional pin.

A net that is merged into another one is *retired*: its slot stays empty, so
that the numbers of the other nets do not change while the circuit is built.

## Main definitions

* `Build` — a circuit under construction.
* `ConnectError` — why an operation is refused.
* `BuildM` — operations on a circuit under construction.
* `Build.tie`, `Build.tiePins`, `Build.markNoConnect` — the connection rules.
* `Build.interface` — how a composable is connected to the rest.
* `Build.drain` — the finished netlist.
-/

namespace Schematic

/-- The symbol of the markers on intentionally unconnected pins. -/
def noConnectSymbol : String := "netweave:NoConnect"

/-- Why an operation on a circuit under construction is refused. -/
inductive ConnectError where
  /-- The pin is marked as unconnected. -/
  | alreadyNoConnect (pin : String)
  /-- The net would hold a marker and more than one functional pin. -/
  | noConnectConflict (net : String)
  /-- There is no such component. -/
  | unknownComponent (id : ComponentId)
  /-- There is no such pin. -/
  | unknownPin (id : PinId)
  /-- There is no such composable. -/
  | unknownComposable (id : ComposableId)
  /-- There is no such net. -/
  | unknownNet (id : NetId)
  /-- The net was merged into another one. -/
  | retiredNet (id : NetId)
  deriving DecidableEq, Repr, Inhabited

/-- The wording of a refusal. -/
def ConnectError.message : ConnectError → String
  | .alreadyNoConnect pin => "pin " ++ pin ++ " is already marked Do-Not-Connect"
  | .noConnectConflict net =>
      "net " ++ net ++
        " contains a Do-Not-Connect marker and cannot hold more than one functional pin"
  | .unknownComponent id => "unknown component id " ++ toString id
  | .unknownPin id => "unknown pin id " ++ toString id
  | .unknownComposable id => "unknown composable id " ++ toString id
  | .unknownNet id => "unknown net id " ++ toString id
  | .retiredNet id =>
      "net " ++ toString id ++ " was merged into another net and can no longer be used"

/-- A circuit under construction. -/
structure Build (α : Type) where
  /-- The name of the circuit. -/
  name : String
  /-- How pin keys are brought into one form, if they are. -/
  numbering : Option PinNumbering := none
  /-- The components. -/
  components : Array (Component α) := #[]
  /-- The pins. -/
  pins : Array Pin := #[]
  /-- The nets; a retired one has left its slot empty. -/
  nets : Array (Option Net) := #[]
  /-- The composables. -/
  composables : Array (Composable α) := #[]

/-- An operation on a circuit under construction.  A refused operation leaves
the circuit as far as it came, so refusals come before changes. -/
abbrev BuildM (α β : Type) := EStateM ConnectError (Build α) β

/-- What a net can be tied to. -/
inductive Tie where
  /-- A pin. -/
  | pin (id : PinId)
  /-- Another net. -/
  | net (id : NetId)
  deriving DecidableEq, Repr, Inhabited

namespace Build

variable {α : Type}

/-! ### Views -/

/-- The net in a slot, when it is live. -/
def net? (b : Build α) (net : NetId) : Option Net := b.nets[net]?.join

/-- The live nets in the order they were created. -/
def liveNets (b : Build α) : List Net := b.nets.toList.filterMap id

/-- The net a pin is on. -/
def netOf? (b : Build α) (pin : PinId) : Option NetId := b.pins[pin]?.bind (·.net)

/-- The first component with a reference designator. -/
def findComponent? (b : Build α) (reference : String) : Option ComponentId :=
  (b.components.find? (·.reference == reference)).map (·.id)

/-- A pin in a message: reference designator, point, key. -/
def pinLabel (b : Build α) (pin : Pin) : String :=
  (b.components[pin.component]?.map (·.reference)).getD "" ++ "." ++ pin.key

/-- A net in a message: its name, else its number. -/
def netLabel (b : Build α) (net : NetId) : String :=
  ((b.net? net).bind (·.name)).getD ("#" ++ toString net)

/-- Whether a pin belongs to a marker of unconnected pins. -/
def isMarkerPin (b : Build α) (pin : PinId) : Bool :=
  (b.pins[pin]?.bind fun p => b.components[p.component]?).any (·.marker)

/-- Whether pins may be on one net: next to a marker there is room for a single
functional pin. -/
def compatible (b : Build α) (pins : List PinId) : Bool :=
  let functional := pins.countP fun p => !b.isMarkerPin p
  !(pins.any b.isMarkerPin && 1 < functional)

/-! ### Changes -/

/-- Forget everything but the name and the pin numbering. -/
def cleared (b : Build α) : Build α := { name := b.name, numbering := b.numbering }

/-- Add a member to a composable. -/
def addChild (b : Build α) (parent : Option ComposableId) (child : Child) : Build α :=
  match parent with
  | none => b
  | some id =>
      { b with
        composables := b.composables.modify id fun c =>
          { c with children := c.children ++ [child] } }

/-- Put a component at the end, as the last member of its parent. -/
def putComponent (b : Build α) (spec : ComponentSpec α) : Build α :=
  let id := b.components.size
  { b with components := b.components.push (spec.component id) }.addChild spec.parent
    (.component id)

/-- Put a composable at the end, as the last member of its parent; its position,
if it has one, is fixed. -/
def putComposable (b : Build α) (name : String) (parent : Option ComposableId)
    (position : Option (Placement α)) : Build α :=
  let id := b.composables.size
  let composable : Composable α :=
    { id
      name
      position
      fixed := position.isSome
      parent
      children := []
      ports := ∅
      interface := none }
  { b with composables := b.composables.push composable }.addChild parent (.composable id)

/-- Put a net without pins at the end. -/
def putNet (b : Build α) (name : Option String) : Build α :=
  { b with nets := b.nets.push (some { id := b.nets.size, name, pins := [], power := false }) }

/-- Put a pin of a component at the end. -/
def putPin (b : Build α) (component : ComponentId) (key : String) : Build α :=
  let id := b.pins.size
  { b with
    components := b.components.modify component fun c => { c with pins := c.pins.push key id }
    pins := b.pins.push { id, component, key, net := none, noConnect := false } }

/-- Make a component a marker of an unconnected pin. -/
def setMarker (b : Build α) (component : ComponentId) : Build α :=
  { b with components := b.components.modify component fun c => { c with marker := true } }

/-- Take the component and the pin that were put last away again. -/
def dropLast (b : Build α) : Build α :=
  { b with components := b.components.pop, pins := b.pins.pop }

/-- Change a net. -/
def modifyNet (b : Build α) (net : NetId) (f : Net → Net) : Build α :=
  { b with nets := b.nets.modify net (Option.map f) }

/-- Empty the slot of a net. -/
def retire (b : Build α) (net : NetId) : Build α :=
  { b with nets := b.nets.setIfInBounds net none }

/-- Say that a pin is on a net. -/
def setNetOf (b : Build α) (net : NetId) (pin : PinId) : Build α :=
  { b with pins := b.pins.modify pin fun p => { p with net := some net } }

/-- Mark a pin as intentionally unconnected. -/
def setNoConnect (b : Build α) (pin : PinId) : Build α :=
  { b with pins := b.pins.modify pin fun p => { p with noConnect := true } }

/-- Write a port of a composable. -/
def setPort (b : Build α) (composable : ComposableId) (name : String) (net : NetId) : Build α :=
  { b with
    composables := b.composables.modify composable fun c =>
      { c with ports := c.ports.insert name net } }

/-- Keep the interface of a composable. -/
def setInterface (b : Build α) (composable : ComposableId) (i : Interface) : Build α :=
  { b with composables := b.composables.modify composable fun c => { c with interface := some i } }

/-! ### Looking things up -/

/-- The live net with a number. -/
def liveNet (net : NetId) : BuildM α Net := do
  match (← get).nets[net]? with
  | some (some n) => pure n
  | some none => throw (.retiredNet net)
  | none => throw (.unknownNet net)

/-- The pin with a number. -/
def knownPin (pin : PinId) : BuildM α Pin := do
  match (← get).pins[pin]? with
  | some p => pure p
  | none => throw (.unknownPin pin)

/-- The composable with a number. -/
def knownComposable (id : ComposableId) : BuildM α (Composable α) := do
  match (← get).composables[id]? with
  | some c => pure c
  | none => throw (.unknownComposable id)

/-- Refuse a parent that does not exist. -/
def checkParent : Option ComposableId → BuildM α Unit
  | none => pure ()
  | some parent => do let _ ← knownComposable parent

/-- Change a live net. -/
def changeNet (net : NetId) (f : Net → Net) : BuildM α Unit := do
  let _ ← liveNet net
  modify (·.modifyNet net f)

/-! ### Construction -/

/-- Start again. -/
def start : BuildM α Unit := modify cleared

/-- Add a component. -/
def addComponent (spec : ComponentSpec α) : BuildM α ComponentId := do
  checkParent spec.parent
  let id := (← get).components.size
  modify (·.putComponent spec)
  pure id

/-- Add a composable. -/
def addComposable (name : String) (parent : Option ComposableId)
    (position : Option (Placement α)) : BuildM α ComposableId := do
  checkParent parent
  let id := (← get).composables.size
  modify (·.putComposable name parent position)
  pure id

/-- Add a net without pins. -/
def addNet (name : Option String) : BuildM α NetId := do
  let id := (← get).nets.size
  modify (·.putNet name)
  pure id

/-- Say whether a net is explicitly a power net. -/
def setPower (net : NetId) (power : Bool) : BuildM α Unit :=
  changeNet net fun n => { n with power }

/-- Bring all pin keys asked for from now on into one form. -/
def setNumbering (numbering : PinNumbering) : BuildM α Unit :=
  modify fun b => { b with numbering := some numbering }

/-- The form that a pin key of a component has in the tables. -/
def canonicalKey (b : Build α) (c : Component α) (key : String) : String :=
  (b.numbering.bind fun number => number c.symbol key).getD key

/-- The pin of a component with a key, which is made when it is first asked
for. -/
def pin (component : ComponentId) (key : String) : BuildM α PinId := do
  let b ← get
  match b.components[component]? with
  | none => throw (.unknownComponent component)
  | some c =>
      let key := b.canonicalKey c key
      match c.pins.find? key with
      | some id => pure id
      | none =>
          let id := b.pins.size
          modify (·.putPin component key)
          pure id

/-! ### Ties -/

/-- Refuse pins that may not be on one net. -/
def checkCompatible (net : NetId) (pins : List PinId) : BuildM α Unit := do
  let b ← get
  if b.compatible pins then pure () else throw (.noConnectConflict (b.netLabel net))

/-- Merge the net `source` into the net `into`: its slot is emptied, its pins
move, and what it was becomes part of `into`. -/
def merge (into source : NetId) : BuildM α Unit := do
  if into = source then pure ()
  else
    let target ← liveNet into
    let retired ← liveNet source
    checkCompatible into (target.pins ++ retired.pins)
    modify fun b => retired.pins.foldl (setNetOf · into) (b.retire source)
    changeNet into (·.absorb retired)

/-- Tie a pin or another net to a net.  A pin that is on the net already stays
there; a pin that is on another net brings that net along. -/
def tie (net : NetId) (target : Tie) : BuildM α Unit := do
  let n ← liveNet net
  match target with
  | .net other => merge net other
  | .pin pin =>
      let p ← knownPin pin
      if p.net = some net then pure ()
      else if p.noConnect then throw (.alreadyNoConnect ((← get).pinLabel p))
      else
        match p.net with
        | some other => merge net other
        | none =>
            checkCompatible net (n.pins ++ [pin])
            modify (·.setNetOf net pin)
            changeNet net fun n => { n with pins := n.pins ++ [pin] }

/-- Refuse a pin that is marked as unconnected. -/
def checkConnectable (p : Pin) : BuildM α Unit := do
  if p.noConnect then throw (.alreadyNoConnect ((← get).pinLabel p)) else pure ()

/-- Tie two pins together, on a new net if neither is on one.  The result is the
net both end up on. -/
def tiePins (first second : PinId) : BuildM α NetId := do
  let p ← knownPin first
  let q ← knownPin second
  checkConnectable p
  checkConnectable q
  match p.net, q.net with
  | some net, _ => tie net (.pin second); pure net
  | none, some net => tie net (.pin first); pure net
  | none, none =>
      let net ← addNet none
      tie net (.pin first)
      tie net (.pin second)
      pure net

/-- Tie the pin of a component with a key to a net or to another pin.  The
result is the net it ends up on. -/
def connect (component : ComponentId) (key : String) (target : Tie) : BuildM α NetId := do
  let p ← pin component key
  match target with
  | .net net => tie net (.pin p); pure net
  | .pin other => tiePins p other

/-- The specification of the marker of a pin. -/
def markerSpec (b : Build α) (p : Pin) (reason : Option String) : ComponentSpec α :=
  let owner := (b.components[p.component]?.map (·.reference)).getD ""
  { symbol := noConnectSymbol, reference := owner ++ "_" ++ p.key ++ "_nc", value := reason }

/-- Tie the pin of a marker to the net of the pin that it marks, or to that pin
itself when it is on no net. -/
def tieMarker (target : PinId) (p : Pin) (markerPin : PinId) : BuildM α Unit := do
  match p.net with
  | some net => tie net (.pin markerPin)
  | none => let _ ← tiePins target markerPin

/-- Mark a pin as intentionally unconnected: a marker with a single pin is added
and tied to it, and the pin refuses every further tie.  When the pin's net has
no room for a marker, the marker and its pin are taken away again.  The result
is the marker. -/
def markNoConnect (target : PinId) (reason : Option String) : BuildM α ComponentId := do
  let p ← knownPin target
  checkConnectable p
  let spec := (← get).markerSpec p reason
  let marker ← addComponent spec
  modify (·.setMarker marker)
  let markerPin ← pin marker "1"
  try
    tieMarker target p markerPin
  catch e =>
    modify dropLast
    throw e
  modify (·.setNoConnect target)
  pure marker

/-! ### Ports and interfaces -/

/-- Expose a net as a named port of a composable. -/
def expose (composable : ComposableId) (name : String) (net : NetId) : BuildM α Unit := do
  let _ ← liveNet net
  let _ ← knownComposable composable
  modify (·.setPort composable name net)

/-- The components found in a composable, at any depth of nesting up to
`fuel`. -/
def componentsInside (b : Build α) : Nat → ComposableId → List ComponentId
  | 0, _ => []
  | fuel + 1, id =>
      ((b.composables[id]?.map (·.children)).getD []).flatMap fun
        | .component c => [c]
        | .composable inner => b.componentsInside fuel inner

/-- Whether a net has functional pins both inside and outside of a set of
components. -/
def bridges (b : Build α) (inside : List ComponentId) (net : Net) : Bool :=
  let owners := (net.pins.filter fun p => !b.isMarkerPin p).filterMap fun p =>
    b.pins[p]?.map (·.component)
  owners.any inside.contains && owners.any fun c => !inside.contains c

/-- How a composable is connected to the rest of the circuit right now. -/
def currentInterface (b : Build α) (id : ComposableId) : Interface :=
  let inside := b.componentsInside (b.composables.size + 1) id
  { ports := (b.composables[id]?.map (·.ports.entries)).getD []
    bridged := (b.liveNets.filter (b.bridges inside)).map (·.id) }

/-- The interface of a composable.  It is computed when it is first asked for
and stays the same from then on. -/
def interface (id : ComposableId) : BuildM α Interface := do
  let c ← knownComposable id
  match c.interface with
  | some known => pure known
  | none =>
      let computed := (← get).currentInterface id
      modify (·.setInterface id computed)
      pure computed

/-! ### The finished netlist -/

/-- The new numbers of nets once the retired ones are left out, counted from
`next`. -/
def renumber (next : NetId) : List (Option Net) → List (Option NetId)
  | [] => []
  | none :: rest => none :: renumber next rest
  | some _ :: rest => some next :: renumber (next + 1) rest

/-- Everything built so far as a netlist, its nets numbered without gaps. -/
def toNetlist (b : Build α) : Netlist α :=
  let numbers := (renumber 0 b.nets.toList).toArray
  let number (net : NetId) : Option NetId := numbers[net]?.join
  { name := b.name
    components := b.components
    pins := b.pins.map fun p => { p with net := p.net.bind number }
    nets := (b.liveNets.mapIdx fun i n => { n with id := i }).toArray
    composables := b.composables.map fun c =>
      { c with
        ports := c.ports.filterMap number
        interface := c.interface.map fun i =>
          { ports := i.ports.filterMap fun port => (number port.2).map fun net => (port.1, net)
            bridged := i.bridged.filterMap number } }
    epoch := 0 }

/-- Hand out everything built so far and start again. -/
def drain : BuildM α (Netlist α) := do
  let b ← get
  start
  pure b.toNetlist

end Build

end Schematic
