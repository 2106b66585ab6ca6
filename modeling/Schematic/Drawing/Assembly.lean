import Schematic.Drawing.Finding
import Schematic.Drawing.PowerNet
import Schematic.Drawing.Sheet
import Schematic.Drawing.Terminal
import Schematic.Routing.Obstacles

/-!
# Drawing a placed circuit

Every pin gets a short wire that leads straight away from its component.  On a
power net a power symbol stands at the end of it; on any other net these ends
are connected in the order of the pins.  The short wires of all nets take their
cells before anything is routed, and each connection takes its cells for those
that are routed after it.

## Main definitions

* `DrawingContext` — what a drawing is made from.
* `Wiring` — the wires drawn so far.
* `DrawingContext.connect` — draw one connection.
* `DrawingContext.sheet` — the drawing, with the connections that failed.
-/

namespace Schematic

open Scalar

/-- What a drawing is made from. -/
structure DrawingContext (α : Type) where
  /-- The placed circuit. -/
  netlist : Netlist α
  /-- The symbols. -/
  symbols : SymbolSource α
  /-- The settings. -/
  config : Config α
  /-- The pins on the sheet, by number. -/
  terminals : Array (Option (Terminal α))
  /-- The boxes that wires go around. -/
  boxes : List (Rect α)

/-- The wires drawn so far. -/
structure Wiring (α : Type) where
  /-- The cells they have taken. -/
  occupancy : Occupancy α
  /-- The wires. -/
  wires : List (Wire α)
  /-- The power symbols. -/
  power : List (PowerSymbol α)
  /-- The connections. -/
  routes : List (Route α)
  /-- The connections that were drawn as direct lines. -/
  failures : List (Finding α)

variable {α : Type} [Scalar α]

/-- Attach two ends to a path between grid points, with a corner where an end
does not lie on the grid. -/
def joinEnds (a : Point α) (path : List (Point α)) (b : Point α) : List (Point α) :=
  match path.head?, path.getLast? with
  | some first, some last =>
      let lead := if a.near first 1e-9 then [] else [⟨first.x, a.y⟩, first]
      let trail := if b.near last 1e-9 then [] else [last, ⟨last.x, b.y⟩]
      compressPath (a :: (lead ++ path.tail.dropLast ++ trail ++ [b]))
  | _, _ => [a, b]

/-- The wires along the points of a line. -/
def wiresAlong (net : NetId) (line : List (Point α)) : List (Wire α) :=
  (segments line).map fun s => ⟨net, s.1, s.2⟩

/-- Note the cells that wires take. -/
def Occupancy.addWires (o : Occupancy α) (wires : List (Wire α)) : Occupancy α :=
  wires.foldl (fun o w => o.addSegment w.net w.a w.b) o

namespace DrawingContext

/-- The context of a placed circuit. -/
def ofNetlist (n : Netlist α) (symbols : SymbolSource α) (config : Config α) :
    DrawingContext α :=
  { netlist := n
    symbols
    config
    terminals := n.terminals symbols
    boxes := (ObstacleMap.ofNetlist n symbols config.router.obstaclePadding).boxes }

/-- The router in use. -/
def router (ctx : DrawingContext α) : Router α := .ofConfig ctx.config.router

/-! ### Single items -/

/-- The end of the short wire that leads away from a pin. -/
def escape (ctx : DrawingContext α) (t : Terminal α) : Point α :=
  let d := ctx.config.router.escape.distance ctx.router.pitch
  ⟨t.point.x + t.outward.x * d, t.point.y + t.outward.y * d⟩

/-- The short wire that leads away from a pin. -/
def escapeWire (ctx : DrawingContext α) (net : NetId) (t : Terminal α) : Wire α :=
  ⟨net, t.point, ctx.escape t⟩

omit [Scalar α] in
/-- A pin in the names of things that stand at it. -/
def pinKey (ctx : DrawingContext α) (pin : Pin) : String :=
  ctx.netlist.referenceOf pin ++ "_" ++ pin.key

/-- The symbol of a component. -/
def symbolInstance? (ctx : DrawingContext α) (c : Component α) : Option (SymbolInstance α) :=
  (ctx.netlist.absolute? c.id).map fun placement =>
    { component := c.id
      reference := c.reference
      symbol := c.symbol
      value := c.value.getD "~"
      footprint := c.footprint.getD ""
      placement
      pins := match ctx.symbols c.symbol with
        | some s => s.pins.map (·.number)
        | none => (c.pins.ids.filterMap (ctx.netlist.pins[·]?)).map (·.key) }

omit [Scalar α] in
/-- The flag of a pin that is intentionally unconnected. -/
def noConnectFlag? (ctx : DrawingContext α) (p : Pin) : Option (NoConnectFlag α) :=
  (ctx.terminals[p.id]?.join).map fun t => { point := t.point, key := ctx.pinKey p ++ "_nc" }

/-- The power symbol for a net of some name, and the direction from its pin to
its body, in degrees. -/
def powerSymbolFor (ctx : DrawingContext α) (name : String) : String × α :=
  let (symbol, angle) := if isGroundName name then ("power:GND", 270) else ("power:VCC", 90)
  (symbol, (((ctx.symbols symbol).bind (·.pins.head?)).map (·.angle)).getD angle)

/-- The power symbol at a pin, turned so that its body lies away from the
pin. -/
def powerSymbol (ctx : DrawingContext α) (net : NetId) (t : Terminal α) : PowerSymbol α :=
  let name := ctx.netlist.netName net
  let (symbol, bodyAngle) := ctx.powerSymbolFor name
  let outward := Scalar.atan2 (-t.outward.y) t.outward.x * (180 / Scalar.pi)
  let point := ctx.escape t
  { net
    symbol
    value := name
    placement := ⟨point.x, point.y, normalizeDegrees (Scalar.round (outward - bodyAngle))⟩
    key := ((ctx.netlist.pins[t.pin]?.map ctx.pinKey).getD "") ++ "_pwr" }

/-! ### Wiring -/

/-- Connect the ends at two pins of a net, or draw a direct line between them
when no path is found. -/
def connect (ctx : DrawingContext α) (net : NetId) (w : Wiring α)
    (ends : Terminal α × Terminal α) : Wiring α :=
  let (source, target) := ends
  let a := ctx.escape source
  let b := ctx.escape target
  let found := ctx.router.routeNet a b ctx.boxes w.occupancy net
  let (line, failure) : List (Point α) × Option (Finding α) := match found with
    | .ok path => (joinEnds a path b, none)
    | .error e =>
        ([a, b],
          some (.unrouted (ctx.netlist.netName net) (ctx.netlist.pinLabel source.pin)
            (ctx.netlist.pinLabel target.pin) e))
  let drawn := wiresAlong net line
  { w with
    occupancy := w.occupancy.addWires drawn
    wires := w.wires ++ drawn
    routes := w.routes ++
      [{ net
         source := source.pin
         target := target.pin
         path := compressPath (source.point :: (line ++ [target.point]))
         fallback := failure.isSome }]
    failures := w.failures ++ failure.toList }

/-- Draw the wires of a net. -/
def wireNet (ctx : DrawingContext α) (w : Wiring α) (net : NetId × List (Terminal α)) :
    Wiring α :=
  let w := { w with wires := w.wires ++ net.2.map (ctx.escapeWire net.1) }
  if ctx.netlist.isPowerNet net.1 then
    { w with power := w.power ++ net.2.map (ctx.powerSymbol net.1) }
  else (segments net.2).foldl (ctx.connect net.1) w

omit [Scalar α] in
/-- The nets to draw with their pins, in order: those without a marker of an
unconnected pin that have a pin on the sheet. -/
def drawnNets (ctx : DrawingContext α) : List (NetId × List (Terminal α)) :=
  let nets := (List.range ctx.netlist.nets.size).filter fun net =>
    !ctx.netlist.isNoConnectNet net
  (nets.map fun net =>
    (net, (ctx.netlist.functionalPins net).filterMap fun p => ctx.terminals[p]?.join)).filter
      fun net => !net.2.isEmpty

/-- The cells taken by the short wires of all nets. -/
def escapeOccupancy (ctx : DrawingContext α) (nets : List (NetId × List (Terminal α))) :
    Occupancy α :=
  nets.foldl (fun o net => o.addWires (net.2.map (ctx.escapeWire net.1)))
    { pitch := ctx.router.pitch }

/-- All wires. -/
def wiring (ctx : DrawingContext α) : Wiring α :=
  let nets := ctx.drawnNets
  nets.foldl ctx.wireNet
    { occupancy := ctx.escapeOccupancy nets
      wires := []
      power := []
      routes := []
      failures := [] }

/-! ### The sheet -/

/-- The drawing, and the connections that were drawn as direct lines. -/
def sheet (ctx : DrawingContext α) : Sheet α × List (Finding α) :=
  let n := ctx.netlist
  let settings := ctx.config.drawing
  let bare : Sheet α :=
    { name := n.name
      paper := settings.paper
      symbols :=
        if settings.emitSymbols then
          (n.components.toList.filter fun c => !c.marker).filterMap ctx.symbolInstance?
        else []
      power := []
      wires := []
      noConnects := (n.pins.toList.filter (·.noConnect)).filterMap ctx.noConnectFlag?
      routes := [] }
  if settings.emitWires then
    let w := ctx.wiring
    ({ bare with power := w.power, wires := dedupWires w.wires, routes := w.routes }, w.failures)
  else (bare, [])

end DrawingContext

end Schematic
