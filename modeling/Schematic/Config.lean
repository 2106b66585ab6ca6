import Schematic.Yaml.Value
import Schematic.Yaml.Writer

/-!
# Configuration

What can be set for placing, routing and drawing.  Everything has a default, so
a configuration may leave out any field, any section, or all of it.

## Main definitions

* `PlacementConfig`, `RouterConfig`, `DrawingConfig`, `Config` — the settings.
* `EscapeModel.distance` — how far wires lead straight away from a pin.
* `Config.read?`, `Config.text` — the YAML form.
-/

namespace Schematic

open Scalar

/-- How a cluster arranges its members. -/
inductive Strategy where
  /-- In rows and columns. -/
  | grid
  /-- By simulated forces. -/
  | force
  deriving DecidableEq, Repr, Inhabited

/-- How far wires lead straight away from a pin. -/
inductive EscapeModel (α : Type) where
  /-- A fixed distance. -/
  | fixed (distance : α)
  /-- A number of routing grid cells. -/
  | cells (count : Nat)
  deriving BEq, Repr

variable {α : Type} [Scalar α]

/-- The distance that wires lead straight away from a pin, on a routing grid of
some pitch. -/
def EscapeModel.distance (pitch : α) : EscapeModel α → α
  | .fixed distance => distance
  | .cells count => Scalar.ofInt count * pitch

/-- Settings for placing components. -/
structure PlacementConfig (α : Type) where
  /-- How clusters are arranged. -/
  strategy : Strategy
  /-- The steps of a force simulation. -/
  iterations : Nat
  /-- The gap between the boxes of siblings. -/
  spacing : α
  /-- The room for wires around a component, for each net it is connected to. -/
  corridorPerNet : α
  /-- The most room for wires around a component. -/
  maxCorridor : α
  /-- The largest factor by which fixed siblings may be spread. -/
  maxFixedScale : α
  /-- The pitch that positions are brought onto; none if it is zero. -/
  gridSnap : α
  /-- The strength with which siblings repel each other. -/
  repulsion : α
  /-- The strength with which connected siblings attract each other. -/
  attraction : α
  /-- The pull toward the middle. -/
  gravity : α
  /-- The share of its speed that a body keeps from step to step. -/
  damping : α
  deriving BEq, Repr

/-- Settings for routing wires. -/
structure RouterConfig (α : Type) where
  /-- The pitch of the routing grid. -/
  pitch : α
  /-- The extra cost of a change of direction. -/
  turnPenalty : Nat
  /-- The clearance kept around components. -/
  obstaclePadding : α
  /-- The free cells around a routing region. -/
  marginCells : Nat
  /-- The most cells of a routing region. -/
  maxCells : Nat
  /-- How far wires lead straight away from a pin. -/
  escape : EscapeModel α
  deriving BEq, Repr

/-- Settings for drawing a sheet. -/
structure DrawingConfig (α : Type) where
  /-- Whether wires are drawn. -/
  emitWires : Bool
  /-- Whether symbols are drawn. -/
  emitSymbols : Bool
  /-- The room around components in the search for overlaps. -/
  overlapPadding : α
  /-- The distance within which a wire touches a pin. -/
  touchTolerance : α
  /-- The paper size. -/
  paper : String
  deriving BEq, Repr

/-- All settings. -/
structure Config (α : Type) where
  /-- For placing components. -/
  placement : PlacementConfig α
  /-- For routing wires. -/
  router : RouterConfig α
  /-- For drawing a sheet. -/
  drawing : DrawingConfig α
  deriving BEq, Repr

/-! ### Defaults -/

instance : Inhabited (EscapeModel α) := ⟨.fixed 2.54⟩

instance : Inhabited (PlacementConfig α) where
  default :=
    { strategy := .grid
      iterations := 300
      spacing := 5.08
      corridorPerNet := 0.635
      maxCorridor := 5.08
      maxFixedScale := 10
      gridSnap := 1.27
      repulsion := 100
      attraction := 0.05
      gravity := 0.01
      damping := 0.85 }

instance : Inhabited (RouterConfig α) where
  default :=
    { pitch := 1.27
      turnPenalty := 4
      obstaclePadding := 0.635
      marginCells := 10
      maxCells := 4000000
      escape := default }

instance : Inhabited (DrawingConfig α) where
  default :=
    { emitWires := true
      emitSymbols := true
      overlapPadding := 0
      touchTolerance := 0.01
      paper := "A4" }

instance : Inhabited (Config α) := ⟨⟨default, default, default⟩⟩

/-! ### Reading -/

open Yaml

/-- Read a strategy. -/
def Strategy.ofNode? (n : Node) : Option Strategy :=
  match n.text? with
  | some "grid" => some .grid
  | some "force" => some .force
  | _ => none

namespace EscapeModel

/-- A distance: any number. -/
def distanceOfValue? : Value α → Option α
  | .natural n => some (Scalar.ofInt n)
  | .negative n => some (Scalar.ofInt (-n))
  | .number x => some x
  | _ => none

/-- A count of cells, up to 32 bits. -/
def countOfValue? : Value α → Option Nat
  | .natural n => if n < twoPow 32 then some n else none
  | .negative n => if n = 0 then some 0 else none
  | _ => none

/-- The name of the measure of a mode. -/
def measureName? : String → Option String
  | "fixed" => some "distance"
  | "pitch_relative" => some "cells"
  | _ => none

/-- The escape model of a mode with its measure. -/
def ofMeasure? (mode : String) (measure : Value α) : Option (EscapeModel α) :=
  match mode with
  | "fixed" => (distanceOfValue? measure).map .fixed
  | "pitch_relative" => (countOfValue? measure).map .cells
  | _ => none

/-- What a key of an escape model's record stands for. -/
inductive Key where
  /-- The mode. -/
  | mode
  /-- The measure of the mode. -/
  | measure
  /-- Nothing that is asked for. -/
  | other
  deriving DecidableEq, Repr

/-- What a key stands for: a text is a name, and a whole number counts the
measures of the mode from zero. -/
def Key.ofValue? (measure : String) : Value α → Option Key
  | .text name =>
      some (if name = "mode" then .mode else if name = measure then .measure else .other)
  | .natural n => some (if n = 0 then .measure else .other)
  | _ => none

/-- The only member of a list. -/
def only? {β : Type} : List β → Option β
  | [x] => some x
  | _ => none

/-- Read an escape model from the pairs of a record, which holds the mode and its
measure once each. -/
def ofPairs? (pairs : List (Node × Node)) : Option (EscapeModel α) := do
  let tag ← only? (pairs.filter fun p => p.1.text? = some "mode")
  let mode ← tag.2.text?
  let name ← measureName? mode
  let fields ← pairs.mapM fun p => do
    let key : Value α ← Value.ofNode? p.1
    (Key.ofValue? name key).map fun key => (key, p.2)
  let field ← only? (fields.filter fun f => f.1 = .measure)
  let measure ← Value.ofNode? field.2
  ofMeasure? mode measure

/-- The most collections inside each other in an escape model, itself included;
with the two around it a configuration reaches 128. -/
def maxDepth : Nat := 126

/-- Read an escape model: a mode with its measure, as a record or a pair. -/
def ofNode? (n : Node) : Option (EscapeModel α) :=
  if n.canHold α maxDepth then
    match n with
    | .sequence [mode, measure] => do
        let mode ← mode.text?
        let measure ← Value.ofNode? measure
        ofMeasure? mode measure
    | .mapping pairs => ofPairs? pairs
    | _ => none
  else none

end EscapeModel

/-- The largest size and count that a configuration can hold. -/
def largestCount : Nat := 18446744073709551615

/-- Read the settings for placing components. -/
def PlacementConfig.ofNode? (n : Node) : Option (PlacementConfig α) := do
  let d : PlacementConfig α := default
  let fs ← n.fields? ["strategy", "iterations", "spacing", "corridor_per_net", "max_corridor",
    "max_fixed_scale", "grid_snap", "repulsion", "attraction", "gravity", "damping"]
  let strategy ← fs.withDefault? "strategy" Strategy.ofNode? d.strategy
  let iterations ← fs.withDefault? "iterations" (Node.nat? largestCount) d.iterations
  let spacing ← fs.withDefault? "spacing" Node.scalar? d.spacing
  let corridorPerNet ← fs.withDefault? "corridor_per_net" Node.scalar? d.corridorPerNet
  let maxCorridor ← fs.withDefault? "max_corridor" Node.scalar? d.maxCorridor
  let maxFixedScale ← fs.withDefault? "max_fixed_scale" Node.scalar? d.maxFixedScale
  let gridSnap ← fs.withDefault? "grid_snap" Node.scalar? d.gridSnap
  let repulsion ← fs.withDefault? "repulsion" Node.scalar? d.repulsion
  let attraction ← fs.withDefault? "attraction" Node.scalar? d.attraction
  let gravity ← fs.withDefault? "gravity" Node.scalar? d.gravity
  let damping ← fs.withDefault? "damping" Node.scalar? d.damping
  some
    { strategy, iterations, spacing, corridorPerNet, maxCorridor, maxFixedScale, gridSnap,
      repulsion, attraction, gravity, damping }

/-- Read the settings for routing wires. -/
def RouterConfig.ofNode? (n : Node) : Option (RouterConfig α) := do
  let d : RouterConfig α := default
  let fs ← n.fields? ["pitch", "turn_penalty", "obstacle_padding", "margin_cells", "max_cells",
    "escape"]
  let pitch ← fs.withDefault? "pitch" Node.scalar? d.pitch
  let turnPenalty ← fs.withDefault? "turn_penalty" (Node.nat? 4294967295) d.turnPenalty
  let obstaclePadding ← fs.withDefault? "obstacle_padding" Node.scalar? d.obstaclePadding
  let marginCells ← fs.withDefault? "margin_cells" (Node.nat? largestCount) d.marginCells
  let maxCells ← fs.withDefault? "max_cells" (Node.nat? largestCount) d.maxCells
  let escape ← fs.withDefault? "escape" EscapeModel.ofNode? d.escape
  some { pitch, turnPenalty, obstaclePadding, marginCells, maxCells, escape }

/-- Read the settings for drawing a sheet. -/
def DrawingConfig.ofNode? (n : Node) : Option (DrawingConfig α) := do
  let d : DrawingConfig α := default
  let fs ← n.fields? ["emit_wires", "emit_symbols", "overlap_padding", "touch_tolerance", "paper"]
  let emitWires ← fs.withDefault? "emit_wires" Node.bool? d.emitWires
  let emitSymbols ← fs.withDefault? "emit_symbols" Node.bool? d.emitSymbols
  let overlapPadding ← fs.withDefault? "overlap_padding" Node.scalar? d.overlapPadding
  let touchTolerance ← fs.withDefault? "touch_tolerance" Node.scalar? d.touchTolerance
  let paper ← fs.withDefault? "paper" Node.text? d.paper
  some { emitWires, emitSymbols, overlapPadding, touchTolerance, paper }

namespace Config

/-- Read a configuration. -/
def ofNode? (n : Node) : Option (Config α) := do
  let fs ← n.fields? ["placement", "router", "assembly"]
  let placement ← fs.withDefault? "placement" PlacementConfig.ofNode? default
  let router ← fs.withDefault? "router" RouterConfig.ofNode? default
  let drawing ← fs.withDefault? "assembly" DrawingConfig.ofNode? default
  some { placement, router, drawing }

/-- Read a configuration from YAML text. -/
def read? (text : String) : Option (Config α) := (Node.read? text).bind ofNode?

/-! ### Writing -/

/-- The lines of an escape model. -/
def escapeLines : EscapeModel Float → List (String × String)
  | .fixed distance => [("mode", "fixed"), ("distance", floatScalar distance)]
  | .cells count => [("mode", "pitch_relative"), ("cells", digitText count)]

/-- The lines of a list of fields at some indentation. -/
def fieldLines (indent : String) (fields : List (String × String)) : String :=
  String.join (fields.map fun f => closeLine (indent ++ f.1 ++ ": " ++ f.2))

/-- The YAML text of a configuration, with every field written. -/
def text (c : Config Float) : String :=
  let p := c.placement
  let r := c.router
  let d := c.drawing
  "placement:\n" ++
    fieldLines "  "
      [("strategy", match p.strategy with | .grid => "grid" | .force => "force"),
       ("iterations", digitText p.iterations),
       ("spacing", floatScalar p.spacing),
       ("corridor_per_net", floatScalar p.corridorPerNet),
       ("max_corridor", floatScalar p.maxCorridor),
       ("max_fixed_scale", floatScalar p.maxFixedScale),
       ("grid_snap", floatScalar p.gridSnap),
       ("repulsion", floatScalar p.repulsion),
       ("attraction", floatScalar p.attraction),
       ("gravity", floatScalar p.gravity),
       ("damping", floatScalar p.damping)] ++
    "router:\n" ++
    fieldLines "  "
      [("pitch", floatScalar r.pitch),
       ("turn_penalty", digitText r.turnPenalty),
       ("obstacle_padding", floatScalar r.obstaclePadding),
       ("margin_cells", digitText r.marginCells),
       ("max_cells", digitText r.maxCells)] ++
    "  escape:\n" ++ fieldLines "    " (escapeLines r.escape) ++
    "assembly:\n" ++
    fieldLines "  "
      [("emit_wires", boolScalar d.emitWires),
       ("emit_symbols", boolScalar d.emitSymbols),
       ("overlap_padding", floatScalar d.overlapPadding),
       ("touch_tolerance", floatScalar d.touchTolerance),
       ("paper", textScalar "    " d.paper)]

end Config

end Schematic
