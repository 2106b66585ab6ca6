import Schematic.Proofs.Drawing.Findings
import Schematic.Proofs.Layout.Renaming
import Schematic.Symbol.Builtin

/-!
# Drawing circuits without names

A circuit is drawn in the same way without its names: the pins lie where they
lay, the same cells are taken, and the same paths are found.  Power symbols show
the names of their nets, but they take no part in the wiring.  So two circuits
that differ in names alone get the same drawing, and what is found to be wrong
with it is the same but for the names.

## Main definitions

* `Finding.unnamed` — findings without names.
* `Wiring.Alike` — wires that differ in names alone.
* `Generation.Alike` — drawings that differ in names and power symbols alone.

## Main statements

* `DrawingContext.wiring_alike` — the wires of a circuit without names.
* `Netlist.generate_anonymous_alike` — the drawing of a circuit without names.
* `Netlist.Renames.generate_alike` — renaming neither moves nor reroutes anything.
-/

namespace Schematic

open scoped Scalar

variable {α : Type}

/-- A finding without the names of those it is about. -/
def Finding.unnamed : Finding α → Finding α
  | .placement error => .placement error.unlabelled
  | .unrouted _ _ _ error => .unrouted "" "" "" error
  | .overlap _ _ => .overlap "" ""
  | .strayPin _ symbol => .strayPin "" symbol
  | .crossesPart wire _ _ => .crossesPart wire "" ""
  | .touchesPin wire _ _ other => .touchesPin wire "" "" (other.map fun _ => "")
  | .joinsNet wire _ _ point => .joinsNet wire "" "" point
  | .unreachedPin _ _ => .unreachedPin "" ""

theorem Finding.category_unnamed (f : Finding α) : f.unnamed.category = f.category := by
  cases f <;> rfl

/-- What a drawing is made from, without names. -/
def DrawingContext.anonymous (ctx : DrawingContext α) : DrawingContext α :=
  { ctx with netlist := ctx.netlist.anonymous }

variable [Scalar α]

/-! ### Pins and boxes -/

namespace Netlist

variable (n : Netlist α) (symbols : SymbolSource α)

/-- Every pin lies where it lay. -/
theorem terminals_anonymous : n.anonymous.terminals symbols = n.terminals symbols := by
  have hterminal : n.anonymous.terminal? symbols = n.terminal? symbols := by
    funext p
    simp only [terminal?, absolute?_anonymous, components_anonymous, Array.getElem?_map]
    cases n.components[p.component]? <;> rfl
  rw [terminals, terminals, hterminal, pins_anonymous]

/-- Every component has the box that it had. -/
theorem obstacles_anonymous (padding : α) :
    ObstacleMap.ofNetlist n.anonymous symbols padding =
      ObstacleMap.ofNetlist n symbols padding := by
  simp only [ObstacleMap.ofNetlist, unmarked_anonymous, List.filterMap_map, absolute?_anonymous]
  rfl

theorem drawingContext_anonymous (config : Config α) :
    n.anonymous.drawingContext symbols config = (n.drawingContext symbols config).anonymous := by
  simp only [drawingContext, DrawingContext.ofNetlist, DrawingContext.anonymous, place_anonymous,
    terminals_anonymous, obstacles_anonymous]

end Netlist

/-! ### Wires -/

/-- Two states of the wiring differ in names and power symbols alone. -/
structure Wiring.Alike (w w' : Wiring α) : Prop where
  /-- The same cells are taken. -/
  occupancy : w.occupancy = w'.occupancy
  /-- The wires are the same. -/
  wires : w.wires = w'.wires
  /-- The connections are the same. -/
  routes : w.routes = w'.routes
  /-- The same connections were drawn as direct lines. -/
  failures : w.failures.map Finding.unnamed = w'.failures.map Finding.unnamed

namespace DrawingContext

variable (ctx : DrawingContext α)

omit [Scalar α] in
theorem drawnNets_anonymous : ctx.anonymous.drawnNets = ctx.drawnNets := by
  simp only [drawnNets, anonymous, Netlist.size_nets_anonymous, Netlist.isNoConnectNet_anonymous,
    Netlist.functionalPins_anonymous]

variable {w w' : Wiring α}

/-- A connection is drawn in the same way without names. -/
theorem connect_alike (h : w.Alike w') (net : NetId) (ends : Terminal α × Terminal α) :
    (ctx.anonymous.connect net w ends).Alike (ctx.connect net w' ends) := by
  have hescape : ctx.anonymous.escape = ctx.escape := rfl
  have hfound : ctx.anonymous.router.routeNet (ctx.escape ends.1) (ctx.escape ends.2)
      ctx.anonymous.boxes w.occupancy net =
        ctx.router.routeNet (ctx.escape ends.1) (ctx.escape ends.2) ctx.boxes w'.occupancy net := by
    rw [h.occupancy]
    rfl
  cases hpath : ctx.router.routeNet (ctx.escape ends.1) (ctx.escape ends.2) ctx.boxes w'.occupancy
      net with
  | ok path =>
    rw [hpath] at hfound
    simp only [connect, hescape, hfound, hpath, Option.toList_none, List.append_nil]
    exact ⟨congrArg (Occupancy.addWires · _) h.occupancy, congrArg (· ++ _) h.wires,
      congrArg (· ++ _) h.routes, h.failures⟩
  | error e =>
    rw [hpath] at hfound
    simp only [connect, hescape, hfound, hpath, Option.toList_some]
    refine ⟨congrArg (Occupancy.addWires · _) h.occupancy, congrArg (· ++ _) h.wires,
      congrArg (· ++ _) h.routes, ?_⟩
    rw [List.map_append, List.map_append, h.failures]
    rfl

/-- So are the wires of a net. -/
theorem wireNet_alike (h : w.Alike w') (net : NetId × List (Terminal α)) :
    (ctx.anonymous.wireNet w net).Alike (ctx.wireNet w' net) := by
  have hpower : ctx.anonymous.netlist.isPowerNet net.1 = ctx.netlist.isPowerNet net.1 :=
    ctx.netlist.isPowerNet_anonymous net.1
  have hescapes : Wiring.Alike
      { w with wires := w.wires ++ net.2.map (ctx.anonymous.escapeWire net.1) }
      { w' with wires := w'.wires ++ net.2.map (ctx.escapeWire net.1) } :=
    ⟨h.occupancy, congrArg (· ++ _) h.wires, h.routes, h.failures⟩
  rw [wireNet, wireNet, hpower]
  split
  · exact ⟨hescapes.occupancy, hescapes.wires, hescapes.routes, hescapes.failures⟩
  · exact List.foldl_rel hescapes fun ends _ _ _ h => ctx.connect_alike h net.1 ends

/-- So are all wires. -/
theorem wiring_alike : ctx.anonymous.wiring.Alike ctx.wiring := by
  rw [wiring, wiring, drawnNets_anonymous]
  exact List.foldl_rel ⟨rfl, rfl, rfl, rfl⟩ fun net _ _ _ h => ctx.wireNet_alike h net

/-- The sheet of a circuit without names has the same wires and connections, and the same
connections have failed. -/
theorem sheet_anonymous :
    ctx.anonymous.sheet.1.wires = ctx.sheet.1.wires ∧
      ctx.anonymous.sheet.1.routes = ctx.sheet.1.routes ∧
      ctx.anonymous.sheet.2.map Finding.unnamed = ctx.sheet.2.map Finding.unnamed := by
  have hwiring := ctx.wiring_alike
  have hconfig : ctx.anonymous.config = ctx.config := rfl
  simp only [sheet, hconfig]
  split
  · exact ⟨congrArg dedupWires hwiring.wires, hwiring.routes, hwiring.failures⟩
  · exact ⟨rfl, rfl, rfl⟩

end DrawingContext

/-! ### Findings -/

namespace Netlist

variable (n : Netlist α) (symbols : SymbolSource α)

theorem strayPinFindings_anonymous :
    (n.anonymous.strayPinFindings symbols).map Finding.unnamed =
      (n.strayPinFindings symbols).map Finding.unnamed := by
  have hpins : n.anonymous.strayPins symbols =
      (n.strayPins symbols).map fun e => (e.1.unnamed, e.2) := by
    have hplaced : (n.anonymous.components.toList.filter fun c =>
        !c.marker && (n.anonymous.absolute? c.id).isSome) =
          (n.components.toList.filter fun c => !c.marker && (n.absolute? c.id).isSome).map
            Component.unnamed := by
      simp only [components_anonymous, Array.toList_map, List.filter_map, absolute?_anonymous]
      rfl
    rw [strayPins, strayPins, hplaced, List.flatMap_map, List.map_flatMap]
    refine List.flatMap_congr fun c _ => ?_
    rw [List.map_map]
    rfl
  rw [strayPinFindings, strayPinFindings, hpins, List.map_map, List.map_map, List.map_map]
  rfl

theorem overlapFindings_anonymous (padding : α) :
    (n.anonymous.overlapFindings symbols padding).map Finding.unnamed =
      (n.overlapFindings symbols padding).map Finding.unnamed := by
  rw [overlapFindings, overlapFindings, obstacles_anonymous, List.map_map, List.map_map]
  rfl

theorem crossingFindings_anonymous (boxes : List (ComponentId × Rect α))
    (terminals : List (Terminal α)) (tolerance : α) (w : Wire α) :
    (n.anonymous.crossingFindings boxes terminals tolerance w).map Finding.unnamed =
      (n.crossingFindings boxes terminals tolerance w).map Finding.unnamed := by
  rw [crossingFindings, crossingFindings, List.map_map, List.map_map]
  rfl

theorem touchFindings_anonymous (terminals : List (Terminal α)) (tolerance : α) (w : Wire α) :
    (n.anonymous.touchFindings terminals tolerance w).map Finding.unnamed =
      (n.touchFindings terminals tolerance w).map Finding.unnamed := by
  rw [touchFindings, touchFindings, List.map_map, List.map_map]
  refine List.map_congr_left fun t _ => ?_
  simp only [Function.comp_apply, Finding.unnamed, Option.map_map]
  rfl

theorem jointFinding?_anonymous (tolerance : α) (p : Wire α × Wire α) :
    (n.anonymous.jointFinding? tolerance p).map Finding.unnamed =
      (n.jointFinding? tolerance p).map Finding.unnamed := by
  rw [jointFinding?, jointFinding?]
  split
  · rfl
  · rw [Option.map_map, Option.map_map]
    rfl

theorem reachFinding?_anonymous (wires : List (Wire α)) (tolerance : α) (t : Terminal α) :
    (n.anonymous.reachFinding? wires tolerance t).map Finding.unnamed =
      (n.reachFinding? wires tolerance t).map Finding.unnamed := by
  have hnet : n.anonymous.netOfPin? t.pin = n.netOfPin? t.pin := rfl
  rw [reachFinding?, reachFinding?, hnet]
  cases n.netOfPin? t.pin with
  | none => rfl
  | some net =>
    simp only [isNoConnectNet_anonymous]
    split <;> rfl

/-- What is wrong with wires is the same without names. -/
theorem wireFindings_anonymous (terminals : Array (Option (Terminal α))) (wires : List (Wire α))
    (tolerance : α) :
    (n.anonymous.wireFindings symbols terminals wires tolerance).map Finding.unnamed =
      (n.wireFindings symbols terminals wires tolerance).map Finding.unnamed := by
  simp only [wireFindings, obstacles_anonymous, List.map_append, List.map_flatMap,
    List.map_filterMap, crossingFindings_anonymous, touchFindings_anonymous,
    jointFinding?_anonymous, reachFinding?_anonymous]

end Netlist

/-! ### Drawings -/

/-- Two drawings differ in names and power symbols alone. -/
structure Generation.Alike (g g' : Generation α) : Prop where
  /-- The components have the same placements in their frames. -/
  components : g.netlist.components.map (·.position) = g'.netlist.components.map (·.position)
  /-- They lie at the same places on the sheet. -/
  absolute : ∀ id, g.netlist.absolute? id = g'.netlist.absolute? id
  /-- The composables have the same placements in their frames. -/
  composables : g.netlist.composables.map (·.position) = g'.netlist.composables.map (·.position)
  /-- They lie at the same places on the sheet. -/
  frames : ∀ id, g.netlist.composableFrame id = g'.netlist.composableFrame id
  /-- The wires are the same. -/
  wires : g.sheet.wires = g'.sheet.wires
  /-- The connections are the same. -/
  routes : g.sheet.routes = g'.sheet.routes
  /-- The findings are the same but for names. -/
  findings : g.findings.map Finding.unnamed = g'.findings.map Finding.unnamed
  /-- There are as many messages of each category. -/
  messages : ∀ c, (g.messages c).length = (g'.messages c).length

namespace Generation

variable {g g' g'' : Generation α}

theorem Alike.symm (h : g.Alike g') : g'.Alike g where
  components := h.components.symm
  absolute id := (h.absolute id).symm
  composables := h.composables.symm
  frames id := (h.frames id).symm
  wires := h.wires.symm
  routes := h.routes.symm
  findings := h.findings.symm
  messages c := (h.messages c).symm

theorem Alike.trans (h : g.Alike g') (h' : g'.Alike g'') : g.Alike g'' where
  components := h.components.trans h'.components
  absolute id := (h.absolute id).trans (h'.absolute id)
  composables := h.composables.trans h'.composables
  frames id := (h.frames id).trans (h'.frames id)
  wires := h.wires.trans h'.wires
  routes := h.routes.trans h'.routes
  findings := h.findings.trans h'.findings
  messages c := (h.messages c).trans (h'.messages c)

/-- Findings that differ in names alone give as many messages of each category. -/
theorem length_messages_eq (h : g.findings.map Finding.unnamed = g'.findings.map Finding.unnamed)
    (c : Category) : (g.messages c).length = (g'.messages c).length := by
  have hcount : ∀ d : Generation α, (d.messages c).length =
      (d.findings.map Finding.unnamed).countP fun f => f.category = c := by
    intro d
    rw [messages_eq, List.length_map, ← List.countP_eq_length_filter, List.countP_map]
    refine List.countP_congr fun f _ => ?_
    rw [Function.comp_apply, Finding.category_unnamed]
  rw [hcount, hcount, h]

end Generation

namespace Netlist

variable (n : Netlist α) (symbols : SymbolSource α) (config : Config α)

/-- What is found to be wrong with a drawing is the same without names. -/
theorem findings_anonymous :
    (n.anonymous.generate symbols config).findings.map Finding.unnamed =
      (n.generate symbols config).findings.map Finding.unnamed := by
  have hfindings : ∀ m : Netlist α, (m.generate symbols config).findings =
      (m.place symbols config.placement).2.errors.map .placement ++
        (m.place symbols config.placement).1.strayPinFindings symbols ++
        (m.drawingContext symbols config).sheet.2 ++
        (m.place symbols config.placement).1.overlapFindings symbols
          config.drawing.overlapPadding ++
        if config.drawing.emitWires then
          (m.place symbols config.placement).1.wireFindings symbols
            (m.drawingContext symbols config).terminals
            (m.drawingContext symbols config).sheet.1.wires config.drawing.touchTolerance
        else [] := fun _ => rfl
  have hplacement : ((n.anonymous.place symbols config.placement).2.errors.map
      Finding.placement).map Finding.unnamed =
        ((n.place symbols config.placement).2.errors.map Finding.placement).map
          Finding.unnamed := by
    have herrors := congrArg (List.map Finding.placement)
      (n.errors_place_anonymous symbols config.placement)
    rw [List.map_map, List.map_map] at herrors
    rwa [List.map_map, List.map_map]
  have hterminals : (n.drawingContext symbols config).anonymous.terminals =
      (n.drawingContext symbols config).terminals := rfl
  obtain ⟨hwires, -, hfailures⟩ := (n.drawingContext symbols config).sheet_anonymous
  rw [hfindings, hfindings]
  simp only [List.map_append, apply_ite (List.map Finding.unnamed), hplacement, place_anonymous,
    strayPinFindings_anonymous, drawingContext_anonymous, hfailures, overlapFindings_anonymous,
    hterminals, hwires, wireFindings_anonymous]

/-- The drawing of a circuit without names is that of the circuit, but for names. -/
theorem generate_anonymous_alike :
    (n.anonymous.generate symbols config).Alike (n.generate symbols config) := by
  have hnetlist : (n.anonymous.generate symbols config).netlist =
      (n.generate symbols config).netlist.anonymous := n.place_anonymous symbols config.placement
  have hsheet : ∀ m : Netlist α, (m.generate symbols config).sheet =
      (m.drawingContext symbols config).sheet.1 := fun _ => rfl
  obtain ⟨hwires, hroutes, -⟩ := (n.drawingContext symbols config).sheet_anonymous
  have hfindings := n.findings_anonymous symbols config
  constructor
  case components =>
    rw [hnetlist, components_anonymous, Array.map_map]
    rfl
  case absolute => exact fun id => by rw [hnetlist, absolute?_anonymous]
  case composables =>
    rw [hnetlist, composables_anonymous, Array.map_map]
    rfl
  case frames => exact fun id => by rw [hnetlist, composableFrame_anonymous]
  case wires => rw [hsheet, hsheet, drawingContext_anonymous, hwires]
  case routes => rw [hsheet, hsheet, drawingContext_anonymous, hroutes]
  case findings => exact hfindings
  case messages => exact Generation.length_messages_eq hfindings

variable {n} in
/-- Renaming a circuit, its components, nets, composables and ports neither moves nor reroutes
anything, as long as the same nets are power nets. -/
theorem Renames.generate_alike {m : Netlist α} (h : n.Renames m) :
    (n.generate symbols config).Alike (m.generate symbols config) := by
  have hm := m.generate_anonymous_alike symbols config
  rw [← h.anonymous_eq] at hm
  exact (n.generate_anonymous_alike symbols config).symm.trans hm

/-- Two resistors between a net and a ground or supply, one of them in a composable with a
port. -/
def parallel (name first second value line rail block port : String) : Netlist ℚ where
  name := name
  components :=
    #[{ ComponentSpec.component { symbol := "Device:R", reference := first, value } 0 with
        pins := ⟨⟨[("1", 0), ("2", 1)]⟩, [0, 1]⟩ },
      { ComponentSpec.component
          { symbol := "Device:R", reference := second, parent := some 0 } 1 with
        pins := ⟨⟨[("1", 2), ("2", 3)]⟩, [2, 3]⟩ }]
  pins :=
    #[⟨0, 0, "1", some 0, false⟩, ⟨1, 0, "2", some 1, false⟩, ⟨2, 1, "1", some 0, false⟩,
      ⟨3, 1, "2", some 1, false⟩]
  nets := #[⟨0, some line, [0, 2], false⟩, ⟨1, some rail, [1, 3], false⟩]
  composables := #[⟨0, block, none, false, none, [.component 1], ⟨[(port, 0)]⟩, none⟩]
  epoch := 0

/-- With other names, and a supply in place of a ground, the resistors are drawn as before. -/
theorem parallel_generate_alike :
    (parallel "load" "R1" "R2" "10k" "OUT" "GND" "bank" "a").Renames
        (parallel "heater" "R7" "RX" "22k" "DRIVE" "VCC" "coil" "hot") ∧
      ((parallel "load" "R1" "R2" "10k" "OUT" "GND" "bank" "a").generate
          SymbolLibrary.builtin.source default).Alike
        ((parallel "heater" "R7" "RX" "22k" "DRIVE" "VCC" "coil" "hot").generate
          SymbolLibrary.builtin.source default) := by
  have hrenames : (parallel "load" "R1" "R2" "10k" "OUT" "GND" "bank" "a").Renames
      (parallel "heater" "R7" "RX" "22k" "DRIVE" "VCC" "coil" "hot") := by
    constructor
    case components => simp [parallel, ComponentSpec.component, Component.unnamed]
    case pins => rfl
    case nets => simp [parallel, Net.unnamed]
    case power =>
      rintro (_ | _ | net)
      · decide
      · decide
      · rfl
    case composables => simp [parallel, Composable.unnamed]
    case epoch => rfl
  exact ⟨hrenames, hrenames.generate_alike _ _⟩

end Netlist

end Schematic
