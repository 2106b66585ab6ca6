import Schematic.Drawing.Generation
import Schematic.Proofs.Drawing.Connections
import Schematic.Proofs.Layout.Arrangement

/-!
# Where findings come from

A finding tells its category in front of its text, and no text starts with two
categories.  So the findings of a drawing fall apart again into those of the
parts that made them: placing, drawing and checking.

A connection is drawn along the router's path, with the cells taken that earlier
connections and the short wires of all nets cover, and there is no finding about
it; or the router has failed, and there is one finding that names the net and
both pins.  So the findings about routes are those about the direct lines of the
sheet, one by one.  In the same way the findings about placing are those about
the clusters whose members could not be spread.

## Main definitions

* `Category.Heads` — a message starts with a category.
* `DrawingContext.Reported` — connections as they are drawn, with the findings about them.
* `Generation.messages` — the messages that start with a category.

## Main statements

* `Category.heads_text_iff` — a finding's text starts with its category alone.
* `DrawingContext.Reported.connect`, `DrawingContext.reported_sheet` — connections are
  drawn as reported.
* `DrawingContext.Reported.forall₂` — there is a finding for each direct line.
* `Netlist.messages_placement`, `Netlist.messages_router` — the messages of a category
  are those of the part that finds such things.
* `Netlist.exists_place_errors` — the errors of placing are those of the failed clusters.
-/

namespace Schematic

open scoped Scalar

variable {α : Type} [Scalar α]

/-! ### Categories -/

namespace Category

/-- A message starts with a category's name in brackets. -/
def Heads (c : Category) (message : String) : Prop :=
  ("[" ++ c.name ++ "]").toList <+: message.toList

instance (c : Category) (message : String) : Decidable (c.Heads message) :=
  inferInstanceAs (Decidable (("[" ++ c.name ++ "]").toList <+: message.toList))

theorem eq_of_startsWith {c d : Category}
    (h : ("[" ++ c.name ++ "]").toList <+: ("[" ++ d.name ++ "]").toList) : c = d := by
  revert h
  cases c <;> cases d <;> decide

theorem eq_of_heads {c d : Category} {message : String} (hc : c.Heads message)
    (hd : d.Heads message) : c = d := by
  rcases List.prefix_or_prefix_of_prefix hc hd with h | h
  · exact eq_of_startsWith h
  · exact (eq_of_startsWith h).symm

/-- The text of a finding starts with its category and with no other one. -/
theorem heads_text_iff {c : Category} {f : Finding α} : c.Heads f.text ↔ f.category = c := by
  have hown : f.category.Heads f.text := by
    refine ⟨" ".toList ++ f.detail.toList, ?_⟩
    have hbracket : "] ".toList = "]".toList ++ " ".toList := by decide
    simp only [Finding.text, String.toList_append, hbracket, List.append_assoc]
  exact ⟨fun h => eq_of_heads hown h, fun h => h ▸ hown⟩

end Category

theorem Finding.text_placement (e : PlacementError α) :
    (Finding.placement e).text = "[placement] " ++ e.message := by
  have htag : "[" ++ Category.placement.name ++ "] " = "[placement] " := by decide +kernel
  exact congrArg (· ++ e.message) htag

theorem Finding.text_unrouted (net source target : String) (e : RouteError α) :
    (Finding.unrouted net source target e).text =
      "[router] net " ++ net ++ " (" ++ source ++ " to " ++ target ++ "): " ++ e.message ++
        "; drew a direct line" := by
  have htag : "[" ++ Category.router.name ++ "] " ++ "net " = "[router] net " := by decide +kernel
  have htext : (Finding.unrouted net source target e).text =
      "[" ++ Category.router.name ++ "] " ++ ("net " ++ net ++ " (" ++ source ++ " to " ++ target ++
        "): " ++ e.message ++ "; drew a direct line") := rfl
  simp only [htext, ← htag, String.append_assoc]

/-- The messages of a drawing that start with a category. -/
def Generation.messages (g : Generation α) (c : Category) : List String :=
  (g.findings.map (·.text)).filter fun m => c.Heads m

theorem Generation.messages_eq (g : Generation α) (c : Category) :
    g.messages c = (g.findings.filter fun f => f.category = c).map (·.text) := by
  rw [messages, List.filter_map]
  refine congrArg (List.map _) (List.filter_congr fun f _ => ?_)
  exact decide_eq_decide.2 Category.heads_text_iff

omit [Scalar α] in
/-- Of the findings of one category all are kept, or none. -/
theorem filter_category {c : Category} {findings : List (Finding α)}
    (h : ∀ f ∈ findings, f.category = c) (d : Category) :
    (findings.filter fun f => f.category = d) = if c = d then findings else [] := by
  split
  · next heq => exact List.filter_eq_self.2 fun f hf => decide_eq_true ((h f hf).trans heq)
  · next hne =>
    exact List.filter_eq_nil_iff.2 fun f hf heq => hne ((h f hf).symm.trans (of_decide_eq_true heq))

/-! ### Connections -/

namespace DrawingContext

/-- A connection between two pins of a net along a line. -/
def routeAlong (net : NetId) (ends : Terminal α × Terminal α) (line : List (Point α))
    (fallback : Bool) : Route α :=
  { net
    source := ends.1.pin
    target := ends.2.pin
    path := compressPath (ends.1.point :: (line ++ [ends.2.point]))
    fallback }

/-- The line along a path of the router. -/
def foundLine (ctx : DrawingContext α) (ends : Terminal α × Terminal α) (path : List (Point α)) :
    List (Point α) :=
  joinEnds (ctx.escape ends.1) path (ctx.escape ends.2)

/-- The direct line. -/
def directLine (ctx : DrawingContext α) (ends : Terminal α × Terminal α) : List (Point α) :=
  [ctx.escape ends.1, ctx.escape ends.2]

/-- The finding about a connection for which the router found no path. -/
def unrouted (ctx : DrawingContext α) (net : NetId) (ends : Terminal α × Terminal α)
    (e : RouteError α) : Finding α :=
  .unrouted (ctx.netlist.netName net) (ctx.netlist.pinLabel ends.1.pin)
    (ctx.netlist.pinLabel ends.2.pin) e

/-- The connections drawn so far between neighbouring pins of nets, with the cells taken and
the findings about them. -/
inductive Reported (ctx : DrawingContext α) :
    Occupancy α → List (Route α) → List (Finding α) → Prop
  /-- The short wires of all nets take their cells first. -/
  | start : Reported ctx (ctx.escapeOccupancy ctx.drawnNets) [] []
  /-- The router found a path. -/
  | found {taken : Occupancy α} {routes : List (Route α)} {failures : List (Finding α)}
      {net : NetId} {ends : Terminal α × Terminal α} {path : List (Point α)}
      (earlier : Reported ctx taken routes failures)
      (neighbours : ends ∈ segments (ctx.netTerminals net))
      (result : ctx.router.routeNet (ctx.escape ends.1) (ctx.escape ends.2) ctx.boxes taken net =
        .ok path) :
      Reported ctx (taken.addWires (wiresAlong net (ctx.foundLine ends path)))
        (routes ++ [routeAlong net ends (ctx.foundLine ends path) false]) failures
  /-- The router failed, which is reported, and a direct line was drawn. -/
  | direct {taken : Occupancy α} {routes : List (Route α)} {failures : List (Finding α)}
      {net : NetId} {ends : Terminal α × Terminal α} {e : RouteError α}
      (earlier : Reported ctx taken routes failures)
      (neighbours : ends ∈ segments (ctx.netTerminals net))
      (result : ctx.router.routeNet (ctx.escape ends.1) (ctx.escape ends.2) ctx.boxes taken net =
        .error e) :
      Reported ctx (taken.addWires (wiresAlong net (ctx.directLine ends)))
        (routes ++ [routeAlong net ends (ctx.directLine ends) true])
        (failures ++ [ctx.unrouted net ends e])

variable {ctx : DrawingContext α} {w : Wiring α}

/-- One more connection is drawn as reported. -/
theorem Reported.connect {net : NetId} {ends : Terminal α × Terminal α}
    (h : ctx.Reported w.occupancy w.routes w.failures)
    (hends : ends ∈ segments (ctx.netTerminals net)) :
    ctx.Reported (ctx.connect net w ends).occupancy (ctx.connect net w ends).routes
      (ctx.connect net w ends).failures := by
  cases hfound : ctx.router.routeNet (ctx.escape ends.1) (ctx.escape ends.2) ctx.boxes w.occupancy
    net with
  | ok path =>
    simp only [DrawingContext.connect, hfound, Option.toList_none, List.append_nil]
    exact .found h hends hfound
  | error e =>
    simp only [DrawingContext.connect, hfound]
    exact .direct h hends hfound

theorem Reported.foldl_connect {net : NetId} {all : List (Terminal α × Terminal α)}
    (h : ctx.Reported w.occupancy w.routes w.failures)
    (hall : all ⊆ segments (ctx.netTerminals net)) :
    ctx.Reported (all.foldl (ctx.connect net) w).occupancy (all.foldl (ctx.connect net) w).routes
      (all.foldl (ctx.connect net) w).failures := by
  induction all generalizing w with
  | nil => exact h
  | cons ends all ih =>
    exact ih (h.connect (hall List.mem_cons_self)) (List.subset_of_cons_subset hall)

/-- The connections of a net are drawn as reported; a net with power symbols has none. -/
theorem Reported.wireNet {e : NetId × List (Terminal α)}
    (h : ctx.Reported w.occupancy w.routes w.failures) (he : e.2 = ctx.netTerminals e.1) :
    ctx.Reported (ctx.wireNet w e).occupancy (ctx.wireNet w e).routes
      (ctx.wireNet w e).failures := by
  rw [DrawingContext.wireNet]
  split
  · exact h
  · exact Reported.foldl_connect (w := { w with wires := w.wires ++ e.2.map (ctx.escapeWire e.1) })
      h (he ▸ List.Subset.refl _)

theorem Reported.foldl_wireNet {nets : List (NetId × List (Terminal α))}
    (h : ctx.Reported w.occupancy w.routes w.failures)
    (hnets : ∀ e ∈ nets, e.2 = ctx.netTerminals e.1) :
    ctx.Reported (nets.foldl ctx.wireNet w).occupancy (nets.foldl ctx.wireNet w).routes
      (nets.foldl ctx.wireNet w).failures := by
  induction nets generalizing w with
  | nil => exact h
  | cons e nets ih =>
    refine ih (h.wireNet (hnets e List.mem_cons_self)) ?_
    intro d hd
    exact hnets d (List.mem_cons_of_mem e hd)

omit [Scalar α] in
theorem terminals_of_mem_drawnNets {e : NetId × List (Terminal α)} (he : e ∈ ctx.drawnNets) :
    e.2 = ctx.netTerminals e.1 := by
  obtain ⟨net, -, rfl⟩ := List.mem_map.1 (List.mem_filter.1 he).1
  rfl

/-- The connections of a sheet are drawn as reported. -/
theorem reported_sheet (ctx : DrawingContext α) :
    ∃ taken, ctx.Reported taken ctx.sheet.1.routes ctx.sheet.2 := by
  rw [sheet]
  split
  · exact ⟨_, Reported.foldl_wireNet .start fun e he => terminals_of_mem_drawnNets he⟩
  · exact ⟨_, .start⟩

/-- There is a finding for each direct line, in their order. -/
theorem Reported.forall₂ {taken : Occupancy α} {routes : List (Route α)}
    {failures : List (Finding α)} (h : ctx.Reported taken routes failures) :
    List.Forall₂ (fun r f => ∃ e : RouteError α, f = .unrouted (ctx.netlist.netName r.net)
      (ctx.netlist.pinLabel r.source) (ctx.netlist.pinLabel r.target) e)
      (routes.filter (·.fallback)) failures := by
  induction h with
  | start => exact .nil
  | found earlier neighbours result ih =>
    rw [List.filter_append]
    simpa [routeAlong] using ih
  | direct earlier neighbours result ih =>
    rw [List.filter_append]
    exact List.rel_append ih (.cons ⟨_, rfl⟩ .nil)

theorem Reported.category_eq {taken : Occupancy α} {routes : List (Route α)}
    {failures : List (Finding α)} (h : ctx.Reported taken routes failures) {f : Finding α}
    (hf : f ∈ failures) : f.category = .router := by
  obtain ⟨r, -, e, rfl⟩ := exists_of_mem_forall₂ h.forall₂.flip hf
  rfl

end DrawingContext

/-! ### The findings of a drawing -/

namespace Netlist

variable {n : Netlist α} {symbols : SymbolSource α}

theorem category_strayPinFindings {f : Finding α} (hf : f ∈ n.strayPinFindings symbols) :
    f.category = .verify := by
  obtain ⟨e, -, rfl⟩ := List.mem_map.1 hf
  rfl

theorem category_overlapFindings {padding : α} {f : Finding α}
    (hf : f ∈ n.overlapFindings symbols padding) : f.category = .overlap := by
  obtain ⟨p, -, rfl⟩ := List.mem_map.1 hf
  rfl

theorem category_wireFindings {terminals : Array (Option (Terminal α))} {wires : List (Wire α)}
    {tolerance : α} {f : Finding α} (hf : f ∈ n.wireFindings symbols terminals wires tolerance) :
    f.category = .verify := by
  rcases List.mem_append.1 hf with hf | hf
  · rcases List.mem_append.1 hf with hf | hf
    · obtain ⟨w, -, hf⟩ := List.mem_flatMap.1 hf
      rcases List.mem_append.1 hf with hf | hf
      · obtain ⟨b, -, rfl⟩ := List.mem_map.1 hf
        rfl
      · obtain ⟨t, -, rfl⟩ := List.mem_map.1 hf
        rfl
    · obtain ⟨p, -, hp⟩ := List.mem_filterMap.1 hf
      rw [jointFinding?] at hp
      split at hp
      · cases hp
      · obtain ⟨point, -, rfl⟩ := Option.map_eq_some_iff.1 hp
        rfl
  · obtain ⟨t, -, ht⟩ := List.mem_filterMap.1 hf
    rw [reachFinding?] at ht
    split at ht
    · cases ht
    · split at ht
      · cases ht
      · cases ht
        rfl

/-- What a circuit is drawn with once it is placed. -/
def drawingContext (n : Netlist α) (symbols : SymbolSource α) (config : Config α) :
    DrawingContext α :=
  .ofNetlist (n.place symbols config.placement).1 symbols config

variable (n symbols) (config : Config α)

/-- The findings of one category. -/
theorem filter_findings (c : Category) :
    ((n.generate symbols config).findings.filter fun f => f.category = c) =
      match c with
      | .placement => (n.place symbols config.placement).2.errors.map .placement
      | .router => (n.drawingContext symbols config).sheet.2
      | .overlap =>
        (n.place symbols config.placement).1.overlapFindings symbols config.drawing.overlapPadding
      | .verify =>
        (n.place symbols config.placement).1.strayPinFindings symbols ++
          if config.drawing.emitWires then
            (n.place symbols config.placement).1.wireFindings symbols
              (n.drawingContext symbols config).terminals
              (n.drawingContext symbols config).sheet.1.wires config.drawing.touchTolerance
          else [] := by
  have hplacement : ∀ f ∈ (n.place symbols config.placement).2.errors.map Finding.placement,
      f.category = .placement := by
    intro f hf
    obtain ⟨e, -, rfl⟩ := List.mem_map.1 hf
    rfl
  have hrouter : ∀ f ∈ (n.drawingContext symbols config).sheet.2, f.category = .router := by
    obtain ⟨taken, hreported⟩ := (n.drawingContext symbols config).reported_sheet
    exact fun f hf => hreported.category_eq hf
  have hwires : ∀ f ∈ (if config.drawing.emitWires then
      (n.place symbols config.placement).1.wireFindings symbols
        (n.drawingContext symbols config).terminals
        (n.drawingContext symbols config).sheet.1.wires config.drawing.touchTolerance
      else []), f.category = .verify := by
    intro f hf
    split at hf
    · exact category_wireFindings hf
    · cases hf
  simp only [drawingContext] at hrouter hwires ⊢
  simp only [generate, List.filter_append]
  rw [filter_category hplacement, filter_category fun f hf => category_strayPinFindings hf,
    filter_category hrouter, filter_category fun f hf => category_overlapFindings hf,
    filter_category hwires]
  cases c <;> simp

theorem messages_placement :
    (n.generate symbols config).messages .placement =
      (n.place symbols config.placement).2.errors.map fun e => "[placement] " ++ e.message := by
  rw [Generation.messages_eq, filter_findings, List.map_map]
  exact List.map_congr_left fun e _ => Finding.text_placement e

theorem messages_router :
    (n.generate symbols config).messages .router =
      (n.drawingContext symbols config).sheet.2.map (·.text) := by
  rw [Generation.messages_eq, filter_findings]

/-! ### Clusters that could not be spread -/

/-- The errors of placing are those of the clusters that fail to spread their members. -/
theorem exists_place_errors (placement : PlacementConfig α) :
    let t := ClusterTree.ofMembers n n.electrical
    let ctx := n.layoutContext symbols placement
    ∃ failing : List (NodeId × SeparationFailure α),
      (failing.map Prod.fst).Nodup ∧
      (∀ u failure, (u, failure) ∈ failing ↔ t.FailsToSpread ctx u failure) ∧
      (n.place symbols placement).2.errors = failing.map fun e => t.placementError ctx e.1 e.2 := by
  intro t ctx
  have hnodes := ClusterTree.nodesFit_ofMembers n n.electrical
  refine ⟨t.failuresBelow ctx 0, t.nodup_failuresBelow ctx 0, fun u failure => ?_,
    hnodes.errors_eq_map 0⟩
  rw [ClusterTree.mem_failuresBelow_iff]
  exact ⟨And.right, fun h => ⟨hnodes.mem_postOrder h.lt_size, h⟩⟩

end Netlist

end Schematic
