import Mathlib.Logic.Relation
import Schematic.Drawing.Assembly
import Schematic.Proofs.Circuit.Operation
import Schematic.Proofs.Lists
import Schematic.Proofs.Routing.Compression

/-!
# The pins of a net are connected

A net that is drawn with wires is drawn from pin to pin: each pin has a short
wire, and the ends of these are joined by a line, a routed one or a direct one.
A line starts where the short wire of its first pin ends, and it ends where that
of its second pin ends, or so close to it that the two count as one point.
Leaving out repetitions leaves a wire for every line that has a length.  So the
wires of the sheet connect the pins of the net.

Nothing is said about which wires are drawn, only that they are enough.  That
holds for any coordinates, exact or rounded.

## Main definitions

* `EndsAt` — a line ends at a point, or close to it.
* `DrawingContext.Draws` — a route and the line it was drawn along.
* `Adjoining` — points that are one, or joined by a wire of the sheet.
* `DrawingContext.Connected` — what the sheet has of a net.

## Main statements

* `endsAt_compressPath`, `endsAt_joinEnds` — simplifying a line keeps its ends.
* `exists_key_dedupWires` — a wire that is left out is a repetition.
* `DrawingContext.exists_drawn` — the routes of a net go from pin to pin.
* `DrawingContext.connected_sheet` — the pins of a net are connected.
-/

namespace Schematic

open Relation
open scoped Scalar

variable {α : Type} [Scalar α]

/-! ### The ends of a line -/

/-- The last point of a line is a point, or one that counts as the same. -/
def EndsAt (line : List (Point α)) (p : Point α) : Prop :=
  ∃ q, line.getLast? = some q ∧ (q = p ∨ p.near q 1e-9 = true)

theorem EndsAt.of_getLast? {line : List (Point α)} {p : Point α} (h : line.getLast? = some p) :
    EndsAt line p := ⟨p, h, .inl rfl⟩

/-- The last point is kept, unless it is close to the one that was kept before it. -/
theorem endsAt_compressAfter {rest : List (Point α)} {previous p : Point α}
    (h : rest.getLast? = some p) : EndsAt (previous :: compressAfter previous rest) p := by
  induction rest generalizing previous with
  | nil => cases h
  | cons current rest ih =>
    cases rest with
    | nil =>
      cases h
      rw [compressAfter]
      split
      · next hnear => exact ⟨previous, rfl, .inr hnear⟩
      · exact .of_getLast? rfl
    | cons next rest =>
      rw [List.getLast?_cons_cons] at h
      rw [compressAfter]
      split
      · exact ih h
      · obtain ⟨q, hq, hends⟩ : EndsAt (current :: compressAfter current (next :: rest)) p := ih h
        exact ⟨q, by rwa [List.getLast?_cons_cons], hends⟩

theorem endsAt_compressPath {line : List (Point α)} {p : Point α} (h : line.getLast? = some p) :
    EndsAt (compressPath line) p := by
  match line with
  | [] => cases h
  | [_] | [_, _] => exact .of_getLast? h
  | first :: second :: third :: rest =>
    rw [List.getLast?_cons_cons] at h
    exact endsAt_compressAfter h

theorem head?_joinEnds (a : Point α) (path : List (Point α)) (b : Point α) :
    (joinEnds a path b).head? = some a := by
  unfold joinEnds
  split
  · rw [head?_compressPath]
    rfl
  · rfl

theorem endsAt_joinEnds (a : Point α) (path : List (Point α)) (b : Point α) :
    EndsAt (joinEnds a path b) b := by
  unfold joinEnds
  split
  · refine endsAt_compressPath ?_
    rw [← List.cons_append, List.getLast?_append]
    rfl
  · exact .of_getLast? rfl

/-! ### Repetitions -/

theorem exists_key_firstOfKeys {seen : List WireKey} {wires : List (Wire α)} {w : Wire α}
    (hw : w ∈ wires) : w.key ∈ seen ∨ ∃ kept ∈ firstOfKeys seen wires, kept.key = w.key := by
  induction wires generalizing seen with
  | nil => cases hw
  | cons first wires ih =>
    rw [firstOfKeys]
    split
    · next hseen =>
      rcases List.mem_cons.1 hw with rfl | hw
      · exact .inl (List.contains_iff_mem.1 hseen)
      · exact ih hw
    · rcases List.mem_cons.1 hw with rfl | hw
      · exact .inr ⟨w, List.mem_cons_self, rfl⟩
      · have hlater : w.key ∈ first.key :: seen ∨
            ∃ kept ∈ firstOfKeys (first.key :: seen) wires, kept.key = w.key := ih hw
        rcases hlater with hkey | ⟨kept, hkept, hkey⟩
        · rcases List.mem_cons.1 hkey with hkey | hkey
          · exact .inr ⟨first, List.mem_cons_self, hkey.symm⟩
          · exact .inl hkey
        · exact .inr ⟨kept, List.mem_cons_of_mem _ hkept, hkey⟩

/-- A wire with a length is kept, or it repeats one that is. -/
theorem exists_key_dedupWires {wires : List (Wire α)} {w : Wire α} (hw : w ∈ wires) :
    (w.a == w.b) = true ∨ ∃ kept ∈ dedupWires wires, kept.key = w.key := by
  cases hlength : w.a == w.b with
  | true => exact .inl rfl
  | false =>
    have hmem : w ∈ wires.filter fun w => !(w.a == w.b) :=
      List.mem_filter.2 ⟨hw, by rw [hlength]; rfl⟩
    have hfirst : w.key ∈ [] ∨ ∃ kept ∈ dedupWires wires, kept.key = w.key :=
      exists_key_firstOfKeys hmem
    exact .inr (hfirst.resolve_left List.not_mem_nil)

/-! ### The points that a sheet connects -/

/-- A segment has no length, or a wire is drawn along it. -/
def Laid (kept : List (Wire α)) (p q : Point α) : Prop :=
  (p == q) = true ∨ ∃ w ∈ kept, w.key = .ofEnds p q

/-- Two points count as one, or the segment between them is laid. -/
def Adjoining (kept : List (Wire α)) (p q : Point α) : Prop :=
  p.near q 1e-9 = true ∨ Laid kept p q

omit [Scalar α] in
/-- Along a line of related neighbours the first member is related to every member. -/
theorem related_of_segments {β : Type} {R : β → β → Prop} (hR : Equivalence R) {line : List β}
    {p q : β} (hp : line.head? = some p) (hq : q ∈ line)
    (h : ∀ s ∈ segments line, R s.1 s.2) : R p q := by
  induction line generalizing p with
  | nil => cases hq
  | cons first rest ih =>
    cases hp
    rcases List.mem_cons.1 hq with rfl | hq
    · exact hR.refl q
    · cases rest with
      | nil => cases hq
      | cons second rest =>
        have hfirst : R first second := h (first, second) List.mem_cons_self
        exact hR.trans hfirst (ih rfl hq fun s hs => h s (List.mem_cons_of_mem _ hs))

omit [Scalar α] in
theorem mem_of_mem_segments {β : Type} {line : List β} {s : β × β} (h : s ∈ segments line) :
    s.1 ∈ line ∧ s.2 ∈ line :=
  ⟨(List.of_mem_zip h).1, List.mem_of_mem_drop (List.of_mem_zip h).2⟩

omit [Scalar α] in
theorem length_segments {β : Type} (line : List β) : (segments line).length = line.length - 1 := by
  rw [segments, List.length_zip, List.length_drop, Nat.min_eq_right (Nat.sub_le _ _)]

namespace DrawingContext

/-- A route between two pins of a net, and the line between the ends of their short wires:
what the router found with some cells taken, or a direct line if it found nothing. -/
structure Draws (ctx : DrawingContext α) (net : NetId) (ends : Terminal α × Terminal α)
    (route : Route α) (line : List (Point α)) : Prop where
  /-- The route is one of the net. -/
  net_eq : route.net = net
  /-- It starts at the first pin. -/
  source_eq : route.source = ends.1.pin
  /-- It ends at the second pin. -/
  target_eq : route.target = ends.2.pin
  /-- Its path is the line with both short wires. -/
  path_eq : route.path = compressPath (ends.1.point :: (line ++ [ends.2.point]))
  /-- The line is the router's path or a direct one. -/
  line_eq : ∃ occupancy,
    match ctx.router.routeNet (ctx.escape ends.1) (ctx.escape ends.2) ctx.boxes occupancy net with
    | .ok path =>
        route.fallback = false ∧ line = joinEnds (ctx.escape ends.1) path (ctx.escape ends.2)
    | .error _ => route.fallback = true ∧ line = [ctx.escape ends.1, ctx.escape ends.2]

variable {ctx : DrawingContext α} {net : NetId} {ends : Terminal α × Terminal α} {route : Route α}
  {line : List (Point α)}

theorem Draws.starts (h : ctx.Draws net ends route line) :
    line.head? = some (ctx.escape ends.1) := by
  obtain ⟨occupancy, hline⟩ := h.line_eq
  split at hline
  · rw [hline.2, head?_joinEnds]
  · rw [hline.2]
    rfl

theorem Draws.endsAt (h : ctx.Draws net ends route line) : EndsAt line (ctx.escape ends.2) := by
  obtain ⟨occupancy, hline⟩ := h.line_eq
  split at hline
  · rw [hline.2]
    exact endsAt_joinEnds ..
  · rw [hline.2]
    exact .of_getLast? rfl

theorem Draws.path_starts (h : ctx.Draws net ends route line) :
    route.path.head? = some ends.1.point := by
  rw [h.path_eq, head?_compressPath]
  rfl

theorem Draws.path_endsAt (h : ctx.Draws net ends route line) :
    EndsAt route.path ends.2.point := by
  rw [h.path_eq]
  refine endsAt_compressPath ?_
  rw [← List.cons_append, List.getLast?_append]
  rfl

/-! ### What wiring adds -/

/-- A connection adds a route, and the wires along its line. -/
theorem draws_connect (ctx : DrawingContext α) (net : NetId) (w : Wiring α)
    (ends : Terminal α × Terminal α) :
    ∃ route line, ctx.Draws net ends route line ∧
      (ctx.connect net w ends).routes = w.routes ++ [route] ∧
      (ctx.connect net w ends).wires = w.wires ++ wiresAlong net line := by
  refine ⟨_, _, ⟨?_, ?_, ?_, ?_, w.occupancy, ?_⟩, rfl, rfl⟩
  case refine_5 =>
    cases ctx.router.routeNet (ctx.escape ends.1) (ctx.escape ends.2) ctx.boxes w.occupancy net with
    | ok path => exact ⟨rfl, rfl⟩
    | error e => exact ⟨rfl, rfl⟩
  all_goals rfl

/-- The connections of a net add a route for each, and the wires along their lines. -/
theorem exists_drawn (ctx : DrawingContext α) (net : NetId)
    (all : List (Terminal α × Terminal α)) (w : Wiring α) :
    ∃ drawn : List (Route α × List (Point α)),
      List.Forall₂ (fun ends d => ctx.Draws net ends d.1 d.2) all drawn ∧
      (all.foldl (ctx.connect net) w).routes = w.routes ++ drawn.map Prod.fst ∧
      (all.foldl (ctx.connect net) w).wires =
        w.wires ++ drawn.flatMap fun d => wiresAlong net d.2 := by
  induction all generalizing w with
  | nil => exact ⟨[], .nil, by simp, by simp⟩
  | cons ends all ih =>
    obtain ⟨route, line, hdraws, hroutes, hwires⟩ := draws_connect ctx net w ends
    obtain ⟨drawn, hall, hroutes', hwires'⟩ := ih (ctx.connect net w ends)
    refine ⟨(route, line) :: drawn, .cons hdraws hall, ?_, ?_⟩
    · rw [List.foldl_cons, hroutes', hroutes, List.append_assoc]
      rfl
    · rw [List.foldl_cons, hwires', hwires, List.append_assoc]
      rfl

/-- The routes of one net. -/
def routesOf (net : NetId) (routes : List (Route α)) : List (Route α) :=
  routes.filter fun r => r.net = net

omit [Scalar α] in
theorem routesOf_append (net : NetId) (routes more : List (Route α)) :
    routesOf net (routes ++ more) = routesOf net routes ++ routesOf net more :=
  List.filter_append ..

/-- The pins of a net that are on the sheet, in the order in which they were tied. -/
def netTerminals (ctx : DrawingContext α) (net : NetId) : List (Terminal α) :=
  (ctx.netlist.functionalPins net).filterMap fun p => ctx.terminals[p]?.join

/-- What is drawn of a net: the short wires, and a line for each two neighbours. -/
structure Wired (ctx : DrawingContext α) (net : NetId) (pins : List (Terminal α))
    (drawn : List (Route α × List (Point α))) (wires : List (Wire α)) : Prop where
  /-- There is a route, with its line, between each two neighbours. -/
  draws : List.Forall₂ (fun ends d => ctx.Draws net ends d.1 d.2) (segments pins) drawn
  /-- The short wires are drawn. -/
  escapes : ∀ t ∈ pins, ctx.escapeWire net t ∈ wires
  /-- The lines are drawn. -/
  lines : ∀ d ∈ drawn, ∀ w ∈ wiresAlong net d.2, w ∈ wires

theorem Wired.mono {pins : List (Terminal α)} {drawn : List (Route α × List (Point α))}
    {wires more : List (Wire α)} (h : ctx.Wired net pins drawn wires) (hmore : wires ⊆ more) :
    ctx.Wired net pins drawn more where
  draws := h.draws
  escapes t ht := hmore (h.escapes t ht)
  lines d hd w hw := hmore (h.lines d hd w hw)

theorem routesOf_draws {all : List (Terminal α × Terminal α)}
    {drawn : List (Route α × List (Point α))}
    (h : List.Forall₂ (fun ends d => ctx.Draws net ends d.1 d.2) all drawn) (k : NetId) :
    routesOf k (drawn.map Prod.fst) = if net = k then drawn.map Prod.fst else [] := by
  have hnet : ∀ r ∈ drawn.map Prod.fst, r.net = net := by
    induction h with
    | nil => intro r hr; cases hr
    | cons hd _ ih =>
      intro r hr
      rcases List.mem_cons.1 hr with rfl | hr
      · exact hd.net_eq
      · exact ih r hr
  split
  · next h => exact List.filter_eq_self.2 fun r hr => decide_eq_true ((hnet r hr).trans h)
  · next h =>
    refine List.filter_eq_nil_iff.2 fun r hr heq => h ?_
    rw [← hnet r hr]
    exact of_decide_eq_true heq

/-- A net of wires gets its short wires, a route between each two neighbours and the wires
along its lines. -/
theorem exists_drawn_wireNet (ctx : DrawingContext α) (w : Wiring α)
    {e : NetId × List (Terminal α)} (hpower : ctx.netlist.isPowerNet e.1 = false) :
    ∃ drawn : List (Route α × List (Point α)),
      List.Forall₂ (fun ends d => ctx.Draws e.1 ends d.1 d.2) (segments e.2) drawn ∧
      (ctx.wireNet w e).routes = w.routes ++ drawn.map Prod.fst ∧
      (ctx.wireNet w e).wires = w.wires ++ (e.2.map (ctx.escapeWire e.1) ++
        drawn.flatMap fun d => wiresAlong e.1 d.2) := by
  obtain ⟨drawn, hdraws, hroutes, hwires⟩ := exists_drawn ctx e.1 (segments e.2)
    { w with wires := w.wires ++ e.2.map (ctx.escapeWire e.1) }
  rw [List.append_assoc] at hwires
  rw [wireNet, hpower]
  exact ⟨drawn, hdraws, hroutes, hwires⟩

theorem wireNet_wired (ctx : DrawingContext α) (w : Wiring α) {e : NetId × List (Terminal α)}
    (hpower : ctx.netlist.isPowerNet e.1 = false) :
    ∃ drawn, (ctx.wireNet w e).routes = w.routes ++ drawn.map Prod.fst ∧
      ctx.Wired e.1 e.2 drawn (ctx.wireNet w e).wires := by
  obtain ⟨drawn, hdraws, hroutes, hwires⟩ := exists_drawn_wireNet ctx w hpower
  refine ⟨drawn, hroutes, hdraws, ?_, ?_⟩
  · intro t ht
    rw [hwires]
    exact List.mem_append_right _ (List.mem_append_left _ (List.mem_map_of_mem ht))
  · intro d hd x hx
    rw [hwires]
    exact List.mem_append_right _ (List.mem_append_right _ (List.mem_flatMap.2 ⟨d, hd, hx⟩))

/-- Wiring a net takes no wire away and leaves the routes of other nets alone. -/
theorem wireNet_other (ctx : DrawingContext α) (w : Wiring α) (e : NetId × List (Terminal α)) :
    w.wires ⊆ (ctx.wireNet w e).wires ∧
      ∀ k ≠ e.1, routesOf k (ctx.wireNet w e).routes = routesOf k w.routes := by
  cases hpower : ctx.netlist.isPowerNet e.1 with
  | true =>
    rw [wireNet, if_pos hpower]
    exact ⟨List.subset_append_left _ _, fun k _ => rfl⟩
  | false =>
    obtain ⟨drawn, hdraws, hroutes, hwires⟩ := exists_drawn_wireNet ctx w hpower
    constructor
    · rw [hwires]
      exact List.subset_append_left _ _
    · intro k hk
      rw [hroutes, routesOf_append, routesOf_draws hdraws, if_neg (Ne.symm hk), List.append_nil]

theorem foldl_wireNet_other (ctx : DrawingContext α) {nets : List (NetId × List (Terminal α))}
    {k : NetId} (hk : k ∉ nets.map Prod.fst) (w : Wiring α) :
    w.wires ⊆ (nets.foldl ctx.wireNet w).wires ∧
      routesOf k (nets.foldl ctx.wireNet w).routes = routesOf k w.routes := by
  induction nets generalizing w with
  | nil => exact ⟨List.Subset.refl _, rfl⟩
  | cons e nets ih =>
    rw [List.map_cons, List.mem_cons, not_or] at hk
    obtain ⟨hwires, hroutes⟩ := wireNet_other ctx w e
    obtain ⟨hwires', hroutes'⟩ := ih hk.2 (ctx.wireNet w e)
    exact ⟨List.Subset.trans hwires hwires', hroutes'.trans (hroutes k hk.1)⟩

/-- Every net among those to draw is wired, unless it is a power net. -/
theorem foldl_wireNet_wired (ctx : DrawingContext α) {nets : List (NetId × List (Terminal α))}
    (hnodup : (nets.map Prod.fst).Nodup) {e : NetId × List (Terminal α)} (he : e ∈ nets)
    (hpower : ctx.netlist.isPowerNet e.1 = false) (w : Wiring α) :
    ∃ drawn, routesOf e.1 (nets.foldl ctx.wireNet w).routes =
        routesOf e.1 w.routes ++ drawn.map Prod.fst ∧
      ctx.Wired e.1 e.2 drawn (nets.foldl ctx.wireNet w).wires := by
  induction nets generalizing w with
  | nil => cases he
  | cons first nets ih =>
    obtain ⟨hfirst, hnodup⟩ := List.nodup_cons.1 hnodup
    rcases List.mem_cons.1 he with rfl | he
    · obtain ⟨drawn, hroutes, hwired⟩ := wireNet_wired ctx w hpower
      obtain ⟨hwires', hroutes'⟩ := foldl_wireNet_other ctx hfirst (ctx.wireNet w e)
      refine ⟨drawn, ?_, hwired.mono hwires'⟩
      rw [List.foldl_cons, hroutes', hroutes, routesOf_append, routesOf_draws hwired.draws,
        if_pos rfl]
    · obtain ⟨drawn, hroutes, hwired⟩ := ih hnodup he (ctx.wireNet w first)
      have hne : e.1 ≠ first.1 := fun heq => hfirst (heq ▸ List.mem_map_of_mem he)
      refine ⟨drawn, ?_, hwired⟩
      rw [List.foldl_cons, hroutes, (wireNet_other ctx w first).2 e.1 hne]

omit [Scalar α] in
theorem nodup_drawnNets (ctx : DrawingContext α) : (ctx.drawnNets.map Prod.fst).Nodup := by
  have hfst : ∀ nets : List NetId, (nets.map fun net => (net, ctx.netTerminals net)).map Prod.fst
      = nets := fun nets => by simp [Function.comp_def]
  have hall : ((((List.range ctx.netlist.nets.size).filter fun net =>
      !ctx.netlist.isNoConnectNet net).map fun net => (net, ctx.netTerminals net)).map
        Prod.fst).Nodup := by
    rw [hfst]
    exact List.nodup_range.filter _
  exact hall.sublist (List.filter_sublist.map Prod.fst)

omit [Scalar α] in
theorem mem_drawnNets {net : NetId} (hnet : net < ctx.netlist.nets.size)
    (hmark : ctx.netlist.isNoConnectNet net = false) (hpins : ctx.netTerminals net ≠ []) :
    (net, ctx.netTerminals net) ∈ ctx.drawnNets := by
  refine List.mem_filter.2 ⟨List.mem_map_of_mem (List.mem_filter.2 ⟨?_, ?_⟩), ?_⟩
  · exact List.mem_range.2 hnet
  · rw [hmark]
    rfl
  · rw [Bool.not_eq_true', List.isEmpty_eq_false_iff]
    exact hpins

/-! ### What the sheet has of a net -/

omit [Scalar α] in
theorem netTerminals_ne_nil {net : NetId} (h : net ∈ ctx.drawnNets.map Prod.fst) :
    ctx.netTerminals net ≠ [] := by
  obtain ⟨e, he, rfl⟩ := List.mem_map.1 h
  obtain ⟨hmem, hpins⟩ := List.mem_filter.1 he
  obtain ⟨net, -, rfl⟩ := List.mem_map.1 hmem
  rwa [Bool.not_eq_true', List.isEmpty_eq_false_iff] at hpins

/-- A net of wires is wired, also when it has no pins. -/
theorem wiring_wired (ctx : DrawingContext α) {net : NetId} (hnet : net < ctx.netlist.nets.size)
    (hpower : ctx.netlist.isPowerNet net = false)
    (hmark : ctx.netlist.isNoConnectNet net = false) :
    ∃ drawn, routesOf net ctx.wiring.routes = drawn.map Prod.fst ∧
      ctx.Wired net (ctx.netTerminals net) drawn ctx.wiring.wires := by
  by_cases hpins : ctx.netTerminals net = []
  · have hnot : net ∉ ctx.drawnNets.map Prod.fst := fun h => netTerminals_ne_nil h hpins
    refine ⟨[], (foldl_wireNet_other ctx hnot _).2, ?_⟩
    rw [hpins]
    exact ⟨.nil, fun t ht => (List.not_mem_nil ht).elim, fun d hd => (List.not_mem_nil hd).elim⟩
  · exact foldl_wireNet_wired ctx (nodup_drawnNets ctx) (mem_drawnNets hnet hmark hpins) hpower _

/-- A route and its line lead from one pin to the other along wires of the sheet. -/
structure Joins (ctx : DrawingContext α) (net : NetId) (ends : Terminal α × Terminal α)
    (route : Route α) (line : List (Point α)) : Prop extends ctx.Draws net ends route line where
  /-- The line starts at the end of the first short wire. -/
  line_starts : line.head? = some (ctx.escape ends.1)
  /-- It ends at the end of the second short wire. -/
  line_ends : EndsAt line (ctx.escape ends.2)
  /-- The path starts at the first pin. -/
  path_starts : route.path.head? = some ends.1.point
  /-- It ends at the second pin. -/
  path_ends : EndsAt route.path ends.2.point
  /-- Every segment of the line that has a length is drawn. -/
  laid : ∀ s ∈ segments line, Laid ctx.sheet.1.wires s.1 s.2

/-- The wires of the sheet connect the pins of a net, each one with the next. -/
structure Connected (ctx : DrawingContext α) (net : NetId) : Prop where
  /-- The routes of the net lead from each pin to the next one, in order. -/
  joins : ∃ drawn : List (Route α × List (Point α)),
    routesOf net ctx.sheet.1.routes = drawn.map Prod.fst ∧
      List.Forall₂ (fun ends d => ctx.Joins net ends d.1 d.2) (segments (ctx.netTerminals net)) drawn
  /-- There is one route less than there are pins. -/
  count : (routesOf net ctx.sheet.1.routes).length = (ctx.netTerminals net).length - 1
  /-- The short wires are drawn. -/
  escapes : ∀ t ∈ ctx.netTerminals net, Laid ctx.sheet.1.wires t.point (ctx.escape t)
  /-- Every two pins are connected. -/
  linked : ∀ s ∈ ctx.netTerminals net, ∀ t ∈ ctx.netTerminals net,
    EqvGen (Adjoining ctx.sheet.1.wires) s.point t.point

/-- The pins at the two ends of a line are connected. -/
theorem Joins.linked (h : ctx.Joins net ends route line)
    (hfirst : Laid ctx.sheet.1.wires ends.1.point (ctx.escape ends.1))
    (hsecond : Laid ctx.sheet.1.wires ends.2.point (ctx.escape ends.2)) :
    EqvGen (Adjoining ctx.sheet.1.wires) ends.1.point ends.2.point := by
  have hR := EqvGen.is_equivalence (Adjoining ctx.sheet.1.wires)
  obtain ⟨q, hq, hend⟩ := h.line_ends
  have hline : EqvGen (Adjoining ctx.sheet.1.wires) (ctx.escape ends.1) q :=
    related_of_segments hR h.line_starts (List.mem_of_getLast? hq) fun s hs =>
      .rel _ _ (.inr (h.laid s hs))
  have hlast : EqvGen (Adjoining ctx.sheet.1.wires) q (ctx.escape ends.2) := by
    rcases hend with rfl | hnear
    · exact hR.refl _
    · exact hR.symm (.rel _ _ (.inl hnear))
  exact hR.trans (.rel _ _ (.inr hfirst))
    (hR.trans hline (hR.trans hlast (hR.symm (.rel _ _ (.inr hsecond)))))

/-- On a sheet with wires the pins of every net that is not a power net and not marked as
unconnected are connected. -/
theorem connected_sheet (ctx : DrawingContext α) (hwires : ctx.config.drawing.emitWires = true)
    {net : NetId} (hnet : net < ctx.netlist.nets.size)
    (hpower : ctx.netlist.isPowerNet net = false)
    (hmark : ctx.netlist.isNoConnectNet net = false) : ctx.Connected net := by
  obtain ⟨drawn, hroutes, hwired⟩ := wiring_wired ctx hnet hpower hmark
  have hsheet : ctx.sheet.1.routes = ctx.wiring.routes ∧
      ctx.sheet.1.wires = dedupWires ctx.wiring.wires := by
    rw [sheet, if_pos hwires]
    exact ⟨rfl, rfl⟩
  have hlaid : ∀ w ∈ ctx.wiring.wires, Laid ctx.sheet.1.wires w.a w.b := by
    rw [hsheet.2]
    exact fun w hw => exists_key_dedupWires hw
  have hescapes : ∀ t ∈ ctx.netTerminals net, Laid ctx.sheet.1.wires t.point (ctx.escape t) :=
    fun t ht => hlaid _ (hwired.escapes t ht)
  -- a line is drawn, so that every segment of it is laid
  have hjoins : List.Forall₂ (fun ends d => ctx.Joins net ends d.1 d.2)
      (segments (ctx.netTerminals net)) drawn := by
    refine ((List.forall₂_and_left _ _).2 ⟨hwired.lines, hwired.draws.flip⟩).flip.imp ?_
    rintro ends d ⟨hlines, hdraws⟩
    refine ⟨hdraws, hdraws.starts, hdraws.endsAt, hdraws.path_starts, hdraws.path_endsAt, ?_⟩
    exact fun s hs => hlaid _ (hlines _ (List.mem_map_of_mem hs))
  refine ⟨⟨drawn, by rw [hsheet.1, hroutes], hjoins⟩, ?_, hescapes, ?_⟩
  · rw [hsheet.1, hroutes, List.length_map, ← hjoins.length_eq, length_segments]
  · -- neighbours are connected, and so each pin is with the first one
    have hnext : ∀ ends ∈ segments (ctx.netTerminals net),
        EqvGen (Adjoining ctx.sheet.1.wires) ends.1.point ends.2.point := by
      intro ends hends
      obtain ⟨d, -, hd⟩ := exists_of_mem_forall₂ hjoins hends
      obtain ⟨hsource, htarget⟩ := mem_of_mem_segments hends
      exact hd.linked (hescapes _ hsource) (hescapes _ htarget)
    have hR := (EqvGen.is_equivalence (Adjoining ctx.sheet.1.wires)).comap Terminal.point
    intro s hs t ht
    cases hpins : ctx.netTerminals net with
    | nil =>
      rw [hpins] at hs
      cases hs
    | cons first rest =>
      have hhead : (ctx.netTerminals net).head? = some first := by rw [hpins]; rfl
      have hfirst := fun x hx => related_of_segments hR (q := x) hhead hx hnext
      exact hR.trans (hR.symm (hfirst s hs)) (hfirst t ht)

/-- Three resistors in a row, their first pins on a net. -/
def resistorRow : DrawingContext ℚ :=
  ofNetlist ((Build.new "row" : Build ℚ).run [
    .addComponent { symbol := "Device:R", reference := "R1", position := some ⟨0, 0, 0⟩ },
    .addComponent { symbol := "Device:R", reference := "R2", position := some ⟨20, 0, 0⟩ },
    .addComponent { symbol := "Device:R", reference := "R3", position := some ⟨40, 0, 0⟩ },
    .addNet none, .connect 0 "1" (.net 0), .connect 1 "1" (.net 0),
    .connect 2 "1" (.net 0)]).toNetlist (fun _ => none) default

/-- Two routes connect three pins. -/
theorem resistorRow_connected :
    resistorRow.config.drawing.emitWires = true ∧ 0 < resistorRow.netlist.nets.size ∧
      resistorRow.netlist.isPowerNet 0 = false ∧ resistorRow.netlist.isNoConnectNet 0 = false ∧
        (routesOf 0 resistorRow.sheet.1.routes).length = 2 := by
  have hsize : 0 < resistorRow.netlist.nets.size := by decide +kernel
  have hpower : resistorRow.netlist.isPowerNet 0 = false := by decide +kernel
  have hmark : resistorRow.netlist.isNoConnectNet 0 = false := by decide +kernel
  have hpins : (resistorRow.netTerminals 0).length = 3 := by decide +kernel
  have hcount := (connected_sheet resistorRow rfl hsize hpower hmark).count
  rw [hpins] at hcount
  exact ⟨rfl, hsize, hpower, hmark, hcount⟩

end DrawingContext

end Schematic
