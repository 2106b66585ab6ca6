import Schematic.Document.SheetDocument
import Schematic.Proofs.Circuit.NetRecords
import Schematic.Proofs.Drawing.Findings
import Schematic.Proofs.Layout.Completeness
import Schematic.Proofs.Tables

/-!
# What stands on a sheet

Each list of a sheet comes from the circuit through a filter of its own: symbols
from the components that are no markers, flags from the pins that are marked as
unconnected, power symbols from the nets that are power nets, by their flag or by
their name.  Since everything but the markers is placed, none of these filters
loses anything on the way to the sheet, and each member of a list stands for one
entry of the circuit.

A net is either a power net, whose pins get power symbols and no routes, or it gets
routes and no power symbols; a net that carries a marker gets neither, and no wire.

## Main definitions

* `Netlist.DrawnAs` — a component and its symbol.
* `Netlist.Located` — a pin and its point on the sheet.
* `powerOf` — the power symbols of a net.
* `SExpr.DefinesUsed` — a document defines the symbols it uses.
* `Netlist.Depicted` — what stands on the sheet of a circuit.

## Main statements

* `Netlist.Completes.isSome_join_terminals` — every pin but those of markers is on the sheet.
* `DrawingContext.power_wiring`, `DrawingContext.net_mem_of_mem_foldl_wireNet` — what wiring
  adds, net by net.
* `Sheet.definesUsed_document` — each used symbol is defined once.
* `Netlist.depicted_generate` — the sheet of a circuit that was built.
-/

namespace Schematic

variable {α : Type}

/-! ### The placed circuit -/

namespace Netlist

variable {n m : Netlist α}

/-- The nets whose pins get power symbols: the power nets that carry no marker. -/
def poweredNets (n : Netlist α) : List NetId :=
  (List.range n.nets.size).filter fun net => n.isPowerNet net && !n.isNoConnectNet net

theorem mem_poweredNets_iff {net : NetId} :
    net ∈ n.poweredNets ↔ n.isPowerNet net = true ∧ n.isNoConnectNet net = false := by
  rw [poweredNets, List.mem_filter, List.mem_range, Bool.and_eq_true, Bool.not_eq_true']
  refine ⟨And.right, fun h => ⟨?_, h⟩⟩
  obtain ⟨x, hx, -⟩ := (Option.any_eq_true _ _).1 h.1
  exact (Array.getElem?_eq_some_iff.1 hx).1

section Same

variable (h : m.withoutPositions = n.withoutPositions)
include h

theorem pins_of_same : m.pins = n.pins := by
  have hpins : m.withoutPositions.pins = n.withoutPositions.pins := by rw [h]
  exact hpins

theorem nets_of_same : m.nets = n.nets := by
  have hnets : m.withoutPositions.nets = n.withoutPositions.nets := by rw [h]
  exact hnets

theorem components_size_of_same : m.components.size = n.components.size := by
  have hsize : m.withoutPositions.components.size = n.withoutPositions.components.size := by rw [h]
  simpa only [withoutPositions, Array.size_map] using hsize

theorem isMarkerPin_of_same (pin : PinId) : m.isMarkerPin pin = n.isMarkerPin pin := by
  rw [← isMarkerPin_withoutPositions, h, isMarkerPin_withoutPositions]

theorem functionalPins_of_same (net : NetId) : m.functionalPins net = n.functionalPins net := by
  rw [← functionalPins_withoutPositions, h, functionalPins_withoutPositions]

theorem isNoConnectNet_of_same (net : NetId) : m.isNoConnectNet net = n.isNoConnectNet net := by
  have hpins : m.netPins net = n.netPins net := by rw [netPins, netPins, nets_of_same h]
  rw [isNoConnectNet, isNoConnectNet, hpins]
  exact congrArg (n.netPins net).any (funext (isMarkerPin_of_same h))

theorem isPowerNet_of_same (net : NetId) : m.isPowerNet net = n.isPowerNet net := by
  rw [isPowerNet, isPowerNet, nets_of_same h]

theorem poweredNets_of_same : m.poweredNets = n.poweredNets := by
  rw [poweredNets, poweredNets, nets_of_same h]
  simp only [isPowerNet_of_same h, isNoConnectNet_of_same h]

/-- A component is the same up to its position. -/
theorem unplaced_of_same (i : ComponentId) :
    (m.components[i]?).map (·.unplaced) = (n.components[i]?).map (·.unplaced) := by
  rw [← getElem?_withoutPositions, h, getElem?_withoutPositions]

/-- The components that are no markers are the same up to their positions. -/
theorem unmarked_of_same :
    (m.components.toList.filter fun c => !c.marker).map (·.unplaced) =
      (n.components.toList.filter fun c => !c.marker).map (·.unplaced) := by
  have hall : ∀ w : Netlist α, (w.components.toList.filter fun c => !c.marker).map (·.unplaced) =
      w.withoutPositions.components.toList.filter fun c => !c.marker := by
    intro w
    rw [withoutPositions, Array.toList_map, List.filter_map]
    rfl
  rw [hall, hall, h]

end Same

variable [Scalar α] {symbols : SymbolSource α}

/-- A symbol stands for a component: it shows what is said of it, and stands where the component
lies on the sheet. -/
structure DrawnAs (m : Netlist α) (c : Component α) (i : SymbolInstance α) : Prop where
  /-- It is that of the component. -/
  component : i.component = c.id
  /-- It has the reference designator. -/
  reference : i.reference = c.reference
  /-- It is drawn with the component's symbol. -/
  symbol : i.symbol = c.symbol
  /-- It shows the value, or that there is none. -/
  value : i.value = c.value.getD "~"
  /-- It shows the footprint. -/
  footprint : i.footprint = c.footprint.getD ""
  /-- It stands at the absolute placement. -/
  placement : m.absolute? c.id = some i.placement

/-- A pin is on the sheet as a terminal. -/
def Located (m : Netlist α) (symbols : SymbolSource α) (pin : PinId) (t : Terminal α) : Prop :=
  ∃ p, m.pins[pin]? = some p ∧ m.terminal? symbols p = some t

/-- A component with a position lies on the sheet. -/
theorem exists_absolute {i : ComponentId} {c : Component α} (hc : m.components[i]? = some c)
    (hposition : c.position.isSome = true) : ∃ placement, m.absolute? i = some placement := by
  obtain ⟨p, hp⟩ := Option.isSome_iff_exists.1 hposition
  exact ⟨(m.parentFrame i).compose p, by simp only [absolute?, hc, Option.bind_some, hp,
    Option.map_some]⟩

theorem pin_eq_of_terminal? {p : Pin} {t : Terminal α} (h : m.terminal? symbols p = some t) :
    t.pin = p.id := by
  simp only [terminal?, Option.bind_eq_bind, Option.bind_eq_some_iff] at h
  obtain ⟨c, -, h⟩ := h
  split at h
  · cases h
  · obtain ⟨placement, -, h⟩ := Option.bind_eq_some_iff.1 h
    cases h
    rfl

/-- Every pin of a placed circuit is on the sheet, except for those of markers. -/
theorem Completes.isSome_terminal? (hwf : n.WellFormed) (h : n.Completes m) {pin : PinId} {p : Pin}
    (hp : m.pins[pin]? = some p) : (m.terminal? symbols p).isSome = !m.isMarkerPin pin := by
  have hlt : p.component < m.components.size := by
    rw [components_size_of_same h.same]
    exact hwf.component_lt (pins_of_same h.same ▸ hp)
  have hc := Array.getElem?_eq_getElem hlt
  rw [isMarkerPin, owner?, hp, Option.bind_some, hc, Option.any_some]
  cases hmarker : m.components[p.component].marker with
  | true => simp [terminal?, hc, hmarker]
  | false =>
    obtain ⟨placement, hplacement⟩ :=
      exists_absolute hc (h.placed _ (Array.getElem_mem hlt) hmarker)
    simp [terminal?, hc, hmarker, hplacement]

/-- Components keep their numbers when they are placed. -/
theorem Completes.id_eq (hwf : n.WellFormed) (h : n.Completes m) {i : ComponentId}
    {c : Component α} (hc : m.components[i]? = some c) : c.id = i := by
  obtain ⟨d, hd, hsame⟩ := exists_component (unplaced_of_same h.same i).symm hc
  have hid : d.unplaced.id = c.unplaced.id := congrArg (·.id) hsame
  exact hid.symm.trans (hwf.circuit.numbered.component i d hd)

theorem join_terminals_eq_some_iff {pin : PinId} {t : Terminal α} :
    (m.terminals symbols)[pin]?.join = some t ↔ m.Located symbols pin t := by
  rw [terminals, Array.getElem?_map, Located]
  cases m.pins[pin]? <;> simp

theorem Completes.isSome_join_terminals (hwf : n.WellFormed) (h : n.Completes m) {pin : PinId}
    (hlt : pin < m.pins.size) :
    (m.terminals symbols)[pin]?.join.isSome = !m.isMarkerPin pin := by
  have hp := Array.getElem?_eq_getElem hlt
  rw [terminals, Array.getElem?_map, hp]
  exact h.isSome_terminal? hwf hp

end Netlist

/-! ### Symbols and flags -/

namespace DrawingContext

variable [Scalar α] {ctx : DrawingContext α} {n : Netlist α}

/-- Every component that is no marker has its symbol. -/
theorem forall₂_symbols (hwf : n.WellFormed) (h : n.Completes ctx.netlist) :
    List.Forall₂ ctx.netlist.DrawnAs (n.components.toList.filter fun c => !c.marker)
      ((ctx.netlist.components.toList.filter fun c => !c.marker).filterMap
        ctx.symbolInstance?) := by
  let m := ctx.netlist
  have hplaced : ∀ c ∈ m.components.toList.filter fun c => !c.marker,
      (ctx.symbolInstance? c).isSome = true := by
    intro c hc
    obtain ⟨hmem, hmarker⟩ := List.mem_filter.1 hc
    obtain ⟨i, hi⟩ := Array.mem_iff_getElem?.1 (Array.mem_toList_iff.1 hmem)
    obtain ⟨placement, hplacement⟩ := Netlist.exists_absolute hi
      (h.placed c (Array.mem_of_getElem? hi) (by simpa using hmarker))
    rw [← h.id_eq hwf hi] at hplacement
    rw [symbolInstance?, hplacement]
    rfl
  have hdrawn : List.Forall₂ m.DrawnAs (m.components.toList.filter fun c => !c.marker)
      ((m.components.toList.filter fun c => !c.marker).filterMap ctx.symbolInstance?) := by
    refine (List.filter_true _ ▸ forall₂_filterMap hplaced).imp fun c i hi => ?_
    obtain ⟨placement, hplacement, rfl⟩ := Option.map_eq_some_iff.1 hi
    exact ⟨rfl, rfl, rfl, rfl, rfl, hplacement⟩
  -- a symbol does not tell where the component lies in its parent
  have hforget : ∀ {cs : List (Component α)} {is : List (SymbolInstance α)},
      List.Forall₂ m.DrawnAs (cs.map (·.unplaced)) is ↔ List.Forall₂ m.DrawnAs cs is := by
    intro cs is
    rw [List.forall₂_map_left_iff]
    exact ⟨fun hall => hall.imp fun c i hi => ⟨hi.1, hi.2, hi.3, hi.4, hi.5, hi.6⟩,
      fun hall => hall.imp fun c i hi => ⟨hi.1, hi.2, hi.3, hi.4, hi.5, hi.6⟩⟩
  rw [← hforget, ← Netlist.unmarked_of_same h.same, hforget]
  exact hdrawn

/-- Every pin that is marked as unconnected has its flag, unless it is that of a marker. -/
theorem forall₂_noConnects (hwf : n.WellFormed) (h : n.Completes ctx.netlist)
    (hterminals : ctx.terminals = ctx.netlist.terminals ctx.symbols) :
    List.Forall₂ (fun p f => ∃ t, ctx.netlist.Located ctx.symbols p.id t ∧
        f = ⟨t.point, ctx.pinKey p ++ "_nc"⟩)
      (n.pins.toList.filter fun p => p.noConnect && !n.isMarkerPin p.id)
      ((ctx.netlist.pins.toList.filter (·.noConnect)).filterMap ctx.noConnectFlag?) := by
  have hmarked : ∀ p ∈ ctx.netlist.pins.toList.filter (·.noConnect),
      (ctx.noConnectFlag? p).isSome = !ctx.netlist.isMarkerPin p.id := by
    intro p hp
    obtain ⟨i, hi⟩ := Array.mem_iff_getElem?.1 (Array.mem_toList_iff.1 (List.mem_filter.1 hp).1)
    have hlt : i < ctx.netlist.pins.size := (Array.getElem?_eq_some_iff.1 hi).1
    rw [Netlist.pins_of_same h.same] at hi
    have hid : p.id = i := hwf.circuit.numbered.pin i p hi
    rw [noConnectFlag?, Option.isSome_map, hterminals, h.isSome_join_terminals hwf (hid ▸ hlt)]
  have hpins : (n.pins.toList.filter fun p => p.noConnect && !n.isMarkerPin p.id) =
      (ctx.netlist.pins.toList.filter (·.noConnect)).filter
        fun p => !ctx.netlist.isMarkerPin p.id := by
    rw [List.filter_filter, Netlist.pins_of_same h.same]
    simp only [Netlist.isMarkerPin_of_same h.same, Bool.and_comm]
  rw [hpins]
  refine (forall₂_filterMap hmarked).imp fun p f hf => ?_
  obtain ⟨t, ht, rfl⟩ := Option.map_eq_some_iff.1 hf
  rw [hterminals, Netlist.join_terminals_eq_some_iff] at ht
  exact ⟨t, ht, rfl⟩

/-- Every functional pin of a net is on the sheet. -/
theorem forall₂_netTerminals (hwf : n.WellFormed) (h : n.Completes ctx.netlist)
    (hterminals : ctx.terminals = ctx.netlist.terminals ctx.symbols) (net : NetId) :
    List.Forall₂ (ctx.netlist.Located ctx.symbols) (n.functionalPins net)
      (ctx.netTerminals net) := by
  have hlocated : ∀ p ∈ n.functionalPins net, (ctx.terminals[p]?.join).isSome = true := by
    intro p hp
    obtain ⟨hmem, hmarker⟩ := List.mem_filter.1 hp
    have hlt : p < n.pins.size := by
      obtain ⟨x, -, hx, -⟩ := (hwf.mem_functionalPins_iff net p).1 hp
      exact (Array.getElem?_eq_some_iff.1 hx).1
    rw [hterminals, h.isSome_join_terminals hwf (Netlist.pins_of_same h.same ▸ hlt),
      Netlist.isMarkerPin_of_same h.same, hmarker]
  rw [netTerminals, Netlist.functionalPins_of_same h.same]
  refine (List.filter_true _ ▸ forall₂_filterMap hlocated).imp fun p t ht => ?_
  rwa [hterminals, Netlist.join_terminals_eq_some_iff] at ht

/-! ### What wiring adds, net by net -/

/-- The power symbols of one net. -/
def powerOf (net : NetId) (power : List (PowerSymbol α)) : List (PowerSymbol α) :=
  power.filter fun y => y.net = net

/-- Wiring a power net adds a power symbol at each of its pins; any other net gets none. -/
theorem power_wireNet (ctx : DrawingContext α) (w : Wiring α) (e : NetId × List (Terminal α)) :
    (ctx.wireNet w e).power = w.power ++
      if ctx.netlist.isPowerNet e.1 then e.2.map (ctx.powerSymbol e.1) else [] := by
  have hconnect : ∀ (all : List (Terminal α × Terminal α)) (v : Wiring α),
      (all.foldl (ctx.connect e.1) v).power = v.power := by
    intro all
    induction all with
    | nil => exact fun v => rfl
    | cons ends all ih => exact fun v => ih (ctx.connect e.1 v ends)
  rw [wireNet]
  split
  · rfl
  · rw [hconnect, List.append_nil]

theorem power_foldl_wireNet (ctx : DrawingContext α) (nets : List (NetId × List (Terminal α)))
    (w : Wiring α) :
    (nets.foldl ctx.wireNet w).power = w.power ++ nets.flatMap fun e =>
      if ctx.netlist.isPowerNet e.1 then e.2.map (ctx.powerSymbol e.1) else [] := by
  induction nets generalizing w with
  | nil => exact (List.append_nil _).symm
  | cons e nets ih => rw [List.foldl_cons, ih, power_wireNet, List.append_assoc, List.flatMap_cons]

/-- The routes of a power net are none. -/
theorem routesOf_wireNet_power (ctx : DrawingContext α) (w : Wiring α)
    (e : NetId × List (Terminal α)) {k : NetId} (hpower : ctx.netlist.isPowerNet k = true) :
    routesOf k (ctx.wireNet w e).routes = routesOf k w.routes := by
  by_cases hk : k = e.1
  · rw [wireNet, if_pos (hk ▸ hpower)]
  · exact (wireNet_other ctx w e).2 k hk

theorem routesOf_foldl_wireNet_power (ctx : DrawingContext α) {k : NetId}
    (hpower : ctx.netlist.isPowerNet k = true) (nets : List (NetId × List (Terminal α)))
    (w : Wiring α) : routesOf k (nets.foldl ctx.wireNet w).routes = routesOf k w.routes := by
  induction nets generalizing w with
  | nil => rfl
  | cons e nets ih => rw [List.foldl_cons, ih, routesOf_wireNet_power ctx w e hpower]

/-- A wire that is added when a net is wired is one of the net. -/
theorem net_eq_of_mem_wireNet {w : Wiring α} {e : NetId × List (Terminal α)} {x : Wire α}
    (hx : x ∈ (ctx.wireNet w e).wires) : x ∈ w.wires ∨ x.net = e.1 := by
  have hescape : ∀ x ∈ e.2.map (ctx.escapeWire e.1), x.net = e.1 := by
    intro x hx
    obtain ⟨t, -, rfl⟩ := List.mem_map.1 hx
    rfl
  cases hpower : ctx.netlist.isPowerNet e.1 with
  | true =>
    rw [wireNet, if_pos hpower] at hx
    exact (List.mem_append.1 hx).imp_right (hescape x)
  | false =>
    obtain ⟨drawn, -, -, hwires⟩ := exists_drawn_wireNet ctx w hpower
    rw [hwires] at hx
    refine (List.mem_append.1 hx).imp_right fun hx => ?_
    rcases List.mem_append.1 hx with hx | hx
    · exact hescape x hx
    · obtain ⟨d, -, hd⟩ := List.mem_flatMap.1 hx
      obtain ⟨s, -, rfl⟩ := List.mem_map.1 hd
      rfl

theorem net_mem_of_mem_foldl_wireNet {nets : List (NetId × List (Terminal α))} {w : Wiring α}
    {x : Wire α} (hx : x ∈ (nets.foldl ctx.wireNet w).wires) :
    x ∈ w.wires ∨ x.net ∈ nets.map Prod.fst := by
  induction nets generalizing w with
  | nil => exact .inl hx
  | cons e nets ih =>
    rcases ih hx with hx | hx
    · refine (net_eq_of_mem_wireNet hx).imp_right fun hnet => ?_
      rw [hnet]
      exact List.mem_cons_self
    · exact .inr (List.mem_cons_of_mem _ hx)

theorem firstOfKeys_sublist (seen : List WireKey) (ws : List (Wire α)) :
    (firstOfKeys seen ws).Sublist ws := by
  induction ws generalizing seen with
  | nil => exact .refl _
  | cons v ws ih =>
    rw [firstOfKeys]
    split
    · exact (ih seen).cons v
    · exact (ih _).cons_cons v

/-- Wires are only left out, and stay in order. -/
theorem dedupWires_sublist (wires : List (Wire α)) : (dedupWires wires).Sublist wires :=
  (firstOfKeys_sublist [] _).trans List.filter_sublist

theorem mem_of_mem_dedupWires {wires : List (Wire α)} {w : Wire α} (hw : w ∈ dedupWires wires) :
    w ∈ wires := (dedupWires_sublist wires).subset hw

/-- No two wires that are kept have one key. -/
theorem nodup_keys_dedupWires (wires : List (Wire α)) : ((dedupWires wires).map (·.key)).Nodup := by
  have hkept : ∀ (ws : List (Wire α)) (seen : List WireKey),
      ((firstOfKeys seen ws).map (·.key)).Nodup ∧
        ∀ w ∈ firstOfKeys seen ws, w.key ∉ seen := by
    intro ws
    induction ws with
    | nil => exact fun seen => ⟨List.nodup_nil, nofun⟩
    | cons v ws ih =>
      intro seen
      rw [firstOfKeys]
      split
      · exact ih seen
      · next hnew =>
        obtain ⟨hnodup, hunseen⟩ := ih (v.key :: seen)
        refine ⟨List.nodup_cons.2 ⟨fun hmem => ?_, hnodup⟩, List.forall_mem_cons.2 ⟨?_, ?_⟩⟩
        · obtain ⟨w, hw, hkey⟩ := List.mem_map.1 hmem
          exact hunseen w hw (hkey ▸ List.mem_cons_self)
        · exact fun hmem => hnew (List.contains_iff_mem.2 hmem)
        · exact fun w hw hmem => hunseen w hw (List.mem_cons_of_mem _ hmem)
  exact (hkept _ []).1

omit [Scalar α] in
theorem mem_map_drawnNets_iff {net : NetId} :
    net ∈ ctx.drawnNets.map Prod.fst ↔ net < ctx.netlist.nets.size ∧
      ctx.netlist.isNoConnectNet net = false ∧ ctx.netTerminals net ≠ [] := by
  constructor
  · intro h
    obtain ⟨e, he, rfl⟩ := List.mem_map.1 h
    obtain ⟨i, hi, rfl⟩ := List.mem_map.1 (List.mem_filter.1 he).1
    obtain ⟨hlt, hmark⟩ := List.mem_filter.1 hi
    exact ⟨List.mem_range.1 hlt, by simpa using hmark, netTerminals_ne_nil h⟩
  · rintro ⟨hlt, hmark, hpins⟩
    exact List.mem_map_of_mem (mem_drawnNets hlt hmark hpins)

/-- The power symbols are those at the pins of the powered nets. -/
theorem power_wiring (ctx : DrawingContext α) :
    ctx.wiring.power = ctx.netlist.poweredNets.flatMap fun net =>
      (ctx.netTerminals net).map (ctx.powerSymbol net) := by
  let symbolsAt : NetId × List (Terminal α) → List (PowerSymbol α) := fun e =>
    if ctx.netlist.isPowerNet e.1 then e.2.map (ctx.powerSymbol e.1) else []
  let free := (List.range ctx.netlist.nets.size).filter fun net => !ctx.netlist.isNoConnectNet net
  calc ctx.wiring.power
      = ctx.drawnNets.flatMap symbolsAt := power_foldl_wireNet ctx _ _
    _ = (free.map fun net => (net, ctx.netTerminals net)).flatMap symbolsAt := by
        -- a net without pins gets no power symbols
        refine flatMap_filter_eq fun e _ hempty => ?_
        rw [Bool.not_eq_false', List.isEmpty_iff] at hempty
        simp only [symbolsAt, hempty, List.map_nil, ite_self]
    _ = free.flatMap fun net => symbolsAt (net, ctx.netTerminals net) := List.flatMap_map ..
    _ = (free.filter ctx.netlist.isPowerNet).flatMap fun net =>
          symbolsAt (net, ctx.netTerminals net) :=
        (flatMap_filter_eq fun net _ hother => if_neg (by rw [hother]; decide)).symm
    _ = ctx.netlist.poweredNets.flatMap fun net => symbolsAt (net, ctx.netTerminals net) := by
        rw [List.filter_filter]
        rfl
    _ = ctx.netlist.poweredNets.flatMap fun net =>
          (ctx.netTerminals net).map (ctx.powerSymbol net) := by
        refine List.flatMap_congr fun net hnet => if_pos ?_
        exact (Netlist.mem_poweredNets_iff.1 hnet).1

/-- The power symbols of one net are those at its pins. -/
theorem powerOf_wiring (ctx : DrawingContext α) (k : NetId) :
    powerOf k ctx.wiring.power =
      if ctx.netlist.isPowerNet k = true ∧ ctx.netlist.isNoConnectNet k = false then
        (ctx.netTerminals k).map (ctx.powerSymbol k)
      else [] := by
  have hone : ∀ net, powerOf k ((ctx.netTerminals net).map (ctx.powerSymbol net)) =
      if net = k then (ctx.netTerminals net).map (ctx.powerSymbol net) else [] := by
    intro net
    have hnet : ∀ y ∈ (ctx.netTerminals net).map (ctx.powerSymbol net), y.net = net := by
      intro y hy
      obtain ⟨t, -, rfl⟩ := List.mem_map.1 hy
      rfl
    split
    · next h => exact List.filter_eq_self.2 fun y hy => decide_eq_true ((hnet y hy).trans h)
    · next h =>
      exact List.filter_eq_nil_iff.2 fun y hy heq =>
        h ((hnet y hy).symm.trans (of_decide_eq_true heq))
  have hnodup : ctx.netlist.poweredNets.Nodup := List.nodup_range.filter _
  have hparts : powerOf k ctx.wiring.power = ctx.netlist.poweredNets.flatMap fun net =>
      powerOf k ((ctx.netTerminals net).map (ctx.powerSymbol net)) := by
    rw [power_wiring, powerOf, List.filter_flatMap]
    rfl
  simp only [hparts, hone, flatMap_of_nodup hnodup, Netlist.mem_poweredNets_iff]

/-! ### The lists of a sheet -/

theorem sheet_of_wires (hemit : ctx.config.drawing.emitWires = true) :
    ctx.sheet.1.power = ctx.wiring.power ∧ ctx.sheet.1.routes = ctx.wiring.routes ∧
      ctx.sheet.1.wires = dedupWires ctx.wiring.wires := by
  rw [sheet, if_pos hemit]
  exact ⟨rfl, rfl, rfl⟩

theorem sheet_of_no_wires (hemit : ctx.config.drawing.emitWires = false) :
    ctx.sheet.1.power = [] ∧ ctx.sheet.1.routes = [] ∧ ctx.sheet.1.wires = [] := by
  rw [sheet, hemit]
  exact ⟨rfl, rfl, rfl⟩

theorem symbols_sheet (ctx : DrawingContext α) :
    ctx.sheet.1.symbols = if ctx.config.drawing.emitSymbols then
      (ctx.netlist.components.toList.filter fun c => !c.marker).filterMap ctx.symbolInstance?
    else [] := by
  rw [sheet]
  split <;> rfl

theorem noConnects_sheet (ctx : DrawingContext α) :
    ctx.sheet.1.noConnects =
      (ctx.netlist.pins.toList.filter (·.noConnect)).filterMap ctx.noConnectFlag? := by
  rw [sheet]
  split <;> rfl

/-- A power net has no routes. -/
theorem routesOf_sheet_of_power {k : NetId} (hpower : ctx.netlist.isPowerNet k = true) :
    routesOf k ctx.sheet.1.routes = [] := by
  cases hemit : ctx.config.drawing.emitWires with
  | true =>
    rw [(sheet_of_wires hemit).2.1]
    exact routesOf_foldl_wireNet_power ctx hpower _ _
  | false =>
    rw [(sheet_of_no_wires hemit).2.1]
    rfl

/-- A net has no power symbols unless it is a power net without a marker. -/
theorem powerOf_sheet_eq_nil {k : NetId}
    (h : ¬ (ctx.netlist.isPowerNet k = true ∧ ctx.netlist.isNoConnectNet k = false)) :
    powerOf k ctx.sheet.1.power = [] := by
  cases hemit : ctx.config.drawing.emitWires with
  | true => rw [(sheet_of_wires hemit).1, powerOf_wiring, if_neg h]
  | false =>
    rw [(sheet_of_no_wires hemit).1]
    rfl

/-- A net with a marker has neither wires nor routes. -/
theorem sheet_of_marked {k : NetId} (hmark : ctx.netlist.isNoConnectNet k = true) :
    (∀ w ∈ ctx.sheet.1.wires, w.net ≠ k) ∧ routesOf k ctx.sheet.1.routes = [] := by
  have hnot : k ∉ ctx.drawnNets.map Prod.fst := fun hk => by
    rw [mem_map_drawnNets_iff, hmark] at hk
    exact absurd hk.2.1 (by decide)
  cases hemit : ctx.config.drawing.emitWires with
  | true =>
    rw [(sheet_of_wires hemit).2.1, (sheet_of_wires hemit).2.2]
    refine ⟨fun w hw hnet => ?_, (foldl_wireNet_other ctx hnot _).2⟩
    rcases net_mem_of_mem_foldl_wireNet (mem_of_mem_dedupWires hw) with hw | hw
    · cases hw
    · exact hnot (hnet ▸ hw)
  | false =>
    rw [(sheet_of_no_wires hemit).2.1, (sheet_of_no_wires hemit).2.2]
    exact ⟨nofun, rfl⟩

end DrawingContext

/-! ### The symbols that a document defines -/

section Library

variable [Scalar α]

/-- A document defines each symbol that it uses, once, and no others. -/
structure SExpr.DefinesUsed (d : SExpr α) (definitions : List (SExpr α)) : Prop where
  /-- It has one list of definitions. -/
  library : d.children "lib_symbols" = [.record "lib_symbols" definitions]
  /-- No symbol is defined twice. -/
  once : (definitions.map (·.value?)).Nodup
  /-- The symbols that are defined are those that are used. -/
  used_iff : ∀ name, name ∈ definitions.map (·.value?) ↔
    name ∈ (d.children "symbol").map (fun e => e.entry? "lib_id")

omit [Scalar α] in
theorem Sheet.mem_usedSymbols_iff {s : Sheet α} {id : String} :
    id ∈ s.usedSymbols ↔ id ∈ s.symbols.map (·.symbol) ++ s.power.map (·.symbol) := by
  rw [usedSymbols, Table.mem_names_ofList, List.map_map]
  exact iff_of_eq (congrArg (id ∈ ·) (List.map_id _))

omit [Scalar α] in
theorem Sheet.nodup_usedSymbols (s : Sheet α) : s.usedSymbols.Nodup :=
  (Table.sorted_ofList _).nodup_names

/-- The parts of the document of a sheet, with the symbols they start with. -/
def Sheet.parts (s : Sheet α) (symbols : SymbolSource α) (idOf : String → String) :
    List (String × List (SExpr α)) :=
  [("version", [numbers "version" [formatVersion]]),
    ("generator", [.field "generator" generatorName]),
    ("uuid", [uuidRecord (idOf sheetKey)]),
    ("paper", [.field "paper" s.paper]),
    ("lib_symbols", [.record "lib_symbols"
      (s.usedSymbols.map fun id => libraryRecord id (symbols id))]),
    ("wire", s.wires.map (wireRecord idOf)),
    ("no_connect", s.noConnects.map (noConnectRecord idOf)),
    ("symbol", s.symbols.map (SymbolInstance.record s.name (idOf sheetKey) idOf)),
    ("symbol", s.power.mapIdx fun i p =>
      p.record s.name (idOf sheetKey) idOf (powerReference i)),
    ("sheet_instances",
      [.record "sheet_instances" [.record "path" [.string "/", .field "page" "1"]]])]

theorem Sheet.head?_parts {s : Sheet α} {symbols : SymbolSource α} {idOf : String → String} :
    ∀ p ∈ s.parts symbols idOf, ∀ x ∈ p.2, x.head? = some p.1 := by
  have hpower : ∀ x ∈ (s.power.mapIdx fun i p =>
      p.record s.name (idOf sheetKey) idOf (powerReference i)), x.head? = some "symbol" := by
    intro x hx
    obtain ⟨i, -, rfl⟩ := List.mem_mapIdx.1 hx
    rfl
  simp only [parts, List.forall_mem_cons, List.forall_mem_map]
  exact ⟨⟨rfl, nofun⟩, ⟨rfl, nofun⟩, ⟨rfl, nofun⟩, ⟨rfl, nofun⟩, ⟨rfl, nofun⟩, fun _ _ => rfl,
    fun _ _ => rfl, fun _ _ => rfl, hpower, ⟨rfl, nofun⟩, nofun⟩

/-- A document is made of its parts. -/
theorem Sheet.document_eq_parts (s : Sheet α) (symbols : SymbolSource α)
    (idOf : String → String) :
    s.document symbols idOf = .record "kicad_sch" ((s.parts symbols idOf).flatMap Prod.snd) := by
  simp only [document, parts, List.flatMap_cons, List.flatMap_nil, List.append_nil,
    List.append_assoc, List.cons_append, List.nil_append]

/-- The parts of a document under a name. -/
theorem Sheet.children_document (s : Sheet α) (symbols : SymbolSource α) (idOf : String → String)
    (name : String) :
    (s.document symbols idOf).children name =
      (s.parts symbols idOf).flatMap fun p => if p.1 = name then p.2 else [] := by
  rw [document_eq_parts, SExpr.children_record_parts head?_parts]

/-- The symbols of the items of a document. -/
theorem Sheet.libIds_document (s : Sheet α) (symbols : SymbolSource α) (idOf : String → String) :
    ((s.document symbols idOf).children "symbol").map (fun e => e.entry? "lib_id") =
      (s.symbols.map (·.symbol) ++ s.power.map (·.symbol)).map some := by
  have hitems : (s.document symbols idOf).children "symbol" =
      s.symbols.map (SymbolInstance.record s.name (idOf sheetKey) idOf) ++
        s.power.mapIdx fun i p => p.record s.name (idOf sheetKey) idOf (powerReference i) := by
    rw [children_document]
    simp [parts]
  have hpower : (s.power.mapIdx fun i p =>
      p.record s.name (idOf sheetKey) idOf (powerReference i)).map (fun e => e.entry? "lib_id") =
        s.power.map fun p => some p.symbol := by
    refine List.ext_getElem? fun i => ?_
    rw [List.getElem?_map, List.getElem?_mapIdx, List.getElem?_map, Option.map_map]
    rfl
  rw [hitems, List.map_append, hpower, List.map_map, List.map_append, List.map_map, List.map_map]
  rfl

/-- The document of a sheet defines the symbols of its items. -/
theorem Sheet.definesUsed_document (s : Sheet α) (symbols : SymbolSource α)
    (idOf : String → String) :
    (s.document symbols idOf).DefinesUsed
      (s.usedSymbols.map fun id => libraryRecord id (symbols id)) := by
  have hnames : (s.usedSymbols.map fun id => libraryRecord id (symbols id)).map (·.value?) =
      s.usedSymbols.map some := by
    rw [List.map_map]
    rfl
  constructor
  case library =>
    rw [children_document]
    simp [parts]
  case once =>
    rw [hnames]
    exact s.nodup_usedSymbols.map (Option.some_injective _)
  case used_iff =>
    intro name
    rw [hnames, libIds_document]
    simp only [List.mem_map, mem_usedSymbols_iff]

end Library

/-! ### The sheet of a circuit -/

namespace Netlist

open DrawingContext

variable [Scalar α]

/-- What stands on the sheet of a circuit once it is placed. -/
structure Depicted (n : Netlist α) (symbols : SymbolSource α) (config : Config α)
    (m : Netlist α) (s : Sheet α) : Prop where
  /-- The circuit is the same but for its positions. -/
  same : m.withoutPositions = n.withoutPositions
  /-- There is one symbol for each component that is no marker, in order. -/
  symbols_drawn : config.drawing.emitSymbols = true →
    List.Forall₂ m.DrawnAs (n.components.toList.filter fun c => !c.marker) s.symbols
  /-- There are none when symbols are not wanted. -/
  symbols_left_out : config.drawing.emitSymbols = false → s.symbols = []
  /-- There is one flag for each pin that is marked as unconnected, except for the pins of
  markers, in order. -/
  flags : List.Forall₂ (fun p f => ∃ t, m.Located symbols p.id t ∧ f.point = t.point)
    (n.pins.toList.filter fun p => p.noConnect && !n.isMarkerPin p.id) s.noConnects
  /-- A power net without a marker has one power symbol for each functional pin, in order. -/
  power : config.drawing.emitWires = true → ∀ net, n.isPowerNet net = true →
    n.isNoConnectNet net = false →
      List.Forall₂ (fun p y => ∃ t, m.Located symbols p t ∧
        y = (n.drawingContext symbols config).powerSymbol net t) (n.functionalPins net)
        (powerOf net s.power)
  /-- A power net has no routes. -/
  power_unrouted : ∀ net, n.isPowerNet net = true → routesOf net s.routes = []
  /-- Only power nets have power symbols. -/
  power_only : ∀ net, n.isPowerNet net = false → powerOf net s.power = []
  /-- A net with a marker has nothing. -/
  unconnected : ∀ net, n.isNoConnectNet net = true →
    (∀ w ∈ s.wires, w.net ≠ net) ∧ routesOf net s.routes = [] ∧ powerOf net s.power = []
  /-- Each symbol that is used is defined once in the document. -/
  library : ∀ idOf, ∃ definitions, (s.document symbols idOf).DefinesUsed definitions ∧
    ((s.document symbols idOf).children "symbol").map (fun e => e.entry? "lib_id") =
      (s.symbols.map (·.symbol) ++ s.power.map (·.symbol)).map some

/-- The sheet of a circuit that was handed out shows all of it. -/
theorem Completes.depicted {n : Netlist α} (hwf : n.WellFormed) {symbols : SymbolSource α}
    {config : Config α} (h : n.Completes (n.place symbols config.placement).1) :
    n.Depicted symbols config (n.generate symbols config).netlist
      (n.generate symbols config).sheet := by
  let ctx := n.drawingContext symbols config
  have hplaced : n.Completes ctx.netlist := h
  have hterminals : ctx.terminals = ctx.netlist.terminals ctx.symbols := rfl
  have hconfig : ctx.config = config := rfl
  have hsheet : (n.generate symbols config).sheet = ctx.sheet.1 := rfl
  have hclass : ∀ net, ctx.netlist.isPowerNet net = n.isPowerNet net := isPowerNet_of_same h.same
  have hmark : ∀ net, ctx.netlist.isNoConnectNet net = n.isNoConnectNet net :=
    isNoConnectNet_of_same h.same
  rw [hsheet]
  constructor
  case same => exact h.same
  case symbols_drawn =>
    intro hemit
    rw [symbols_sheet, hconfig, if_pos hemit]
    exact forall₂_symbols hwf hplaced
  case symbols_left_out =>
    intro hemit
    rw [symbols_sheet, hconfig, hemit]
    rfl
  case flags =>
    rw [noConnects_sheet]
    refine (forall₂_noConnects hwf hplaced hterminals).imp fun p f hf => ?_
    obtain ⟨t, ht, rfl⟩ := hf
    exact ⟨t, ht, rfl⟩
  case power =>
    intro hemit net hpower hfree
    rw [(sheet_of_wires hemit).1, powerOf_wiring, hclass, hmark, if_pos ⟨hpower, hfree⟩,
      List.forall₂_map_right_iff]
    exact (forall₂_netTerminals hwf hplaced hterminals net).imp fun p t ht => ⟨t, ht, rfl⟩
  case power_unrouted => exact fun net hpower => routesOf_sheet_of_power ((hclass net).trans hpower)
  case power_only =>
    refine fun net hpower => powerOf_sheet_eq_nil ?_
    rw [hclass, hpower]
    exact fun h => absurd h.1 (by decide)
  case unconnected =>
    intro net hmarked
    have hnone := sheet_of_marked ((hmark net).trans hmarked)
    refine ⟨hnone.1, hnone.2, powerOf_sheet_eq_nil ?_⟩
    rw [hmark, hmarked]
    exact fun h => absurd h.2 (by decide)
  case library =>
    intro idOf
    exact ⟨_, Sheet.definesUsed_document .., Sheet.libIds_document ..⟩

/-- Every circuit that was built, by any operations, is handed out, and its sheet shows all of it,
whatever the symbols and the settings are. -/
theorem depicted_generate (name : String) (ops : List (Operation α)) (symbols : SymbolSource α)
    (config : Config α) :
    ∃ n b, Build.drain ((Build.new name).run ops) = .ok n b ∧
      n.Depicted symbols config (n.generate symbols config).netlist
        (n.generate symbols config).sheet := by
  have hwf := Build.toNetlist_wellFormed (Build.wellFormed_run name ops)
  have hplaced := place_completed hwf (Build.fixedPlaced_run name ops).component
    (Build.markersUnplaced_run name ops) symbols config.placement
  exact ⟨_, _, rfl, hplaced.depicted hwf⟩

end Netlist

end Schematic
