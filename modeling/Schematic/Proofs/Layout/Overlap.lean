import Schematic.Drawing.Check
import Schematic.Proofs.Layout.Position
import Schematic.Proofs.Layout.Rows
import Schematic.Proofs.Symbol.Bounds

/-!
# A placed circuit has no overlaps

The components that are connected lie where their nodes do, up to half a pitch of
the grid of the sheet, which the room around each of them takes up; the others lie
in rows below.  So no two of them overlap when the placement reports no error.

## Main definitions

* `PlacementConfig.Roomy` — settings that leave room for bringing positions onto the
  grid.

## Main statements

* `PlacementConfig.roomy_default` — the defaults do.
* `Netlist.overlapFindings_eq_nil` — when the components are apart, the search for
  overlaps finds nothing.
* `Netlist.place_no_overlap` — a placement without errors has no overlaps.
-/

namespace Schematic

open ExactScalar
open scoped Scalar

variable {α : Type} [Scalar α] [ExactScalar α]

/-- Settings that leave room for bringing positions onto the grid of the sheet. -/
structure PlacementConfig.Roomy (config : PlacementConfig α) : Prop where
  /-- Clusters are arranged in grids. -/
  grid : config.strategy = .grid
  /-- The pitch is not negative. -/
  snap : 0 ≤ config.gridSnap
  /-- The gap between boxes is no smaller than the pitch. -/
  spacing : config.gridSnap ≤ config.spacing
  /-- The room for a net is no smaller than half the pitch. -/
  corridor : config.gridSnap / 2 ≤ config.corridorPerNet
  /-- Nor is the most room for all nets. -/
  limit : config.gridSnap / 2 ≤ config.maxCorridor

/-- The defaults leave room. -/
theorem PlacementConfig.roomy_default : (default : PlacementConfig α).Roomy := by
  constructor
  case grid => rfl
  all_goals
    simp only [default, le_iff, value_zero, value_half, value_decimal]
    norm_num

/-- The settings as numbers. -/
theorem PlacementConfig.Roomy.values {config : PlacementConfig α}
    (h : config.Roomy) :
    0 ≤ value config.gridSnap ∧ value config.gridSnap ≤ value config.spacing ∧
      value config.gridSnap / 2 ≤ value config.corridorPerNet ∧
      value config.gridSnap / 2 ≤ value config.maxCorridor := by
  have hsnap := (le_iff _ _).1 h.snap
  have hcorridor := (le_iff _ _).1 h.corridor
  have hlimit := (le_iff _ _).1 h.limit
  rw [value_half] at hcorridor hlimit
  rw [value_zero] at hsnap
  exact ⟨hsnap, (le_iff _ _).1 h.spacing, hcorridor, hlimit⟩

namespace Netlist

variable {n : Netlist α}

/-! ### The search for overlaps -/

omit [Scalar α] [ExactScalar α] in
theorem nodup_ids (hnumbered : ∀ (i : ComponentId) c, n.components[i]? = some c → c.id = i) :
    (n.components.toList.map (·.id)).Nodup :=
  nodup_map_of_found some fun i c hc => congrArg some (hnumbered i c hc)

/-- When the placed components are apart, the search for overlaps finds nothing. -/
theorem overlapFindings_eq_nil {symbols : SymbolSource α}
    (hproper : ∀ id, (symbols.localBounds id).Proper)
    (hnumbered : ∀ (i : ComponentId) c, n.components[i]? = some c → c.id = i)
    (hsquare : ∀ c ∈ n.components, c.marker = false → ∀ p, n.absolute? c.id = some p → p.Square)
    (hgap : ∀ c ∈ n.components, ∀ d ∈ n.components, c.marker = false → d.marker = false →
      c.id ≠ d.id → Gap 0 (n.site symbols c.id) (n.site symbols d.id)) :
    n.overlapFindings symbols 0 = [] := by
  have hzero : (0 : ℝ) ≤ value (0 : α) := by simp
  have hinflated : ∀ id p, ((symbols.boundingBox id p).inflate 0).Proper := fun _ _ =>
    (Rect.proper_placeBox _ _).inflate hzero
  have hbox : ∀ c ∈ n.components, ∀ p, p.Square → n.absolute? c.id = some p →
      ((symbols.boundingBox c.symbol p).inflate 0).region = n.site symbols c.id := by
    intro c hc p hp habsolute
    obtain ⟨i, hi⟩ := Array.mem_iff_getElem?.1 hc
    have hsymbol : n.symbolOf c.id = c.symbol := by
      rw [symbolOf, hnumbered i c hi, hi]
      rfl
    rw [Rect.region_inflate_zero, site_eq habsolute, hsymbol]
    exact Rect.region_placeBox (hproper c.symbol) hp
  have hentries : (ObstacleMap.ofNetlist n symbols 0).entries.Pairwise
      fun p q => p.2.overlaps q.2 = false := by
    rw [ObstacleMap.ofNetlist, List.pairwise_filterMap]
    have hids : n.components.toList.Pairwise fun c d => c.id ≠ d.id :=
      List.pairwise_map.1 (nodup_ids hnumbered)
    refine (hids.filter _).imp_of_mem fun {c d} hc hd hne e he f hf => ?_
    obtain ⟨p, hp, rfl⟩ := Option.map_eq_some_iff.1 he
    obtain ⟨q, hq, rfl⟩ := Option.map_eq_some_iff.1 hf
    obtain ⟨hc, hcmarker⟩ := List.mem_filter.1 hc
    obtain ⟨hd, hdmarker⟩ := List.mem_filter.1 hd
    rw [Array.mem_toList_iff] at hc hd
    rw [Bool.not_eq_true'] at hcmarker hdmarker
    have hpsquare := hsquare c hc hcmarker p hp
    have hqsquare := hsquare d hd hdmarker q hq
    refine (Rect.overlaps_eq_false_iff (hinflated _ _) (hinflated _ _)).2 ?_
    refine (hgap c hc d hd hcmarker hdmarker hne).mono ?_ ?_
    · exact (hbox c hc p hpsquare hp).subset
    · exact (hbox d hd q hqsquare hq).subset
  rw [overlapFindings, List.map_eq_nil_iff, List.filter_eq_nil_iff]
  intro p hp
  rw [forall_mem_pairs_iff.2 hentries p hp]
  decide

/-! ### The tree of the connected components -/

/-- The components that are placed in clusters. -/
def electricalParts (n : Netlist α) : List (Component α) :=
  n.electrical.filterMap (n.components[·]?)

omit [Scalar α] [ExactScalar α] in
theorem mem_unmarked_iff (hnumbered : ∀ (i : ComponentId) c, n.components[i]? = some c → c.id = i)
    (kind : ComponentId → Bool) {i : ComponentId} :
    i ∈ ((n.components.toList.filter fun c => !c.marker).map (·.id)).filter kind ↔
      ∃ c, n.components[i]? = some c ∧ c.marker = false ∧ kind i = true := by
  simp only [List.mem_filter, List.mem_map, Array.mem_toList_iff, Array.mem_iff_getElem?,
    Bool.not_eq_true']
  constructor
  · rintro ⟨⟨c, ⟨⟨j, hj⟩, hmarker⟩, rfl⟩, hkind⟩
    exact ⟨c, by rwa [hnumbered j c hj], hmarker, hkind⟩
  · rintro ⟨c, hc, hmarker, hkind⟩
    exact ⟨⟨c, ⟨⟨i, hc⟩, hmarker⟩, hnumbered i c hc⟩, hkind⟩

omit [Scalar α] [ExactScalar α] in
theorem nodup_unmarked (hnumbered : ∀ (i : ComponentId) c, n.components[i]? = some c → c.id = i)
    (kind : ComponentId → Bool) :
    (((n.components.toList.filter fun c => !c.marker).map (·.id)).filter kind).Nodup := by
  have hsublist := (List.filter_sublist (p := fun c : Component α => !c.marker)
    (l := n.components.toList)).map (·.id)
  exact ((nodup_ids hnumbered).sublist hsublist).filter _

omit [Scalar α] [ExactScalar α] in
theorem not_mem_mechanical {i : ComponentId} (h : i ∈ n.electrical) : i ∉ n.mechanical := by
  intro hmem
  have helectrical := (List.mem_filter.1 h).2
  have hmechanical := (List.mem_filter.1 hmem).2
  rw [helectrical] at hmechanical
  cases hmechanical

omit [Scalar α] [ExactScalar α] in
theorem map_id_electricalParts
    (hnumbered : ∀ (i : ComponentId) c, n.components[i]? = some c → c.id = i) :
    n.electricalParts.map (·.id) = n.electrical := by
  refine map_filterMap_getElem? hnumbered fun i hi => ?_
  obtain ⟨c, hc, -⟩ := (mem_unmarked_iff hnumbered _).1 hi
  exact ⟨c, hc⟩

omit [Scalar α] [ExactScalar α] in
/-- A component with a connected pin is on a net. -/
theorem one_le_connectedNetCount {i : ComponentId} (h : n.isElectrical i = true) :
    1 ≤ n.connectedNetCount i := by
  rw [isElectrical, Option.any_eq_true] at h
  obtain ⟨c, hc, hnets⟩ := h
  rw [connectedNetCount, hc]
  cases hlist : n.netsOfPins c with
  | nil =>
    rw [hlist] at hnets
    cases hnets
  | cons net nets =>
    simp only [hlist, List.eraseDups_cons, List.length_cons]
    exact Nat.le_add_left 1 _

/-- The room for wires around a component. -/
def corridor (n : Netlist α) (config : PlacementConfig α) (i : ComponentId) : α :=
  Scalar.min (config.corridorPerNet * Scalar.ofInt (n.connectedNetCount i)) config.maxCorridor

theorem value_corridor (n : Netlist α) (config : PlacementConfig α) (i : ComponentId) :
    value (n.corridor config i) =
      min (value config.corridorPerNet * n.connectedNetCount i) (value config.maxCorridor) := by
  rw [corridor, value_min, value_mul, value_ofInt, Int.cast_natCast]

theorem corridor_nonneg {config : PlacementConfig α} (h : config.Roomy) (i : ComponentId) :
    0 ≤ value (n.corridor config i) := by
  obtain ⟨hsnap, -, hcorridor, hlimit⟩ := h.values
  have hper : 0 ≤ value config.corridorPerNet := by linarith
  rw [value_corridor]
  exact le_min (mul_nonneg hper (Nat.cast_nonneg _)) (by linarith)

theorem half_le_corridor {config : PlacementConfig α} (h : config.Roomy) {i : ComponentId}
    (hi : n.isElectrical i = true) : value config.gridSnap / 2 ≤ value (n.corridor config i) := by
  obtain ⟨hsnap, -, hcorridor, hlimit⟩ := h.values
  have hper : 0 ≤ value config.corridorPerNet := by linarith
  have hnets : (1 : ℝ) ≤ n.connectedNetCount i := by
    exact_mod_cast one_le_connectedNetCount hi
  rw [value_corridor]
  exact le_min (hcorridor.trans (le_mul_of_one_le_right hper hnets)) hlimit

theorem Authored.isQuarter_rotation (h : n.Authored) {members : List (Component α)}
    {t : ClusterTree α} (hnodes : ClusterTree.NodesFit n members t.nodes)
    (hmembers : ∀ c ∈ members, ∃ i : ComponentId, n.components[i]? = some c) (id : NodeId) :
    IsQuarter (t.rotation id) := by
  have hplaced : ∀ (kind : ClusterKind) (parent : Option NodeId) (position : Option (Placement α))
      (fixed : Bool), (∀ p ∈ position, p.Square) →
      IsQuarter (ClusterNode.placed kind parent position fixed).rotation := by
    intro kind parent position fixed hposition
    cases position with
    | none => exact Placement.isQuarter_zero
    | some p => exact hposition p rfl
  rw [ClusterTree.rotation]
  cases hnode : t.nodes[id]? with
  | none => exact Placement.isQuarter_zero
  | some node =>
    cases hnodes.fits id node hnode with
    | sheet => exact Placement.isQuarter_zero
    | composable known => exact hplaced _ _ _ _ (h.composableSquare _ _ known)
    | group tag outside inside => exact Placement.isQuarter_zero
    | part outside mem lt inCluster =>
      obtain ⟨i, hi⟩ := hmembers _ mem
      exact hplaced _ _ _ _ (h.square i _ hi)

/-- A circuit has the tree of its connected components. -/
theorem Authored.charted (h : n.Authored) : n.Charted n.electricalParts n.clusters := by
  have hnumbered : ∀ (i : ComponentId) c, n.components[i]? = some c → c.id = i := fun i c =>
    h.numbered
  have hnodes := ClusterTree.nodesFit_ofMembers n n.electrical
  have hmembers : ∀ c ∈ n.electricalParts, ∃ i : ComponentId, n.components[i]? = some c := by
    intro c hc
    obtain ⟨i, -, hi⟩ := List.mem_filterMap.1 hc
    exact ⟨i, hi⟩
  exact
    { authored := h
      nodes := hnodes
      square := h.isQuarter_rotation hnodes hmembers
      known := fun c hc => by
        obtain ⟨i, hi⟩ := hmembers c hc
        rwa [hnumbered i c hi]
      unique := by
        rw [map_id_electricalParts hnumbered]
        exact nodup_unmarked hnumbered _ }

/-- The tree of a circuit's connected components is ready to be placed. -/
theorem Authored.prepared (h : n.Authored) {symbols : SymbolSource α} {config : PlacementConfig α}
    (hproper : ∀ id, (symbols.localBounds id).Proper) (hroomy : config.Roomy)
    (hunbounded : (1 : α) < unbounded) (herrors : (n.place symbols config).2.errors = []) :
    n.Prepared n.electricalParts (.ofMembers n n.electrical) (n.layoutContext symbols config) := by
  obtain ⟨hsnap, hspacing, -, -⟩ := hroomy.values
  exact
    { authored := h
      arrangeable :=
        { nodes := h.charted.nodes
          grid := hroomy.grid
          spacing := hsnap.trans hspacing
          unbounded := hunbounded
          square := h.charted.square
          proper := fun i => (hproper _).inflate (corridor_nonneg hroomy i)
          spreads := herrors }
      known := h.charted.known
      unique := h.charted.unique }

/-! ### The placed circuit -/

/-- All components but markers are placed, and they do not overlap. -/
structure PlacedApart (n : Netlist α) (symbols : SymbolSource α) (m : Netlist α) : Prop where
  /-- The components are the same up to their positions. -/
  unplaced : ∀ i : ComponentId, (m.components[i]?).map (·.unplaced) =
    (n.components[i]?).map (·.unplaced)
  /-- They are placed. -/
  placed : ∀ i, i ∈ n.electrical ∨ i ∈ n.mechanical → ∃ p, m.absolute? i = some p ∧ p.Square
  /-- They do not overlap. -/
  gap : ∀ i, i ∈ n.electrical ∨ i ∈ n.mechanical → ∀ j, j ∈ n.electrical ∨ j ∈ n.mechanical →
    i ≠ j → Gap 0 (m.site symbols i) (m.site symbols j)

/-- A component that is placed close to its node lies in the node's box. -/
theorem site_subset_area {m : Netlist α} {symbols : SymbolSource α} {config : PlacementConfig α}
    (hroomy : config.Roomy) {t : ClusterTree α} {i : ComponentId} {u : NodeId}
    (hkind : t.kind u = .part i) (helectrical : n.isElectrical i = true)
    (hframe : (frameAfter t (t.arrange (n.layoutContext symbols config) 0) u).Square)
    (hsymbol : m.symbolOf i = n.symbolOf i) {p : Placement α} (hp : m.absolute? i = some p)
    (hclose : ∀ z, Close (value config.gridSnap / 2)
      ((frameAfter t (t.arrange (n.layoutContext symbols config) 0) u).move z) (p.move z)) :
    m.site symbols i ⊆ t.area (n.layoutContext symbols config) u := by
  have hbounds : (t.arrange (n.layoutContext symbols config) u).bounds =
      (symbols.localBounds (n.symbolOf i)).inflate (n.corridor config i) := by
    rw [ClusterTree.arrange_part hkind]
    rfl
  rw [site_eq hp, ClusterTree.area, hbounds, hsymbol]
  exact Rect.image_subset_of_close hframe fun z =>
    (hclose z).mono (half_le_corridor hroomy helectrical)

/-- A component of a block that is placed lies in the box around the block. -/
theorem exists_blockBox? {symbols : SymbolSource α}
    (hproper : ∀ id, (symbols.localBounds id).Proper) {ids : List ComponentId} {i : ComponentId}
    (hi : i ∈ ids) {p : Placement α} (hp : n.absolute? i = some p) (hsquare : p.Square) :
    ∃ b, n.blockBox? symbols ids = some b ∧ n.site symbols i ⊆ b.region := by
  have hmem : symbols.boundingBox (n.symbolOf i) p ∈ ids.filterMap fun id =>
      (n.absolute? id).map fun placement => symbols.boundingBox (n.symbolOf id) placement :=
    List.mem_filterMap.2 ⟨i, hi, by rw [hp]; rfl⟩
  obtain ⟨b, hb⟩ := isSome_unionBox? hmem
  refine ⟨b, hb, ?_⟩
  rw [site_eq hp, ← Rect.region_placeBox (hproper _) hsquare]
  exact region_subset_unionBox? hb hmem

omit [Scalar α] [ExactScalar α] in
theorem exists_component {m : Netlist α} {i : ComponentId} {c : Component α}
    (h : (m.components[i]?).map (·.unplaced) = (n.components[i]?).map (·.unplaced))
    (hc : n.components[i]? = some c) :
    ∃ d, m.components[i]? = some d ∧ d.unplaced = c.unplaced := by
  rw [hc] at h
  exact Option.map_eq_some_iff.1 h

/-- When all components but markers are apart, the search for overlaps finds nothing. -/
theorem PlacedApart.overlapFindings_eq_nil {m : Netlist α} {symbols : SymbolSource α}
    (hapart : n.PlacedApart symbols m) (hauthored : n.Authored)
    (hproper : ∀ id, (symbols.localBounds id).Proper) : m.overlapFindings symbols 0 = [] := by
  have hkind : ∀ (i : ComponentId) c, m.components[i]? = some c →
      c.id = i ∧ (c.marker = false → i ∈ n.electrical ∨ i ∈ n.mechanical) := by
    intro i c hc
    obtain ⟨d, hd, hsame⟩ := exists_component (hapart.unplaced i).symm hc
    have hid : d.unplaced.id = c.unplaced.id := congrArg (·.id) hsame
    have hmarkers : d.unplaced.marker = c.unplaced.marker := congrArg (·.marker) hsame
    change d.id = c.id at hid
    change d.marker = c.marker at hmarkers
    replace hid : c.id = i := hid.symm.trans (hauthored.numbered hd)
    refine ⟨hid, fun hmarker => ?_⟩
    have hdmarker : d.marker = false := hmarkers.trans hmarker
    have hmem := fun kind => (mem_unmarked_iff (fun _ _ => hauthored.numbered) kind (i := i)).2
    cases helectrical : n.isElectrical i with
    | true => exact .inl (hmem _ ⟨d, hd, hdmarker, helectrical⟩)
    | false => exact .inr (hmem _ ⟨d, hd, hdmarker, by simp [helectrical]⟩)
  have hplaced : ∀ c ∈ m.components, c.marker = false →
      c.id ∈ n.electrical ∨ c.id ∈ n.mechanical := by
    intro c hc hmarker
    obtain ⟨i, hi⟩ := Array.mem_iff_getElem?.1 hc
    obtain ⟨hid, hlisted⟩ := hkind i c hi
    rw [hid]
    exact hlisted hmarker
  refine Netlist.overlapFindings_eq_nil hproper (fun i c hc => (hkind i c hc).1) ?_ ?_
  · intro c hc hmarker p hp
    obtain ⟨q, hq, hsquare⟩ := hapart.placed c.id (hplaced c hc hmarker)
    cases hp.symm.trans hq
    exact hsquare
  · intro c hc d hd hcmarker hdmarker hne
    exact hapart.gap c.id (hplaced c hc hcmarker) d.id (hplaced d hd hdmarker) hne

section Prepared

variable {symbols : SymbolSource α} {config : PlacementConfig α} {t : ClusterTree α}
  {n₁ m : Netlist α}

/-- Writing positions changes nothing else of a component. -/
theorem FramesSet.unplaced_eq {a : Arrangement α} {r : ℝ} {k l : ℕ}
    (hframes : FramesSet n t a k n₁) (hparts : PartsSet n₁ t a r l m) (i : ComponentId) :
    (m.components[i]?).map (·.unplaced) = (n.components[i]?).map (·.unplaced) := by
  rw [hparts.unplaced, hframes.components]

/-- A connected component lies in the box of its node. -/
theorem Prepared.exists_site (hn : n.Prepared n.electricalParts t (n.layoutContext symbols config))
    (hframes : FramesSet n t (t.arrange (n.layoutContext symbols config) 0) t.size n₁)
    (hparts : PartsSet n₁ t (t.arrange (n.layoutContext symbols config) 0)
      (value config.gridSnap / 2) t.size m)
    (hroomy : config.Roomy) {i : ComponentId} (hi : i ∈ n.electrical) :
    ∃ u p, t.kind u = .part i ∧ m.absolute? i = some p ∧ p.Square ∧
      m.site symbols i ⊆ t.area (n.layoutContext symbols config) u := by
  obtain ⟨c, hc, -, helectrical⟩ :=
    (mem_unmarked_iff (fun _ _ => hn.authored.numbered) _).1 hi
  have hid := hn.authored.numbered hc
  have hmember : c ∈ n.electricalParts := List.mem_filterMap.2 ⟨i, hi, hc⟩
  obtain ⟨u, hu⟩ := hn.arrangeable.nodes.exists_part hmember
  rw [hid] at hu
  obtain ⟨node, hnode, -⟩ := ClusterTree.exists_node_of_part hu
  have hlt : u < t.size := (Array.getElem?_eq_some_iff.1 hnode).1
  obtain ⟨p, hp, hsquare, hclose⟩ := hparts.placed u hlt i hu
  have hsymbol : m.symbolOf i = n.symbolOf i := symbolOf_congr (hframes.unplaced_eq hparts i)
  exact ⟨u, p, hu, hp, hsquare, site_subset_area hroomy hu helectrical
    (hn.arrangeable.square_frameAfter u) hsymbol hp hclose⟩

/-- The components that are not connected are put in rows below the others. -/
theorem Prepared.rowsSet (hn : n.Prepared n.electricalParts t (n.layoutContext symbols config))
    (hframes : FramesSet n t (t.arrange (n.layoutContext symbols config) 0) t.size n₁)
    (hparts : PartsSet n₁ t (t.arrange (n.layoutContext symbols config) 0)
      (value config.gridSnap / 2) t.size m)
    (hroomy : config.Roomy) :
    RowsSet m symbols (m.pending n.mechanical) (m.blockBox? symbols n.electrical)
      (m.placeMechanical symbols config n.electrical n.mechanical) := by
  obtain ⟨hsnap, hspacing, -, -⟩ := hroomy.values
  have hnumbered : ∀ (i : ComponentId) c, n.components[i]? = some c → c.id = i := fun _ _ =>
    hn.authored.numbered
  refine rowsSet_placeMechanical hsnap hspacing (nodup_unmarked hnumbered _) ?_ ?_
  · intro i hi
    obtain ⟨c, hc, -⟩ := (mem_unmarked_iff hnumbered _).1 hi
    obtain ⟨d, hd, -⟩ := exists_component (hframes.unplaced_eq hparts i) hc
    exact (Array.getElem?_eq_some_iff.1 hd).1
  · intro i hi
    obtain ⟨c, hc, -⟩ := (mem_unmarked_iff hnumbered _).1 hi
    have hid := hnumbered i c hc
    subst hid
    rw [hparts.parentFrame]
    exact hn.charted.square_parentFrame hframes hc

/-- No author has placed a component of the rows. -/
theorem Prepared.mem_pending (hn : n.Prepared n.electricalParts t (n.layoutContext symbols config))
    (hframes : FramesSet n t (t.arrange (n.layoutContext symbols config) 0) t.size n₁)
    (hparts : PartsSet n₁ t (t.arrange (n.layoutContext symbols config) 0)
      (value config.gridSnap / 2) t.size m)
    (hconnected : ∀ c ∈ n.components, c.fixed = true → n.isElectrical c.id = true)
    {i : ComponentId} (hi : i ∈ n.mechanical) : i ∈ m.pending n.mechanical := by
  obtain ⟨c, hc, -, hmechanical⟩ :=
    (mem_unmarked_iff (fun _ _ => hn.authored.numbered) _).1 hi
  obtain ⟨d, hd, hsame⟩ := exists_component (hframes.unplaced_eq hparts i) hc
  have hfixed : d.unplaced.fixed = c.unplaced.fixed := congrArg (·.fixed) hsame
  change d.fixed = c.fixed at hfixed
  refine List.mem_filter.2 ⟨hi, ?_⟩
  rw [hd, Option.any_some, hfixed, Bool.not_eq_true', Bool.eq_false_iff]
  intro hcfixed
  have helectrical := hconnected c (Array.mem_iff_getElem?.2 ⟨i, hc⟩) hcfixed
  rw [hn.authored.numbered hc] at helectrical
  simp [helectrical] at hmechanical

/-- With the connected components in their nodes and the others in rows below them, no
components overlap. -/
theorem Prepared.placedApart (hn : n.Prepared n.electricalParts t (n.layoutContext symbols config))
    (hframes : FramesSet n t (t.arrange (n.layoutContext symbols config) 0) t.size n₁)
    (hparts : PartsSet n₁ t (t.arrange (n.layoutContext symbols config) 0)
      (value config.gridSnap / 2) t.size m)
    (hroomy : config.Roomy) (hproper : ∀ id, (symbols.localBounds id).Proper)
    (hconnected : ∀ c ∈ n.components, c.fixed = true → n.isElectrical c.id = true) :
    n.PlacedApart symbols (m.placeMechanical symbols config n.electrical n.mechanical) := by
  have hrows := hn.rowsSet hframes hparts hroomy
  have hpending := fun i => hn.mem_pending hframes hparts hconnected (i := i)
  generalize m.placeMechanical symbols config n.electrical n.mechanical = m₂ at hrows
  -- the rows leave the connected components where they are
  have hkept : ∀ i ∈ n.electrical, m₂.absolute? i = m.absolute? i ∧
      m₂.site symbols i = m.site symbols i := by
    intro i hi
    have hother : i ∉ m.pending n.mechanical := fun hmem =>
      not_mem_mechanical hi (List.mem_of_mem_filter hmem)
    have habsolute := absolute?_congr (hrows.untouched i hother) (hrows.parentFrame i)
    exact ⟨habsolute, site_congr habsolute (symbolOf_congr (hrows.unplaced i))⟩
  have hacross : ∀ i ∈ n.electrical, ∀ j ∈ n.mechanical,
      Gap 0 (m₂.site symbols i) (m₂.site symbols j) := by
    intro i hi j hj
    obtain ⟨u, p, -, hp, hsquare, -⟩ := hn.exists_site hframes hparts hroomy hi
    obtain ⟨b, hb, hsubset⟩ := exists_blockBox? hproper hi hp hsquare
    rw [(hkept i hi).2]
    exact (hrows.below b hb j (hpending j hj)).mono hsubset subset_rfl
  refine
    { unplaced := fun i => (hrows.unplaced i).trans (hframes.unplaced_eq hparts i)
      placed := ?_
      gap := ?_ }
  · rintro i (hi | hi)
    · obtain ⟨u, p, -, hp, hsquare, -⟩ := hn.exists_site hframes hparts hroomy hi
      exact ⟨p, (hkept i hi).1.trans hp, hsquare⟩
    · exact hrows.placed i (hpending i hi)
  · rintro i (hi | hi) j (hj | hj) hne
    · obtain ⟨u, p, hu, -, -, hsubset⟩ := hn.exists_site hframes hparts hroomy hi
      obtain ⟨v, q, hv, -, -, hsubset'⟩ := hn.exists_site hframes hparts hroomy hj
      have hnodes : u ≠ v := fun heq => hne (ClusterKind.part.inj (hu ▸ heq ▸ hv))
      rw [(hkept i hi).2, (hkept j hj).2]
      exact (hn.arrangeable.area_gap hu hv hnodes).mono hsubset hsubset'
    · exact hacross i hi j hj
    · exact (hacross j hj i hi).comm
    · exact hrows.gap i (hpending i hi) j (hpending j hj) hne

end Prepared

/-- A placement without errors of a circuit that was built has no overlaps: no matter how
deep its composables are nested, what its groups are, and what the author has placed.  The
number that stands for infinity only has to exceed one. -/
theorem place_no_overlap {name : String} {ops : List (Operation α)} {b : Build α}
    (hdrain : Build.drain ((Build.new name).run ops) = .ok n b)
    {defs : List (SymbolDef α)} {library : SymbolLibrary α}
    (hlibrary : SymbolLibrary.ofDefs defs = .ok library) {config : PlacementConfig α}
    (hunbounded : (1 : α) < unbounded)
    (hcomponents : ∀ c ∈ n.components, ∀ p ∈ c.position, IsQuarter p.rotation)
    (hcomposables : ∀ c ∈ n.composables, ∀ p ∈ c.position, IsQuarter p.rotation)
    (hroomy : config.Roomy)
    (hconnected : ∀ c ∈ n.components, c.fixed = true → n.isElectrical c.id = true)
    (herrors : (n.place library.source config).2.errors = []) :
    (n.place library.source config).1.overlapFindings library.source 0 = [] := by
  have hproper := SymbolLibrary.proper_localBounds hlibrary
  have hauthored : n.Authored := by
    cases hdrain
    exact Build.authored_toNetlist (Build.wellFormed_run name ops) (Build.fixedPlaced_run name ops)
      (fun i c hc => hcomponents c (Array.mem_iff_getElem?.2 ⟨i, hc⟩))
      (fun i c hc => hcomposables c (Array.mem_iff_getElem?.2 ⟨i, hc⟩))
  have hprepared := hauthored.prepared hproper hroomy hunbounded herrors
  have hapart : n.PlacedApart library.source (n.place library.source config).1 :=
    hprepared.placedApart hprepared.framesSet
      (hprepared.partsSet hprepared.framesSet hroomy.values.1) hroomy hproper hconnected
  exact hapart.overlapFindings_eq_nil hauthored hproper

/-! ### A crowded circuit -/

/-- A symbol with a pin at either end. -/
def uprightDef : SymbolDef WideRat :=
  { id := "R", body := some (⟨-1, -3⟩, ⟨1, 3⟩)
    pins := [⟨"1", "", 0, 4, 270, 1⟩, ⟨"2", "", 0, -4, 90, 1⟩] }

/-- The library of that symbol. -/
def uprightLibrary : SymbolLibrary WideRat := ⟨[("R", uprightDef.derive (SymbolDef.blank "R"))]⟩

/-- The author has put `R1` and `R2` on each other and turned the composable of `R3`.
`R4` and `R5` are a group further inside it, and `R6` is not connected. -/
def crowded : Build WideRat :=
  (Build.new "crowded").run [
    .addComposable "stage" none (some ⟨40, 0, 90⟩), .addComposable "filter" (some 0) none,
    .addComponent { symbol := "R", reference := "R1", position := some ⟨0, 0, 0⟩ },
    .addComponent { symbol := "R", reference := "R2", position := some ⟨1, 2, 90⟩ },
    .addComponent { symbol := "R", reference := "R3", parent := some 0 },
    .addComponent { symbol := "R", reference := "R4", parent := some 1, group := some "pair" },
    .addComponent { symbol := "R", reference := "R5", parent := some 1, group := some "pair" },
    .addComponent { symbol := "R", reference := "R6" },
    .addNet none, .connect 0 "1" (.net 0), .connect 1 "1" (.net 0), .connect 2 "1" (.net 0),
    .connect 3 "1" (.net 0), .connect 4 "1" (.net 0)]

/-- Whether a position, if there is one, is upright or turned once. -/
def turnedOnce (position : Option (Placement WideRat)) : Bool :=
  position.all fun p => p.rotation == 0 || p.rotation == 90

theorem isQuarter_of_turnedOnce {position : Option (Placement WideRat)}
    (h : turnedOnce position = true) : ∀ p ∈ position, IsQuarter p.rotation := by
  rintro p rfl
  rw [turnedOnce, Option.all_some, Bool.or_eq_true, beq_iff, beq_iff] at h
  obtain h | h := h
  · rw [h]
    exact Placement.isQuarter_zero
  · rw [h]
    exact ⟨1, by simp⟩

/-- The crowded circuit is placed without overlaps. -/
theorem crowded_no_overlap :
    crowded.drain = .ok crowded.toNetlist crowded.cleared ∧
      SymbolLibrary.ofDefs [uprightDef] = .ok uprightLibrary ∧
      (crowded.toNetlist.place uprightLibrary.source default).2.errors = [] ∧
      (crowded.toNetlist.place uprightLibrary.source default).1.overlapFindings
        uprightLibrary.source 0 = [] := by
  have hdrain : crowded.drain = .ok crowded.toNetlist crowded.cleared := rfl
  have hlibrary : SymbolLibrary.ofDefs [uprightDef] = .ok uprightLibrary := by rfl
  have hunbounded : (1 : WideRat) < unbounded := by decide +kernel
  have hcomponents : crowded.toNetlist.components.all (fun c => turnedOnce c.position) = true := by
    decide +kernel
  have hcomposables :
      crowded.toNetlist.composables.all (fun c => turnedOnce c.position) = true := by
    decide +kernel
  have hconnected : crowded.toNetlist.components.all
      (fun c => !c.fixed || crowded.toNetlist.isElectrical c.id) = true := by decide +kernel
  have herrors : (crowded.toNetlist.place uprightLibrary.source default).2.errors = [] :=
    List.isEmpty_iff.1 (by decide +kernel)
  rw [Array.all_eq_true_iff_forall_mem] at hcomponents hcomposables hconnected
  refine ⟨hdrain, hlibrary, herrors, place_no_overlap hdrain hlibrary hunbounded
    (fun c hc => isQuarter_of_turnedOnce (hcomponents c hc))
    (fun c hc => isQuarter_of_turnedOnce (hcomposables c hc)) PlacementConfig.roomy_default ?_
    herrors⟩
  intro c hc hfixed
  have h := hconnected c hc
  rwa [hfixed] at h

end Netlist

end Schematic
