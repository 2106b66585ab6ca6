import Schematic.Layout.Position
import Schematic.Proofs.Layout.Cluster
import Schematic.Proofs.Layout.Sibling

/-!
# Components do not overlap in their tree

Every cluster's box holds the boxes of its members, and the members do not
overlap.  Both are kept by the frames that lead out to the sheet, so that on the
sheet the boxes of any two components are apart: they are in two members of the
innermost cluster that holds both.

## Main definitions

* `Netlist.layoutContext` — what a circuit is placed with.
* `Netlist.clusters`, `Netlist.arranged` — the tree of a circuit and its arrangement.
* `ClusterTree.layoutOf` — the arrangement of the members of a cluster.
* `ClusterTree.SpreadsBy`, `ClusterTree.FailsToSpread` — the members that the author placed
  are, or cannot be, pulled apart.
* `ClusterTree.spreadFactorOf` — the factor by which they are.
* `ClusterTree.Arrangeable` — what the arrangement of a tree relies on.
* `ClusterTree.area` — where a node lies on the sheet.

## Main statements

* `ClusterTree.NodesFit.mem_offsets_iff`, `ClusterTree.NodesFit.errors_eq` — the
  whole arrangement is that of the clusters.
* `ClusterTree.Arrangeable.area_subset` — a node lies in its cluster.
* `ClusterTree.Arrangeable.area_gap` — the components of a tree do not overlap.
-/

namespace Schematic

open ExactScalar
open scoped Scalar

variable {α : Type}

/-- What a circuit is placed with. -/
def Netlist.layoutContext (n : Netlist α) (symbols : SymbolSource α) (config : PlacementConfig α) :
    LayoutContext α :=
  { netlist := n, graph := .ofNetlist n, symbols, config }

/-- The tree of the connected components of a circuit. -/
def Netlist.clusters [Scalar α] (n : Netlist α) : ClusterTree α := .ofMembers n n.electrical

/-- The arrangement of a circuit's tree. -/
def Netlist.arranged [Scalar α] (n : Netlist α) (symbols : SymbolSource α)
    (config : PlacementConfig α) : Arrangement α :=
  n.clusters.arrange (n.layoutContext symbols config) 0

namespace ClusterTree

variable [Scalar α]

/-! ### Cluster by cluster -/

section Collected

variable {n : Netlist α} {members : List (Component α)} {t : ClusterTree α} {ctx : LayoutContext α}
  {p : NodeId}

/-- The arrangement of the members of a cluster. -/
def layoutOf (t : ClusterTree α) (ctx : LayoutContext α) (p : NodeId) : SiblingLayout α :=
  arrangeSiblings ctx.config <| (t.children p).map fun c =>
    t.sibling ctx.graph c (t.arrange ctx c).bounds

theorem arrange_part {i : ComponentId} (h : t.kind p = .part i) :
    t.arrange ctx p = { bounds := ctx.partBounds i, offsets := [], moved := [], errors := [] } := by
  rw [arrange, h]

theorem arrange_cluster (h : (t.kind p).part? = none) :
    t.arrange ctx p =
      t.arrangeCluster ctx p ((t.children p).map fun c => (c, t.arrange ctx c)) := by
  have hmembers : (t.children p).attach.map (fun c => (c.1, t.arrange ctx c.1)) =
      (t.children p).map fun c => (c, t.arrange ctx c) :=
    List.attach_map_val (f := fun c => (c, t.arrange ctx c))
  rw [arrange, hmembers]
  split
  · next i hkind =>
    rw [hkind] at h
    cases h
  · rfl

theorem arrangeCluster_layout (t : ClusterTree α) (ctx : LayoutContext α) (p : NodeId) :
    arrangeSiblings ctx.config (((t.children p).map fun c => (c, t.arrange ctx c)).map fun m =>
      t.sibling ctx.graph m.1 m.2.bounds) = t.layoutOf ctx p := by
  rw [layoutOf, List.map_map]
  rfl

/-- The arrangement of a cluster, from those of its members. -/
theorem arrange_of_cluster (h : (t.kind p).part? = none) :
    t.arrange ctx p =
      { bounds := (unionBox? ((t.layoutOf ctx p).siblings.map (·.footprint))).getD .zero
        offsets := (t.children p).flatMap (fun c => (t.arrange ctx c).offsets) ++
          (t.layoutOf ctx p).siblings.map fun s => (s.node, s.offset)
        moved := (t.children p).flatMap (fun c => (t.arrange ctx c).moved) ++
          ((t.layoutOf ctx p).siblings.filter fun s =>
            (t.layoutOf ctx p).spread && s.fixed).map (·.node)
        errors := (t.children p).flatMap (fun c => (t.arrange ctx c).errors) ++
          ((t.layoutOf ctx p).failure.map (t.placementError ctx p)).toList } := by
  rw [arrange_cluster h, arrangeCluster]
  simp only [arrangeCluster_layout, List.flatMap_map]

theorem NodesFit.layoutOf_part (h : NodesFit n members t.nodes) {i : ComponentId}
    (hi : t.kind p = .part i) : t.layoutOf ctx p = ⟨[], false, none⟩ := by
  rw [layoutOf, h.children_of_part hi]
  rfl

/-- What the arrangement of a cluster takes over from its members and adds itself comes from
the clusters below. -/
theorem NodesFit.collected (h : NodesFit n members t.nodes) (found own : NodeId → Prop)
    (cluster : ∀ p, (t.kind p).part? = none → (found p ↔ (∃ c ∈ t.children p, found c) ∨ own p))
    (part : ∀ p i, t.kind p = .part i → ¬found p ∧ ¬own p) :
    found p ↔ ∃ u ∈ t.postOrder p, own u := by
  refine collected_iff found own (fun p => ?_) p
  cases hkind : t.kind p with
  | part i =>
    obtain ⟨hfound, hown⟩ := part p i hkind
    rw [h.children_of_part hkind]
    simp [hfound, hown]
  | sheet => exact cluster p (by rw [hkind]; rfl)
  | composable i => exact cluster p (by rw [hkind]; rfl)
  | group tag => exact cluster p (by rw [hkind]; rfl)

/-- The offsets of the arrangement below a node are those of the clusters there. -/
theorem NodesFit.mem_offsets_iff (h : NodesFit n members t.nodes) {e : NodeId × Point α} :
    e ∈ (t.arrange ctx p).offsets ↔
      ∃ u ∈ t.postOrder p, ∃ s ∈ (t.layoutOf ctx u).siblings, (s.node, s.offset) = e := by
  refine h.collected (fun p => e ∈ (t.arrange ctx p).offsets)
    (fun u => ∃ s ∈ (t.layoutOf ctx u).siblings, (s.node, s.offset) = e) ?_ ?_
  · intro p hp
    rw [arrange_cluster hp, arrangeCluster]
    simp only [arrangeCluster_layout, List.mem_append, List.mem_flatMap, List.mem_map,
      exists_exists_and_eq_and]
  · intro p i hi
    rw [arrange_part hi, h.layoutOf_part hi]
    simp

/-- The members that the arrangement below a node moves against the author are those of
clusters there that spread them. -/
theorem NodesFit.mem_moved_iff (h : NodesFit n members t.nodes) {c : NodeId} :
    c ∈ (t.arrange ctx p).moved ↔
      ∃ u ∈ t.postOrder p, ∃ s ∈ (t.layoutOf ctx u).siblings,
        ((t.layoutOf ctx u).spread = true ∧ s.fixed = true) ∧ s.node = c := by
  refine h.collected (fun p => c ∈ (t.arrange ctx p).moved)
    (fun u => ∃ s ∈ (t.layoutOf ctx u).siblings,
      ((t.layoutOf ctx u).spread = true ∧ s.fixed = true) ∧ s.node = c) ?_ ?_
  · intro p hp
    rw [arrange_cluster hp, arrangeCluster]
    simp only [arrangeCluster_layout, List.mem_append, List.mem_flatMap, List.mem_map,
      exists_exists_and_eq_and, List.mem_filter, Bool.and_eq_true, and_assoc]
  · intro p i hi
    rw [arrange_part hi, h.layoutOf_part hi]
    simp

/-- The errors of the arrangement below a node are those of the clusters there, in order. -/
theorem NodesFit.errors_eq (h : NodesFit n members t.nodes) (p : NodeId) :
    (t.arrange ctx p).errors = (t.postOrder p).filterMap fun u =>
      (t.layoutOf ctx u).failure.map (t.placementError ctx u) := by
  induction p using postOrder.induct t with
  | case1 p ih =>
    have hbelow : (t.children p).flatMap (fun c => (t.arrange ctx c).errors) =
        ((t.children p).flatMap t.postOrder).filterMap fun u =>
          (t.layoutOf ctx u).failure.map (t.placementError ctx u) := by
      rw [List.filterMap_flatMap]
      exact List.flatMap_congr fun c hc => ih ⟨c, hc⟩
    have hown : [p].filterMap (fun u => (t.layoutOf ctx u).failure.map (t.placementError ctx u)) =
        ((t.layoutOf ctx p).failure.map (t.placementError ctx p)).toList := by
      cases hfailure : (t.layoutOf ctx p).failure <;> simp [hfailure]
    rw [postOrder_eq, List.filterMap_append, ← hbelow, hown]
    cases hpart : (t.kind p).part? with
    | none =>
      rw [arrange_cluster hpart, arrangeCluster]
      simp only [arrangeCluster_layout, List.flatMap_map]
    | some i =>
      obtain ⟨i, hi⟩ : ∃ i, t.kind p = .part i := by
        cases hkind : t.kind p <;> rw [hkind] at hpart <;> cases hpart
        exact ⟨_, rfl⟩
      rw [arrange_part hi, h.layoutOf_part hi, h.children_of_part hi]
      rfl

theorem NodesFit.mem_errors_iff (h : NodesFit n members t.nodes) {e : PlacementError α} :
    e ∈ (t.arrange ctx p).errors ↔
      ∃ u ∈ t.postOrder p, ∃ f, (t.layoutOf ctx u).failure = some f ∧
        t.placementError ctx u f = e := by
  simp only [h.errors_eq, List.mem_filterMap, Option.map_eq_some_iff]

/-- The members of a cluster that the author placed cannot be pulled apart. -/
def FailsToSpread (t : ClusterTree α) (ctx : LayoutContext α) (p : NodeId)
    (failure : SeparationFailure α) : Prop :=
  FailToSpread ctx.config.maxFixedScale
    ((t.children p).map fun c => t.sibling ctx.graph c (t.arrange ctx c).bounds) failure

theorem layoutOf_failure_iff {failure : SeparationFailure α} :
    (t.layoutOf ctx p).failure = some failure ↔ t.FailsToSpread ctx p failure :=
  arrangeSiblings_failure_iff

/-- A cluster that fails has members, so that it is a node of the tree. -/
theorem FailsToSpread.lt_size {failure : SeparationFailure α}
    (h : t.FailsToSpread ctx p failure) : p < t.size := by
  have hmembers : t.children p ≠ [] := by
    intro hnone
    have htwo := h.1
    rw [hnone] at htwo
    exact absurd htwo (Nat.not_le.2 Nat.zero_lt_two)
  obtain ⟨c, hc⟩ := List.exists_mem_of_ne_nil _ hmembers
  obtain ⟨hlater, hinside, -⟩ := mem_children_iff.1 hc
  exact Nat.lt_trans hlater hinside

/-- The clusters below a node that fail to spread their members. -/
def failuresBelow (t : ClusterTree α) (ctx : LayoutContext α) (p : NodeId) :
    List (NodeId × SeparationFailure α) :=
  (t.postOrder p).filterMap fun u => (t.layoutOf ctx u).failure.map (u, ·)

theorem mem_failuresBelow_iff {u : NodeId} {failure : SeparationFailure α} :
    (u, failure) ∈ t.failuresBelow ctx p ↔ u ∈ t.postOrder p ∧ t.FailsToSpread ctx u failure := by
  rw [← layoutOf_failure_iff, failuresBelow, List.mem_filterMap]
  constructor
  · rintro ⟨v, hv, heq⟩
    obtain ⟨f, hf, hpair⟩ := Option.map_eq_some_iff.1 heq
    cases hpair
    exact ⟨hv, hf⟩
  · rintro ⟨hu, hf⟩
    exact ⟨u, hu, by rw [hf, Option.map_some]⟩

/-- A cluster fails once. -/
theorem nodup_failuresBelow (t : ClusterTree α) (ctx : LayoutContext α) (p : NodeId) :
    ((t.failuresBelow ctx p).map Prod.fst).Nodup := by
  refine List.pairwise_map.2 (List.pairwise_filterMap.2 ((nodup_postOrder p).imp ?_))
  intro u v hne e he d hd
  obtain ⟨f, -, rfl⟩ := Option.map_eq_some_iff.1 he
  obtain ⟨f', -, rfl⟩ := Option.map_eq_some_iff.1 hd
  exact hne

/-- The errors below a node are those of the clusters that fail. -/
theorem NodesFit.errors_eq_map (h : NodesFit n members t.nodes) (p : NodeId) :
    (t.arrange ctx p).errors =
      (t.failuresBelow ctx p).map fun e => t.placementError ctx e.1 e.2 := by
  rw [h.errors_eq, failuresBelow, List.map_filterMap]
  simp only [Option.map_map, Function.comp_def]

/-- Without errors no cluster below a node fails. -/
theorem NodesFit.failure_eq_none (h : NodesFit n members t.nodes)
    (herrors : (t.arrange ctx p).errors = []) {u : NodeId} (hu : u ∈ t.postOrder p) :
    (t.layoutOf ctx u).failure = none := by
  cases hf : (t.layoutOf ctx u).failure with
  | none => rfl
  | some f =>
    have herror := h.mem_errors_iff.2 ⟨u, hu, f, hf, rfl⟩
    rw [herrors] at herror
    exact absurd herror List.not_mem_nil

end Collected

/-! ### Frames -/

section Frames

variable {n : Netlist α} {members : List (Component α)} {t : ClusterTree α} {c p : NodeId}

theorem frameAfter_of_parent (h : NodesFit n members t.nodes) (a : Arrangement α)
    (hp : t.parent? c = some p) :
    Netlist.frameAfter t a c = (Netlist.frameAfter t a p).compose
      ⟨(Netlist.offsetAfter t a c).x, (Netlist.offsetAfter t a c).y, t.rotation c⟩ := by
  rw [Netlist.frameAfter, frameWith, hp]
  simp only [if_pos (h.parent_lt hp)]
  rfl

theorem frameAfter_zero (h : NodesFit n members t.nodes) (a : Arrangement α) :
    Netlist.frameAfter t a 0 = .origin := by
  rw [Netlist.frameAfter, frameWith, h.parent?_zero]

end Frames

/-! ### Boxes on the sheet -/

section Boxes

variable [ExactScalar α] {n : Netlist α} {members : List (Component α)} {t : ClusterTree α}
  {ctx : LayoutContext α}

/-- What the arrangement of a tree relies on. -/
structure Arrangeable (n : Netlist α) (members : List (Component α)) (t : ClusterTree α)
    (ctx : LayoutContext α) : Prop where
  /-- It is the tree for some components. -/
  nodes : NodesFit n members t.nodes
  /-- Members are arranged in grids. -/
  grid : ctx.config.strategy = .grid
  /-- The gap between members is not negative. -/
  spacing : 0 ≤ value ctx.config.spacing
  /-- "No factor is large enough" stands for a factor that spreads. -/
  unbounded : (1 : α) < unbounded
  /-- Everything is turned by whole quarter turns. -/
  square : ∀ id, IsQuarter (t.rotation id)
  /-- The box of a component has no negative size. -/
  proper : ∀ i, (ctx.partBounds i).Proper
  /-- No cluster fails to spread its members. -/
  spreads : (t.arrange ctx 0).errors = []

/-- Where a node lies on the sheet. -/
noncomputable def area (t : ClusterTree α) (ctx : LayoutContext α) (id : NodeId) : Set ℂ :=
  (Netlist.frameAfter t (t.arrange ctx 0) id).move '' (t.arrange ctx id).bounds.region

/-- The factor by which a cluster spreads the members that the author placed. -/
def spreadFactorOf (t : ClusterTree α) (ctx : LayoutContext α) (p : NodeId) : α :=
  spreadFactor ctx.config.maxFixedScale <| (t.children p).map fun c =>
    t.sibling ctx.graph c (t.arrange ctx c).bounds

/-- The members of a cluster that the author placed are pulled apart by a factor. -/
def SpreadsBy (t : ClusterTree α) (ctx : LayoutContext α) (p : NodeId) (scale : α) : Prop :=
  Schematic.SpreadsBy ctx.config.maxFixedScale
    ((t.children p).map fun c => t.sibling ctx.graph c (t.arrange ctx c).bounds) scale

/-- The factor of a cluster is the one that is found for several fixed members, at most the
limit, and one for fewer, or when none is found. -/
theorem spreadFactorOf_eq (t : ClusterTree α) (ctx : LayoutContext α) (p : NodeId) :
    ((t.children p).filter t.isFixed).length < 2 ∧ t.spreadFactorOf ctx p = 1 ∨
      t.SpreadsBy ctx p (t.spreadFactorOf ctx p) ∧ (t.spreadFactorOf ctx p = 1 ∨
        1 < t.spreadFactorOf ctx p ∧ t.spreadFactorOf ctx p ≤ ctx.config.maxFixedScale) ∨
      (∃ failure, t.FailsToSpread ctx p failure) ∧ t.spreadFactorOf ctx p = 1 := by
  have hfixed : (((t.children p).map fun c =>
      t.sibling ctx.graph c (t.arrange ctx c).bounds).filter (·.fixed)).length =
        ((t.children p).filter t.isFixed).length := by
    rw [List.filter_map, List.length_map]
    rfl
  rw [← hfixed]
  exact (spreadFactor_eq _ _).imp_right (.imp_left fun h => ⟨h, h.scale_cases⟩)

theorem layoutOf_spread (t : ClusterTree α) (ctx : LayoutContext α) (p : NodeId) :
    (t.layoutOf ctx p).spread = decide (1 < t.spreadFactorOf ctx p) :=
  arrangeSiblings_spread _ _

/-- Every member of an arranged cluster is one of its nodes, at its own place, perhaps spread,
if the author chose that. -/
theorem of_mem_layoutOf {p : NodeId} {s : Sibling α} (hs : s ∈ (t.layoutOf ctx p).siblings) :
    s.node ∈ t.children p ∧
      (t.sibling ctx.graph s.node (t.arrange ctx s.node).bounds).Shifted s ∧
      (t.isFixed s.node = true → s.offset = (t.offset s.node).scale (t.spreadFactorOf ctx p)) := by
  have hshifted := arrangeSiblings_shifted ctx.config
    ((t.children p).map fun c => t.sibling ctx.graph c (t.arrange ctx c).bounds)
  obtain ⟨s₀, hs₀, hmoved, hkept⟩ := exists_of_mem_forall₂ hshifted.flip hs
  obtain ⟨c, hc, rfl⟩ := List.mem_map.1 hs₀
  have hnode : s.node = c := by
    rw [Sibling.Shifted] at hmoved
    rw [hmoved]
    rfl
  subst hnode
  refine ⟨hc, hmoved, fun hfixed => ?_⟩
  have hsibling : (t.sibling ctx.graph s.node (t.arrange ctx s.node).bounds).fixed = true := hfixed
  rw [hkept hsibling, Sibling.spreadBy_of_fixed _ hsibling]
  rfl

theorem exists_mem_layoutOf {c p : NodeId} (hc : c ∈ t.children p) :
    ∃ s ∈ (t.layoutOf ctx p).siblings, s.node = c := by
  have hshifted := arrangeSiblings_shifted ctx.config
    ((t.children p).map fun c => t.sibling ctx.graph c (t.arrange ctx c).bounds)
  obtain ⟨s, hs, hmoved, -⟩ := exists_of_mem_forall₂ hshifted (List.mem_map_of_mem hc)
  refine ⟨s, hs, ?_⟩
  rw [Sibling.Shifted] at hmoved
  rw [hmoved]
  rfl

/-- An offset is found for every member of a cluster, the one that the cluster has given it. -/
theorem NodesFit.exists_lookup_offsets (h : NodesFit n members t.nodes) {c p : NodeId}
    (hp : t.parent? c = some p) :
    ∃ s ∈ (t.layoutOf ctx p).siblings, s.node = c ∧
      (t.arrange ctx 0).offsets.lookup c = some s.offset := by
  obtain ⟨s, hs, hnode⟩ : ∃ s ∈ (t.layoutOf ctx p).siblings, s.node = c :=
    exists_mem_layoutOf (h.mem_children hp)
  have hp0 : p ∈ t.postOrder 0 :=
    h.mem_postOrder ((h.parent_lt hp).trans (lt_size_of_parent? hp))
  have hoffset : (c, s.offset) ∈ (t.arrange ctx 0).offsets :=
    h.mem_offsets_iff.2 ⟨p, hp0, s, hs, by rw [hnode]⟩
  -- whatever is found for the node comes from its only cluster
  obtain ⟨off, hfound, hmem⟩ := exists_lookup hoffset
  obtain ⟨q, -, s', hs', heq⟩ := h.mem_offsets_iff.1 hmem
  obtain ⟨rfl, rfl⟩ := Prod.mk.inj heq
  have hq := (mem_children_iff.1 (of_mem_layoutOf hs').1).2.2
  rw [hp] at hq
  cases hq
  exact ⟨s', hs', rfl, hfound⟩

/-- A node lies where its cluster has put it. -/
theorem NodesFit.exists_offsetAfter (h : NodesFit n members t.nodes) {c p : NodeId}
    (hp : t.parent? c = some p) :
    ∃ s ∈ (t.layoutOf ctx p).siblings, s.node = c ∧
      s.offset = Netlist.offsetAfter t (t.arrange ctx 0) c := by
  obtain ⟨s, hs, hnode, hfound⟩ : ∃ s ∈ (t.layoutOf ctx p).siblings, s.node = c ∧
      (t.arrange ctx 0).offsets.lookup c = some s.offset := h.exists_lookup_offsets hp
  refine ⟨s, hs, hnode, ?_⟩
  rw [Netlist.offsetAfter, hfound, Option.getD_some]

/-- A node of the author's is where the author put it, spread by its cluster. -/
theorem NodesFit.offsetAfter_of_fixed (h : NodesFit n members t.nodes) {c p : NodeId}
    (hp : t.parent? c = some p) (hfixed : t.isFixed c = true) :
    Netlist.offsetAfter t (t.arrange ctx 0) c = (t.offset c).scale (t.spreadFactorOf ctx p) := by
  obtain ⟨s, hs, rfl, hoffset⟩ := h.exists_offsetAfter hp
  rw [← hoffset]
  exact (of_mem_layoutOf hs).2.2 hfixed

/-- Nodes of the author's are moved where the factor is larger than one. -/
theorem NodesFit.mem_moved_iff_of_parent (h : NodesFit n members t.nodes) {c p : NodeId}
    (hp : t.parent? c = some p) (hfixed : t.isFixed c = true) :
    c ∈ (t.arrange ctx 0).moved ↔ 1 < t.spreadFactorOf ctx p := by
  have hp0 : p ∈ t.postOrder 0 :=
    h.mem_postOrder ((h.parent_lt hp).trans (lt_size_of_parent? hp))
  rw [h.mem_moved_iff]
  constructor
  · rintro ⟨q, -, s, hs, ⟨hspread, -⟩, rfl⟩
    have hq := (mem_children_iff.1 (of_mem_layoutOf hs).1).2.2
    rw [hp] at hq
    cases hq
    rwa [layoutOf_spread, decide_eq_true_eq] at hspread
  · intro hfactor
    obtain ⟨s, hs, rfl⟩ : ∃ s ∈ (t.layoutOf ctx p).siblings, s.node = c :=
      exists_mem_layoutOf (h.mem_children hp)
    have hshifted := (of_mem_layoutOf hs).2.1
    rw [Sibling.Shifted] at hshifted
    refine ⟨p, hp0, s, hs, ⟨?_, ?_⟩, rfl⟩
    · rwa [layoutOf_spread, decide_eq_true_eq]
    · rw [hshifted]
      exact hfixed

/-- The factor is one, or it is a larger one within the limit. -/
theorem spreadFactorOf_cases (t : ClusterTree α) (ctx : LayoutContext α) (p : NodeId) :
    t.spreadFactorOf ctx p = 1 ∨ 1 < t.spreadFactorOf ctx p :=
  (spreadFactor_cases _ _).imp_right fun h => h.2.1

theorem NodesFit.offsetAfter_of_not_moved (h : NodesFit n members t.nodes) {c p : NodeId}
    (hp : t.parent? c = some p) (hfixed : t.isFixed c = true)
    (hmoved : c ∉ (t.arrange ctx 0).moved) :
    Netlist.offsetAfter t (t.arrange ctx 0) c = t.offset c := by
  rw [h.mem_moved_iff_of_parent hp hfixed] at hmoved
  rw [h.offsetAfter_of_fixed hp hfixed, (t.spreadFactorOf_cases ctx p).resolve_right hmoved,
    Point.scale_one]

theorem NodesFit.square_frameAfter (h : NodesFit n members t.nodes)
    (hsquare : ∀ id, IsQuarter (t.rotation id)) (a : Arrangement α) (id : NodeId) :
    (Netlist.frameAfter t a id).Square := by
  induction id using Nat.strongRecOn with
  | _ id ih =>
    cases hp : t.parent? id with
    | none =>
      rw [Netlist.frameAfter, frameWith, hp]
      exact Placement.square_origin
    | some p =>
      rw [frameAfter_of_parent h _ hp]
      exact (ih p (h.parent_lt hp)).compose (hsquare id)

namespace Arrangeable

variable (h : Arrangeable n members t ctx) {c c' p : NodeId}
include h

theorem proper_bounds (p : NodeId) : (t.arrange ctx p).bounds.Proper := by
  have hunion : ∀ layout : SiblingLayout α,
      ((unionBox? (layout.siblings.map (·.footprint))).getD .zero).Proper := by
    intro layout
    cases hbox : unionBox? (layout.siblings.map (·.footprint)) with
    | none => exact ⟨by simp [Rect.zero], by simp [Rect.zero]⟩
    | some u =>
      refine proper_unionBox? hbox fun r hr => ?_
      obtain ⟨s, -, rfl⟩ := List.mem_map.1 hr
      exact Rect.proper_placeBox _ _
  rw [arrange]
  split
  · next i hkind => exact h.proper i
  · exact hunion _

theorem regular_of_mem {s : Sibling α} (hs : s ∈ (t.layoutOf ctx p).siblings) : s.Regular := by
  obtain ⟨-, hmoved, -⟩ := of_mem_layoutOf hs
  have hregular : (t.sibling ctx.graph s.node (t.arrange ctx s.node).bounds).Regular :=
    ⟨h.proper_bounds _, h.square _⟩
  exact hregular.shifted hmoved

theorem square_frameAfter (id : NodeId) : (Netlist.frameAfter t (t.arrange ctx 0) id).Square :=
  h.nodes.square_frameAfter h.square _ id

/-- A node lies where its footprint in the cluster does. -/
theorem exists_area_eq (hp : t.parent? c = some p) :
    ∃ s ∈ (t.layoutOf ctx p).siblings, s.node = c ∧
      t.area ctx c = (Netlist.frameAfter t (t.arrange ctx 0) p).move '' s.footprint.region := by
  obtain ⟨s, hs, hnode, hoffset⟩ := h.nodes.exists_offsetAfter hp
  refine ⟨s, hs, hnode, ?_⟩
  have hshifted := (of_mem_layoutOf hs).2.1
  have hplacement : s.placement = ⟨(Netlist.offsetAfter t (t.arrange ctx 0) c).x,
      (Netlist.offsetAfter t (t.arrange ctx 0) c).y, t.rotation c⟩ := by
    rw [Sibling.Shifted] at hshifted
    rw [Sibling.placement, hoffset, hshifted, hnode]
    rfl
  have hbounds : s.bounds = (t.arrange ctx c).bounds := by
    rw [Sibling.Shifted] at hshifted
    rw [hshifted, hnode]
    rfl
  rw [area, frameAfter_of_parent h.nodes _ hp, ← hplacement, Sibling.region_footprint
    (h.regular_of_mem hs), Set.image_image, hbounds]
  have hsquare : s.placement.Square := (h.regular_of_mem hs).square
  exact Set.image_congr' fun z => Placement.move_compose (h.square_frameAfter p) hsquare z

/-- A node lies in its cluster. -/
theorem area_subset (hp : t.parent? c = some p) : t.area ctx c ⊆ t.area ctx p := by
  obtain ⟨s, hs, -, harea⟩ := h.exists_area_eq hp
  have hmem : s.footprint ∈ (t.layoutOf ctx p).siblings.map (·.footprint) := List.mem_map_of_mem hs
  obtain ⟨u, hu⟩ := isSome_unionBox? hmem
  have hbounds : (t.arrange ctx p).bounds = u := by
    rw [arrange_cluster (h.nodes.part?_parent hp), arrangeCluster]
    simp only [arrangeCluster_layout, hu, Option.getD_some]
  rw [harea, area, hbounds]
  exact Set.image_mono (region_subset_unionBox? hu hmem)

/-- Members of a cluster do not overlap. -/
theorem area_gap_of_parent (hp : t.parent? c = some p) (hp' : t.parent? c' = some p)
    (hne : c ≠ c') : Gap 0 (t.area ctx c) (t.area ctx c') := by
  obtain ⟨s, hs, hnode, harea⟩ := h.exists_area_eq hp
  obtain ⟨s', hs', hnode', harea'⟩ := h.exists_area_eq hp'
  have hregular : ∀ s ∈ (t.children p).map fun c =>
      t.sibling ctx.graph c (t.arrange ctx c).bounds, s.Regular := by
    intro s hs
    obtain ⟨c, -, rfl⟩ := List.mem_map.1 hs
    exact ⟨h.proper_bounds c, h.square c⟩
  have hp0 : p ∈ t.postOrder 0 :=
    h.nodes.mem_postOrder ((h.nodes.parent_lt hp).trans (lt_size_of_parent? hp))
  have hapart := arrangeSiblings_apart h.grid h.spacing h.unbounded hregular
    (h.nodes.failure_eq_none h.spreads hp0)
  rw [harea, harea']
  refine Gap.move (h.square_frameAfter p) ?_
  refine hapart.forall hs hs' fun heq => hne ?_
  rw [← hnode, ← hnode', heq]

theorem area_subset_of_mem_postOrder {u : NodeId} (hu : u ∈ t.postOrder p) :
    t.area ctx u ⊆ t.area ctx p := by
  induction p using postOrder.induct t with
  | case1 p ih =>
    rcases mem_postOrder_iff.1 hu with rfl | ⟨c, hc, hu⟩
    · exact subset_rfl
    · exact (ih ⟨c, hc⟩ hu).trans (h.area_subset (mem_children_iff.1 hc).2.2)

/-- Components below a node do not overlap: they are below one member, or below two members
that do not. -/
theorem area_gap_of_mem_postOrder {u v : NodeId} {i j : ComponentId} (hu : u ∈ t.postOrder p)
    (hv : v ∈ t.postOrder p) (hi : t.kind u = .part i) (hj : t.kind v = .part j) (hne : u ≠ v) :
    Gap 0 (t.area ctx u) (t.area ctx v) := by
  induction p using postOrder.induct t with
  | case1 p ih =>
    have hleaf : ∀ {w k}, t.kind w = .part k → w ∈ t.postOrder p → w = p →
        ∀ x ∈ t.postOrder p, x = w := by
      intro w k hk _ hw x hx
      subst hw
      rcases mem_postOrder_iff.1 hx with rfl | ⟨c, hc, -⟩
      · rfl
      · rw [h.nodes.children_of_part hk] at hc
        exact absurd hc List.not_mem_nil
    rcases mem_postOrder_iff.1 hu with hup | ⟨c, hc, huc⟩
    · exact absurd (hleaf hi hu hup v hv).symm hne
    · rcases mem_postOrder_iff.1 hv with hvp | ⟨c', hc', hvc⟩
      · exact absurd (hleaf hj hv hvp u hu) hne
      · by_cases heq : c = c'
        · subst heq
          exact ih ⟨c, hc⟩ huc hvc
        · have hgap := h.area_gap_of_parent (mem_children_iff.1 hc).2.2
            (mem_children_iff.1 hc').2.2 heq
          exact hgap.mono (h.area_subset_of_mem_postOrder huc) (h.area_subset_of_mem_postOrder hvc)

/-- The components of a tree do not overlap. -/
theorem area_gap {u v : NodeId} {i j : ComponentId} (hi : t.kind u = .part i)
    (hj : t.kind v = .part j) (hne : u ≠ v) : Gap 0 (t.area ctx u) (t.area ctx v) := by
  have hbelow : ∀ {w k}, t.kind w = .part k → w ∈ t.postOrder 0 := by
    intro w k hk
    obtain ⟨node, hnode, -⟩ := exists_node_of_part hk
    exact h.nodes.mem_postOrder (Array.getElem?_eq_some_iff.1 hnode).1
  exact h.area_gap_of_mem_postOrder (hbelow hi) (hbelow hj) hi hj hne

end Arrangeable

end Boxes

end ClusterTree

end Schematic
