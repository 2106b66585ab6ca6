import Schematic.Proofs.Layout.Overlap

/-!
# What is read from a placed circuit is its arrangement

A circuit is placed in three stages: its composables, the components of its tree, and
the rows of the other components.  A later stage leaves alone what an earlier one has
written, so that the frames that are read from the placed circuit, by going outward
from parent to parent, are those that the tree was given from the sheet inward.

## Main definitions

* `Netlist.Stages` — a circuit between the stages of placing.

## Main statements

* `Netlist.Authored.exists_stages` — every circuit is placed in stages.
* `Netlist.place_follows_tree` — composables and components are where the tree has them.
-/

namespace Schematic

open ExactScalar
open scoped Scalar

variable {α : Type} [Scalar α]

namespace Netlist

open ClusterTree

variable [ExactScalar α] {n m n₁ n₂ : Netlist α} {symbols : SymbolSource α}
  {config : PlacementConfig α}

/-- A circuit on its way to being placed: its composables are placed first, then the components
of its tree, and the rows of the other components last. -/
structure Stages (n : Netlist α) (symbols : SymbolSource α) (config : PlacementConfig α)
    (n₁ n₂ m : Netlist α) : Prop where
  /-- Composables have the frames of their nodes. -/
  frames : FramesSet n n.clusters (n.arranged symbols config) n.clusters.size n₁
  /-- Connected components are put where their nodes are. -/
  parts : PartsPut n₁ n.clusters (n.arranged symbols config) config.gridSnap n.clusters.size n₂
  /-- The other ones are put in rows. -/
  rows : PointsSet n₂ (n₂.rowsOf symbols config n.electrical n.mechanical) m

/-- Every circuit that the author has placed some things in is placed in stages. -/
theorem Authored.exists_stages (h : n.Authored) (symbols : SymbolSource α)
    (config : PlacementConfig α) : ∃ n₁ n₂, Stages n symbols config n₁ n₂
      (n.place symbols config).1 := by
  have hframes : FramesSet n n.clusters (n.arranged symbols config) n.clusters.size _ :=
    h.charted.framesSet n.clusters.size
  have hparts := h.charted.partsPut hframes config.gridSnap
  refine ⟨_, _, hframes, hparts, ?_⟩
  have hmechanical : ∀ i ∈ n.mechanical, ∃ c, n.components[i]? = some c := by
    intro i hi
    obtain ⟨c, hc, -⟩ := (mem_unmarked_iff (fun _ _ => h.numbered) _).1 hi
    exact ⟨c, hc⟩
  refine pointsSet_placeMechanical (nodup_unmarked (fun _ _ => h.numbered) _) ?_ ?_
  · intro i hi
    obtain ⟨c, hc⟩ := hmechanical i hi
    obtain ⟨d, hd, -⟩ := exists_component ((hparts.unplaced i).trans (by rw [hframes.components])) hc
    exact (Array.getElem?_eq_some_iff.1 hd).1
  · intro i hi
    obtain ⟨c, hc⟩ := hmechanical i hi
    have hid := h.numbered hc
    subst hid
    rw [hparts.parentFrame]
    exact h.charted.square_parentFrame hframes hc

namespace Stages

variable (h : Stages n symbols config n₁ n₂ m)
include h

/-- The composables stay as the first stage leaves them. -/
theorem composables : m.composables = n₁.composables :=
  h.rows.composables.trans h.parts.composables

/-- So do the frames around components. -/
theorem parentFrame (i : ComponentId) : m.parentFrame i = n₁.parentFrame i :=
  (h.rows.parentFrame i).trans (h.parts.parentFrame i)

/-- The components of the tree are left alone by the rows. -/
theorem component_of_electrical {i : ComponentId} (hi : i ∈ n.electrical) :
    m.components[i]? = n₂.components[i]? := by
  refine h.rows.untouched i fun hrow => ?_
  rw [map_fst_rowsOf] at hrow
  exact not_mem_mechanical hi (List.mem_of_mem_filter hrow)

end Stages

/-- The nodes of components are those of the connected ones. -/
theorem Authored.mem_electrical_iff (h : n.Authored) {i : ComponentId} :
    i ∈ n.electrical ↔ ∃ u < n.clusters.size, n.clusters.kind u = .part i := by
  have hmembers : n.electricalParts.map (·.id) = n.electrical :=
    map_id_electricalParts fun _ _ => h.numbered
  constructor
  · intro hi
    rw [← hmembers] at hi
    obtain ⟨c, hc, rfl⟩ := List.mem_map.1 hi
    obtain ⟨u, hu⟩ := h.charted.nodes.exists_part hc
    obtain ⟨node, hnode, -⟩ := exists_node_of_part hu
    exact ⟨u, (Array.getElem?_eq_some_iff.1 hnode).1, hu⟩
  · rintro ⟨u, -, hu⟩
    obtain ⟨c, cluster, hc, rfl, -⟩ := h.charted.nodes.of_kind_part hu
    rw [← hmembers]
    exact List.mem_map_of_mem hc

/-! ### Placements in the frames of clusters -/

omit [ExactScalar α] in
/-- Where a node is in its cluster after an arrangement. -/
def localAfter (t : ClusterTree α) (a : Arrangement α) (u : NodeId) : Placement α :=
  ⟨(offsetAfter t a u).x, (offsetAfter t a u).y, t.rotation u⟩

/-- A cluster turns like the frame around its components. -/
theorem Charted.sameTurn_cluster {members : List (Component α)} {t : ClusterTree α}
    (h : n.Charted members t) (a : Arrangement α) {c : Component α} {cluster : NodeId}
    (hin : InCluster n t.nodes c cluster) :
    SameTurn (frameAfter t a cluster).rotation
      (frameAfter t a (frameNode n.composables.size c.parent)).rotation := by
  cases hin with
  | frame untagged => exact .refl _
  | group tagged hgnode =>
    have hparent : t.parent? cluster = some (frameNode n.composables.size c.parent) :=
      parent?_of_node hgnode
    have hrotation : t.rotation cluster = 0 := by
      rw [ClusterTree.rotation, hgnode]
      rfl
    have hsum : ∀ x y : α, SameTurn ((frameAfter t a (frameNode n.composables.size c.parent)).compose
        ⟨x, y, 0⟩).rotation (frameAfter t a (frameNode n.composables.size c.parent)).rotation := by
      intro x y
      have hzero : (⟨x, y, 0⟩ : Placement α).Square := Placement.isQuarter_zero
      refine (Placement.sameTurn_compose (h.square_frameAfter a _) hzero).trans ⟨0, ?_⟩
      rw [value_add, value_zero]
      norm_num
    rw [frameAfter_of_parent h.nodes a hparent, hrotation]
    exact hsum _ _

namespace Stages

variable (h : Stages n symbols config n₁ n₂ m) (hn : n.Authored)
include h hn

/-- A composable is placed in its parent like its node in the cluster. -/
theorem alike_composable {i : ComposableId} (hi : i < n.composables.size) :
    (m.composablePlacement i).Alike (localAfter n.clusters (n.arranged symbols config) (i + 1)) := by
  have hcharted := hn.charted
  have hlt : i + 1 < n.clusters.size := Nat.lt_of_le_of_lt hi hcharted.nodes.size
  have hnode := hcharted.nodes.composable_node (Array.getElem?_eq_getElem hi)
  have hparent : n.clusters.parent? (i + 1) = some (frameNode i n.composables[i].parent) := by
    rw [parent?_of_node hnode, composableNode, parent_placed]
  have hplacement : m.composablePlacement i = n₁.composablePlacement i :=
    composablePlacement_of_composables h.composables i
  -- both lead from the frame of the parent to that of the node
  have hframe := h.frames.frame i hi hlt
  rw [composableFrame_eq (h.frames.nested hn.nested),
    hcharted.outerFrame_eq h.frames (Nat.lt_of_succ_lt hlt) (Array.getElem?_eq_getElem hi),
    frameAfter_of_parent hcharted.nodes _ hparent] at hframe
  rw [hplacement]
  exact Placement.alike_of_compose_eq (hcharted.square_frameAfter _ _) (h.frames.square i)
    (hcharted.square (i + 1)) hframe

/-- A connected component is placed in its parent like its node in the cluster, if the author
has placed it, and otherwise turned like it. -/
theorem exists_position {u : NodeId} {i : ComponentId} (hkind : n.clusters.kind u = .part i) :
    ∃ p, m.components[i]?.bind (·.position) = some p ∧
      SameTurn p.rotation (n.clusters.rotation u) ∧
      (n.clusters.isFixed u = true →
        p.Alike (localAfter n.clusters (n.arranged symbols config) u)) ∧
      (n.clusters.isFixed u = false → p.Normal) := by
  have hcharted := hn.charted
  obtain ⟨c, cluster, hc, rfl, hnode, hin⟩ := hcharted.nodes.of_kind_part hkind
  have hu : u < n.clusters.size := (Array.getElem?_eq_some_iff.1 hnode).1
  have hparent : n.clusters.parent? u = some cluster := by
    rw [parent?_of_node hnode, partNode, parent_placed]
  obtain ⟨p, hp, hsquare, hnormal, hplace⟩ := h.parts.placed u hu _ hkind
  have hframe := hcharted.parentFrame_eq h.frames (hcharted.known c hc)
  have hnodeFrame := frameAfter_of_parent hcharted.nodes (n.arranged symbols config) hparent
  refine ⟨p, ?_, ?_, fun hfixed => ?_, hnormal⟩
  · rwa [h.component_of_electrical (hn.mem_electrical_iff.2 ⟨u, hu, hkind⟩)]
  · have hcluster := hcharted.sameTurn_cluster (n.arranged symbols config) hin
    rw [← hframe] at hcluster
    have hlocal : (localAfter n.clusters (n.arranged symbols config) u).Square :=
      hcharted.square u
    refine Placement.sameTurn_of_compose (hcharted.square_parentFrame h.frames
      (hcharted.known c hc)) (hcharted.square_frameAfter _ cluster) hsquare hlocal hcluster.symm ?_
    -- bringing something onto the grid does not turn it
    rw [hplace, sheetPlace, hnodeFrame]
    split <;> rfl
  · have hpart : (partNode cluster c).fixed = true := by
      rw [← isFixed_of_node hnode (by rw [partNode, kind_placed]; rfl)]
      exact hfixed
    have hcluster : frameAfter n.clusters (n.arranged symbols config) cluster =
        n₁.parentFrame c.id := (hcharted.frameAfter_cluster hin hnode hpart).trans hframe.symm
    rw [sheetPlace, if_pos hfixed, hnodeFrame, hcluster] at hplace
    exact Placement.alike_of_compose_eq (hcharted.square_parentFrame h.frames
      (hcharted.known c hc)) hsquare (hcharted.square u) hplace

end Stages

/-! ### The frames of a placed circuit -/

/-- Placing puts everything where the tree has it.  Its frames lead from the sheet inward, and
every composable and every connected component has a node there.  In the placed circuit the
frame of a composable is that of its node, at any depth, and so is the place of a component,
brought onto the grid if the author has not placed it. -/
theorem place_follows_tree {name : String} {ops : List (Operation α)} {b : Build α}
    (hdrain : Build.drain ((Build.new name).run ops) = .ok n b)
    (hcomponents : ∀ c ∈ n.components, ∀ p ∈ c.position, IsQuarter p.rotation)
    (hcomposables : ∀ c ∈ n.composables, ∀ p ∈ c.position, IsQuarter p.rotation)
    (symbols : SymbolSource α) (config : PlacementConfig α) :
    let t := n.clusters
    let a := n.arranged symbols config
    let m := (n.place symbols config).1
    (frameAfter t a 0 = .origin ∧ ∀ u p, t.parent? u = some p →
      frameAfter t a u = (frameAfter t a p).compose
        ⟨(offsetAfter t a u).x, (offsetAfter t a u).y, t.rotation u⟩) ∧
    (∀ i < n.composables.size, ∃ u, t.kind u = .composable i) ∧
    (∀ u i, t.kind u = .composable i → m.composableFrame i = frameAfter t a u) ∧
    (∀ i ∈ n.electrical, ∃ u, t.kind u = .part i) ∧
    ∀ u i, t.kind u = .part i → m.absolute? i = some
      (if t.isFixed u then frameAfter t a u
        else snapPlacement config.gridSnap (frameAfter t a u)) := by
  intro t a m
  have hauthored : n.Authored := Build.authored_of_drain hdrain hcomponents hcomposables
  obtain ⟨n₁, n₂, hstages⟩ := hauthored.exists_stages symbols config
  have hnodes := hauthored.charted.nodes
  refine ⟨⟨frameAfter_zero hnodes a, fun u p hp => frameAfter_of_parent hnodes a hp⟩, ?_, ?_, ?_,
    ?_⟩
  · intro i hi
    exact ⟨i + 1, hnodes.kind_composable hi⟩
  · intro u i hkind
    obtain ⟨rfl, c, hc⟩ := hnodes.of_kind_composable hkind
    have hi : i < n.composables.size := (Array.getElem?_eq_some_iff.1 hc).1
    rw [composableFrame_of_composables hstages.composables]
    exact hstages.frames.frame i hi (Nat.lt_of_le_of_lt hi hnodes.size)
  · intro i hi
    obtain ⟨u, -, hu⟩ := hauthored.mem_electrical_iff.1 hi
    exact ⟨u, hu⟩
  · intro u i hkind
    obtain ⟨node, hnode, -⟩ := exists_node_of_part hkind
    have hu : u < n.clusters.size := (Array.getElem?_eq_some_iff.1 hnode).1
    have helectrical : i ∈ n.electrical := hauthored.mem_electrical_iff.2 ⟨u, hu, hkind⟩
    rw [absolute?_congr (hstages.component_of_electrical helectrical) (hstages.rows.parentFrame i)]
    exact hstages.parts.absolute? hu hkind

/-- In the crowded circuit everything is turned by quarter turns. -/
theorem crowded_turned :
    crowded.drain = .ok crowded.toNetlist crowded.cleared ∧
      (∀ c ∈ crowded.toNetlist.components, ∀ p ∈ c.position, IsQuarter p.rotation) ∧
      ∀ c ∈ crowded.toNetlist.composables, ∀ p ∈ c.position, IsQuarter p.rotation := by
  have hcomponents : crowded.toNetlist.components.all (fun c => turnedOnce c.position) = true := by
    decide +kernel
  have hcomposables :
      crowded.toNetlist.composables.all (fun c => turnedOnce c.position) = true := by
    decide +kernel
  rw [Array.all_eq_true_iff_forall_mem] at hcomponents hcomposables
  exact ⟨rfl, fun c hc => isQuarter_of_turnedOnce (hcomponents c hc),
    fun c hc => isQuarter_of_turnedOnce (hcomposables c hc)⟩

/-- In the crowded circuit the inner composable is where its node is. -/
theorem crowded_follows_tree :
    (crowded.drain = .ok crowded.toNetlist crowded.cleared ∧
      (∀ c ∈ crowded.toNetlist.components, ∀ p ∈ c.position, IsQuarter p.rotation) ∧
      ∀ c ∈ crowded.toNetlist.composables, ∀ p ∈ c.position, IsQuarter p.rotation) ∧
    crowded.toNetlist.clusters.kind 2 = .composable 1 ∧
    (crowded.toNetlist.place uprightLibrary.source default).1.composableFrame 1 =
      frameAfter crowded.toNetlist.clusters
        (crowded.toNetlist.arranged uprightLibrary.source default) 2 := by
  obtain ⟨hdrain, hcomponents, hcomposables⟩ := crowded_turned
  have hkind : crowded.toNetlist.clusters.kind 2 = .composable 1 := by decide +kernel
  obtain ⟨-, -, hframe, -⟩ := place_follows_tree hdrain hcomponents hcomposables
    uprightLibrary.source default
  exact ⟨crowded_turned, hkind, hframe 2 1 hkind⟩

end Netlist

end Schematic
