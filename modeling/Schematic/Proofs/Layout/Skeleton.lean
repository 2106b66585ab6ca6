import Schematic.Proofs.Layout.Arrangement
import Schematic.Proofs.Layout.Completeness

/-!
# A tree and the positions in it

Which nodes there are, in which clusters, and what the nets join does not depend on
positions.  So when positions are set, the tree of a circuit keeps its skeleton, and
the nodes differ in where they are at most: each has the position of what it stands
for, if that has one.

## Main definitions

* `ClusterNode.unplaced` — a node without its position.
* `Netlist.positionOf?`, `Netlist.fixedOf` — the position of what a node stands for.

## Main statements

* `ClusterTree.ofMembers_withoutPositions` — the skeleton does not depend on positions.
* `ClusterTree.NodesFit.node_eq` — a node is told by the skeleton and its position.
* `Netlist.Repositioned.clusters_skeleton` — what a tree keeps when positions are set.
-/

namespace Schematic

variable {α : Type}

/-! ### What placing does not look at -/

namespace Netlist

theorem connectedNetCount_withoutPositions (n : Netlist α) (id : ComponentId) :
    n.withoutPositions.connectedNetCount id = n.connectedNetCount id := by
  simp only [connectedNetCount, getElem?_withoutPositions]
  cases n.components[id]? <;> rfl

theorem isElectrical_withoutPositions (n : Netlist α) :
    n.withoutPositions.isElectrical = n.isElectrical := by
  funext id
  simp only [isElectrical, getElem?_withoutPositions, Option.any_map]
  rfl

theorem unmarked_withoutPositions (n : Netlist α) :
    n.withoutPositions.components.toList.filter (fun c => !c.marker) =
      (n.components.toList.filter fun c => !c.marker).map Component.unplaced := by
  rw [withoutPositions, Array.toList_map, List.filter_map]
  rfl

theorem electrical_withoutPositions (n : Netlist α) :
    n.withoutPositions.electrical = n.electrical := by
  rw [electrical, electrical, unmarked_withoutPositions, List.map_map,
    isElectrical_withoutPositions]
  rfl

theorem mechanical_withoutPositions (n : Netlist α) :
    n.withoutPositions.mechanical = n.mechanical := by
  rw [mechanical, mechanical, unmarked_withoutPositions, List.map_map]
  simp only [isElectrical_withoutPositions]
  rfl

theorem connectionGraph_withoutPositions (n : Netlist α) :
    ConnectionGraph.ofNetlist n.withoutPositions = ConnectionGraph.ofNetlist n := by
  have hjoined : ConnectionGraph.joined n.withoutPositions = ConnectionGraph.joined n := by
    funext net
    simp only [ConnectionGraph.joined, functionalPins_withoutPositions]
    rfl
  have hsize : n.withoutPositions.components.size = n.components.size := Array.size_map
  simp only [ConnectionGraph.ofNetlist, hjoined, hsize]
  rfl

end Netlist

/-! ### The skeleton of a tree -/

variable [Scalar α]

/-- A node without its position. -/
def ClusterNode.unplaced (node : ClusterNode α) : ClusterNode α :=
  .placed node.kind node.parent none false

namespace ClusterTree

theorem unplaced_placed (kind : ClusterKind) (parent : Option NodeId)
    (position : Option (Placement α)) (fixed : Bool) :
    (ClusterNode.placed kind parent position fixed).unplaced = .placed kind parent none false := by
  rw [ClusterNode.unplaced, kind_placed, parent_placed]

theorem groupNode?_map_unplaced (nodes : Array (ClusterNode α)) (parent : NodeId) (tag : String) :
    groupNode? (nodes.map ClusterNode.unplaced) parent tag = groupNode? nodes parent tag := by
  rw [groupNode?, groupNode?, Array.findIdx?_map]
  rfl

theorem partNode_unplaced (cluster : NodeId) (c : Component α) :
    partNode cluster c.unplaced = (partNode cluster c).unplaced := by
  rw [partNode, partNode, unplaced_placed]
  rfl

/-- A component is added in the same way without positions. -/
theorem addPart_unplaced (composables : Nat) (nodes : Array (ClusterNode α)) (c : Component α) :
    addPart composables (nodes.map ClusterNode.unplaced) c.unplaced =
      (addPart composables nodes c).map ClusterNode.unplaced := by
  have hgroup : c.unplaced.group = c.group := rfl
  have hparent : c.unplaced.parent = c.parent := rfl
  rw [addPart, addPart, hgroup, hparent]
  cases c.group with
  | none => rw [Array.map_push, partNode_unplaced]
  | some tag =>
    dsimp only
    rw [groupNode?_map_unplaced]
    cases groupNode? nodes (frameNode composables c.parent) tag with
    | some group =>
      dsimp only
      rw [Array.map_push, partNode_unplaced]
    | none =>
      dsimp only
      rw [Array.map_push, Array.map_push, partNode_unplaced, unplaced_placed, Array.size_map]

/-- The skeleton of a circuit's tree does not depend on positions. -/
theorem ofMembers_withoutPositions (n : Netlist α) (members : List ComponentId) :
    (ofMembers n.withoutPositions members).nodes =
      (ofMembers n members).nodes.map ClusterNode.unplaced := by
  have hcomposables : n.withoutPositions.composables.mapIdx composableNode =
      (n.composables.mapIdx composableNode).map ClusterNode.unplaced := by
    refine Array.ext_getElem? fun i => ?_
    rw [Array.getElem?_map, Array.getElem?_mapIdx, Array.getElem?_mapIdx, Netlist.withoutPositions,
      Array.getElem?_map, Option.map_map, Option.map_map]
    refine congrArg (n.composables[i]?).map (funext fun c => ?_)
    exact (unplaced_placed ..).symm
  have hclusters : #[ClusterNode.placed .sheet none none false] ++
      n.withoutPositions.composables.mapIdx composableNode =
        (#[ClusterNode.placed .sheet none none false] ++
          n.composables.mapIdx composableNode).map ClusterNode.unplaced := by
    rw [Array.map_append, hcomposables, Array.map_singleton, unplaced_placed]
  have hmembers : members.filterMap (n.withoutPositions.components[·]?) =
      (members.filterMap (n.components[·]?)).map Component.unplaced := by
    simp only [Netlist.getElem?_withoutPositions, List.map_filterMap]
  have hsize : n.withoutPositions.composables.size = n.composables.size := Array.size_map
  rw [ofMembers, ofMembers, hclusters, hmembers, List.foldl_map, hsize]
  exact List.foldl_hom (Array.map ClusterNode.unplaced) fun nodes c => addPart_unplaced _ nodes c

section Skeleton

variable {t t' : ClusterTree α} (h : t'.nodes.map ClusterNode.unplaced =
  t.nodes.map ClusterNode.unplaced)

include h

/-- Trees with the same skeleton have as many nodes. -/
theorem size_of_skeleton : t'.size = t.size := by
  have hsize := congrArg Array.size h
  rwa [Array.size_map, Array.size_map] at hsize

theorem getElem?_of_skeleton (u : NodeId) :
    (t'.nodes[u]?).map ClusterNode.unplaced = (t.nodes[u]?).map ClusterNode.unplaced := by
  rw [← Array.getElem?_map, ← Array.getElem?_map, h]

/-- Their nodes stand for the same. -/
theorem kind_of_skeleton (u : NodeId) : t'.kind u = t.kind u := by
  have hkind : ∀ t : ClusterTree α, t.kind u =
      (((t.nodes[u]?).map ClusterNode.unplaced).map (·.kind)).getD .sheet := by
    intro t
    rw [Option.map_map]
    rfl
  rw [hkind, hkind, getElem?_of_skeleton h]

/-- They are in the same clusters. -/
theorem parent?_of_skeleton (u : NodeId) : t'.parent? u = t.parent? u := by
  have hparent : ∀ t : ClusterTree α, t.parent? u =
      ((t.nodes[u]?).map ClusterNode.unplaced).bind (·.parent) := by
    intro t
    rw [Option.bind_map]
    rfl
  rw [hparent, hparent, getElem?_of_skeleton h]

end Skeleton

end ClusterTree

/-! ### Positions in a tree -/

namespace Netlist

/-- The position of what a node stands for; the sheet and groups have none. -/
def positionOf? (n : Netlist α) : ClusterKind → Option (Placement α)
  | .composable i => n.composables[i]?.bind (·.position)
  | .part i => n.components[i]?.bind (·.position)
  | _ => none

/-- Whether the author has placed what a node stands for. -/
def fixedOf (n : Netlist α) : ClusterKind → Bool
  | .composable i => n.composables[i]?.any (·.fixed)
  | .part i => n.components[i]?.any (·.fixed)
  | _ => false

end Netlist

namespace ClusterTree

section Positions

variable {n : Netlist α} {members : List (Component α)} {t : ClusterTree α}
  (h : NodesFit n members t.nodes) (hknown : ∀ c ∈ members, n.components[c.id]? = some c)

include h hknown

/-- A node is where what it stands for is. -/
theorem NodesFit.node_eq {u : NodeId} {node : ClusterNode α} (hnode : t.nodes[u]? = some node) :
    node = .placed node.kind node.parent (n.positionOf? node.kind) (n.fixedOf node.kind) := by
  cases h.fits u node hnode with
  | sheet => rfl
  | @composable i c known =>
    rw [composableNode, kind_placed, parent_placed, Netlist.positionOf?, Netlist.fixedOf, known]
    rfl
  | group tag outside inside => rfl
  | @part u cluster c outside mem lt inCluster =>
    rw [partNode, kind_placed, parent_placed, Netlist.positionOf?, Netlist.fixedOf, hknown c mem]
    rfl

/-- The origin and the rotation of a node are those of its position. -/
theorem NodesFit.offset_rotation_eq (u : NodeId) :
    t.offset u = ((n.positionOf? (t.kind u)).getD .origin).point ∧
      t.rotation u = ((n.positionOf? (t.kind u)).getD .origin).rotation := by
  cases hnode : t.nodes[u]? with
  | none =>
    rw [offset, rotation, kind, hnode]
    exact ⟨rfl, rfl⟩
  | some node =>
    have heq := h.node_eq hknown hnode
    rw [offset, rotation, kind_of_node hnode, hnode, Option.map_some, Option.map_some,
      Option.getD_some, Option.getD_some, heq, kind_placed]
    cases n.positionOf? node.kind <;> exact ⟨rfl, rfl⟩

/-- A node is fixed if the author has placed it. -/
theorem NodesFit.any_fixed_eq (u : NodeId) :
    t.nodes[u]?.any (·.fixed) =
      ((n.positionOf? (t.kind u)).isSome && n.fixedOf (t.kind u)) := by
  cases hnode : t.nodes[u]? with
  | none =>
    rw [kind, hnode]
    rfl
  | some node =>
    have heq := h.node_eq hknown hnode
    rw [kind_of_node hnode, Option.any_some, heq, kind_placed]
    cases n.positionOf? node.kind <;> rfl

end Positions

end ClusterTree

/-! ### What a tree keeps when positions are set -/

namespace Netlist.Repositioned

open ClusterTree

variable {n m : Netlist α} (h : Repositioned n m)

include h

omit [Scalar α] in
theorem electrical_eq : m.electrical = n.electrical := by
  rw [← electrical_withoutPositions, h.same, electrical_withoutPositions]

omit [Scalar α] in
theorem mechanical_eq : m.mechanical = n.mechanical := by
  rw [← mechanical_withoutPositions, h.same, mechanical_withoutPositions]

omit [Scalar α] in
theorem connectionGraph_eq : ConnectionGraph.ofNetlist m = ConnectionGraph.ofNetlist n := by
  rw [← connectionGraph_withoutPositions, h.same, connectionGraph_withoutPositions]

omit [Scalar α] in
theorem fixedOf_eq (kind : ClusterKind) : m.fixedOf kind = n.fixedOf kind := by
  cases kind with
  | composable i =>
    have hsame := congrArg (Option.any (·.fixed)) (h.composable_unplaced_eq i)
    rwa [Option.any_map, Option.any_map] at hsame
  | part i =>
    have hsame := congrArg (Option.any (·.fixed)) (h.unplaced_eq i)
    rwa [Option.any_map, Option.any_map] at hsame
  | _ => rfl

/-- The tree has the same skeleton. -/
theorem clusters_skeleton :
    m.clusters.nodes.map ClusterNode.unplaced = n.clusters.nodes.map ClusterNode.unplaced := by
  rw [clusters, clusters, ← ofMembers_withoutPositions, ← ofMembers_withoutPositions, h.same,
    h.electrical_eq]

/-- Components have the boxes that they had. -/
theorem partBounds_eq (symbols : SymbolSource α) (config : PlacementConfig α) (i : ComponentId) :
    (m.layoutContext symbols config).partBounds i =
      (n.layoutContext symbols config).partBounds i := by
  have hnets : m.connectedNetCount i = n.connectedNetCount i := by
    rw [← connectedNetCount_withoutPositions, h.same, connectedNetCount_withoutPositions]
  have hsymbol : m.symbolOf i = n.symbolOf i := symbolOf_congr (h.unplaced_eq i)
  show ((symbols.localBounds (m.symbolOf i)).inflate
    (Scalar.min (config.corridorPerNet * Scalar.ofInt (m.connectedNetCount i)) config.maxCorridor)) =
      _
  rw [hnets, hsymbol]
  rfl

omit [Scalar α] in
/-- Nodes have the names that they had. -/
theorem label_eq {t t' : ClusterTree α} (hkind : ∀ u, t'.kind u = t.kind u) (u : NodeId) :
    t'.label m u = t.label n u := by
  have hcomponent : ∀ i : ComponentId,
      m.components[i]?.map (·.reference) = n.components[i]?.map (·.reference) := by
    intro i
    have hsame := congrArg (Option.map (·.reference)) (h.unplaced_eq i)
    rwa [Option.map_map, Option.map_map] at hsame
  have hcomposable : ∀ i : ComposableId,
      m.composables[i]?.map (·.name) = n.composables[i]?.map (·.name) := by
    intro i
    have hsame := congrArg (Option.map (·.name)) (h.composable_unplaced_eq i)
    rwa [Option.map_map, Option.map_map] at hsame
  rw [label, label, hkind]
  cases t.kind u with
  | composable i => exact congrArg (Option.getD · "") (hcomposable i)
  | part i => exact congrArg (Option.getD · "") (hcomponent i)
  | _ => rfl

end Netlist.Repositioned

end Schematic
