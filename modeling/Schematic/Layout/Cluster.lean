import Schematic.Circuit.Netlist

/-!
# The tree of clusters

Components are placed cluster by cluster.  The sheet is the outermost cluster;
every composable is a cluster inside its parent; and the components of one
parent that share a group tag form a cluster of their own there.

The nodes of the tree are numbered so that a node's parent has a smaller number.
Nodes refer to their parents only; the members of a cluster are the nodes that
refer to it, in the order of their numbers.

## Main definitions

* `ClusterTree`, `ClusterTree.ofMembers` — the tree for some components.
* `ClusterTree.children`, `ClusterTree.leaves` — what a cluster holds.
* `ClusterTree.postOrder` — the nodes below one, members before clusters.
* `ClusterTree.frameWith` — the frame of a node on the sheet.

## Main statements

* `ClusterTree.mem_children_iff` — the members of a cluster are the later nodes
  that refer to it.
-/

namespace Schematic

open Scalar

/-- The number of a node. -/
abbrev NodeId := Nat

/-- What a node stands for. -/
inductive ClusterKind where
  /-- The whole sheet. -/
  | sheet
  /-- A composable. -/
  | composable (id : ComposableId)
  /-- The components of one parent with a group tag. -/
  | group (tag : String)
  /-- A single component. -/
  | part (id : ComponentId)
  deriving DecidableEq, Repr, Inhabited

/-- The component that a node stands for. -/
def ClusterKind.part? : ClusterKind → Option ComponentId
  | .part id => some id
  | _ => none

/-- Whether a node stands for a group. -/
def ClusterKind.isGroup : ClusterKind → Bool
  | .group _ => true
  | _ => false

/-- A node of the tree. -/
structure ClusterNode (α : Type) where
  /-- What it stands for. -/
  kind : ClusterKind
  /-- The cluster it is a member of. -/
  parent : Option NodeId
  /-- The origin in the frame of its cluster. -/
  offset : Point α
  /-- The rotation in degrees. -/
  rotation : α
  /-- Whether the author chose its placement; a group has none itself. -/
  fixed : Bool
  deriving Repr

/-- A tree of clusters. -/
structure ClusterTree (α : Type) where
  /-- The nodes by number. -/
  nodes : Array (ClusterNode α)
  deriving Repr

variable {α : Type}

/-! ### Building the tree -/

section Build

variable [Scalar α]

/-- A node at the placement it has, if any. -/
def ClusterNode.placed (kind : ClusterKind) (parent : Option NodeId)
    (position : Option (Placement α)) (fixed : Bool) : ClusterNode α :=
  match position with
  | some p => { kind, parent, offset := p.point, rotation := p.rotation, fixed }
  | none => { kind, parent, offset := .origin, rotation := 0, fixed := false }

namespace ClusterTree

omit [Scalar α] in
/-- The node of a parent among the first `count` composables; the sheet when
there is none. -/
def frameNode (count : Nat) : Option ComposableId → NodeId
  | some id => if id < count then id + 1 else 0
  | none => 0

/-- The node of a composable. -/
def composableNode (id : ComposableId) (c : Composable α) : ClusterNode α :=
  .placed (.composable id) (some (frameNode id c.parent)) c.position c.fixed

/-- The node of a component in a cluster. -/
def partNode (cluster : NodeId) (c : Component α) : ClusterNode α :=
  .placed (.part c.id) (some cluster) c.position c.fixed

omit [Scalar α] in
/-- The node of a group tag under a parent node. -/
def groupNode? (nodes : Array (ClusterNode α)) (parent : NodeId) (tag : String) : Option NodeId :=
  nodes.findIdx? fun n => n.kind == .group tag && n.parent == some parent

/-- Add a component, with a node for its group when it is the first one there. -/
def addPart (composables : Nat) (nodes : Array (ClusterNode α)) (c : Component α) :
    Array (ClusterNode α) :=
  let parent := frameNode composables c.parent
  match c.group with
  | none => nodes.push (partNode parent c)
  | some tag =>
      match groupNode? nodes parent tag with
      | some group => nodes.push (partNode group c)
      | none =>
          (nodes.push (.placed (.group tag) (some parent) none false)).push (partNode nodes.size c)

/-- The tree for some components: the sheet, the composables in order, then the
components in the given order. -/
def ofMembers (n : Netlist α) (members : List ComponentId) : ClusterTree α :=
  let clusters := #[.placed .sheet none none false] ++ n.composables.mapIdx composableNode
  ⟨(members.filterMap (n.components[·]?)).foldl (addPart n.composables.size) clusters⟩

end ClusterTree

end Build

namespace ClusterTree

/-! ### Members -/

/-- The number of nodes. -/
def size (t : ClusterTree α) : Nat := t.nodes.size

/-- What a node stands for; the sheet if there is no such node. -/
def kind (t : ClusterTree α) (id : NodeId) : ClusterKind :=
  (t.nodes[id]?.map (·.kind)).getD .sheet

/-- The cluster that a node is a member of. -/
def parent? (t : ClusterTree α) (id : NodeId) : Option NodeId := t.nodes[id]?.bind (·.parent)

/-- The members of a cluster, in order. -/
def children (t : ClusterTree α) (id : Nat) : List NodeId :=
  (List.range' (id + 1) (t.size - (id + 1))).filter fun c => t.parent? c == some id

/-- The members of a cluster are the later nodes that refer to it. -/
theorem mem_children_iff {t : ClusterTree α} {id c : Nat} :
    c ∈ t.children id ↔ id < c ∧ c < t.size ∧ t.parent? c = some id := by
  simp only [children, List.mem_filter, List.mem_range'_1, beq_iff_eq, ← and_assoc]
  exact and_congr_left fun _ => by omega

/-- Whether the author chose the placement of a node.  That of a group was
chosen when one of its members was placed. -/
def isFixed (t : ClusterTree α) (id : NodeId) : Bool :=
  let fixed (i : NodeId) : Bool := t.nodes[i]?.any (·.fixed)
  if (t.kind id).isGroup then (t.children id).any fixed else fixed id

/-- The nodes below a node and itself, every member before its cluster. -/
def postOrder (t : ClusterTree α) (id : Nat) : List NodeId :=
  ((t.children id).attach.flatMap fun c => t.postOrder c.1) ++ [id]
termination_by t.size - id
decreasing_by
  obtain ⟨later, inside, _⟩ := mem_children_iff.1 c.2
  omega

/-- The components below a node, in order. -/
def leaves (t : ClusterTree α) (id : NodeId) : List ComponentId :=
  (t.postOrder id).filterMap fun i => (t.kind i).part?

/-- A node in a message. -/
def label (t : ClusterTree α) (n : Netlist α) (id : NodeId) : String :=
  match t.kind id with
  | .sheet => "<root>"
  | .composable c => (n.composables[c]?.map (·.name)).getD ""
  | .group tag => "group " ++ tag
  | .part c => (n.components[c]?.map (·.reference)).getD ""

/-! ### Frames -/

variable [Scalar α]

/-- The rotation of a node. -/
def rotation (t : ClusterTree α) (id : NodeId) : α := (t.nodes[id]?.map (·.rotation)).getD 0

/-- The origin of a node in the frame of its cluster. -/
def offset (t : ClusterTree α) (id : NodeId) : Point α :=
  (t.nodes[id]?.map (·.offset)).getD .origin

/-- The frame of a node on the sheet, when the nodes are at the given places in
their clusters. -/
def frameWith (t : ClusterTree α) (offset : NodeId → Point α) (id : NodeId) : Placement α :=
  match t.parent? id with
  | none => .origin
  | some parent =>
      if parent < id then
        (t.frameWith offset parent).compose ⟨(offset id).x, (offset id).y, t.rotation id⟩
      else .origin

end ClusterTree

end Schematic
