import Mathlib.Data.List.Nodup
import Mathlib.Order.Basic
import Schematic.Layout.Cluster
import Schematic.Proofs.Lists

/-!
# The tree of clusters is a tree

Every node but the sheet has a parent with a smaller number, so everything is
below the sheet.  The nodes of components are the leaves: nothing refers to them,
every component has one, and it is a member of the cluster that the component is
in, which is that of its parent or a group there.

## Main definitions

* `ClusterTree.InCluster` — the cluster that a component is in.
* `ClusterTree.NodeFits` — what the nodes of a tree stand for.
* `ClusterTree.NodesFit` — a tree for some components.

## Main statements

* `ClusterTree.mem_postOrder_iff`, `ClusterTree.nodup_postOrder` — what is below a node.
* `ClusterTree.collected_iff` — what is collected member by member.
* `ClusterTree.nodesFit_ofMembers` — the tree that is built is one.
-/

namespace Schematic

namespace ClusterTree

variable {α : Type}

/-! ### Below a node -/

section Below

variable {t : ClusterTree α} {id p : NodeId} {node : ClusterNode α}

/-- Below a node are the node itself and what is below its members. -/
theorem mem_postOrder_iff {p u : NodeId} :
    u ∈ t.postOrder p ↔ u = p ∨ ∃ c ∈ t.children p, u ∈ t.postOrder c := by
  rw [postOrder]
  simp [or_comm]

theorem mem_postOrder_self (p : NodeId) : p ∈ t.postOrder p := mem_postOrder_iff.2 (.inl rfl)

/-- What is below something below a node is below the node. -/
theorem mem_postOrder_trans {p u v : NodeId} (hu : u ∈ t.postOrder p) (hv : v ∈ t.postOrder u) :
    v ∈ t.postOrder p := by
  induction p using postOrder.induct t with
  | case1 p ih =>
    rcases mem_postOrder_iff.1 hu with rfl | ⟨d, hd, hu⟩
    · exact hv
    · exact mem_postOrder_iff.2 (.inr ⟨d, hd, ih ⟨d, hd⟩ hu⟩)

theorem mem_postOrder_of_mem {p u c : NodeId} (hu : u ∈ t.postOrder p) (hc : c ∈ t.children u) :
    c ∈ t.postOrder p :=
  mem_postOrder_trans hu (mem_postOrder_iff.2 (.inr ⟨c, hc, mem_postOrder_self c⟩))

theorem postOrder_eq (p : NodeId) :
    t.postOrder p = (t.children p).flatMap t.postOrder ++ [p] := by
  have hmembers : ((t.children p).attach.flatMap fun c => t.postOrder c.1) =
      (t.children p).flatMap t.postOrder := by
    rw [List.flatMap_def, List.flatMap_def, List.attach_map_val]
  rw [postOrder, hmembers]

/-- What is below a node has larger numbers. -/
theorem le_of_mem_postOrder {p u : NodeId} (hu : u ∈ t.postOrder p) : p ≤ u := by
  induction p using postOrder.induct t with
  | case1 p ih =>
    rcases mem_postOrder_iff.1 hu with rfl | ⟨c, hc, hu⟩
    · exact Nat.le_refl _
    · exact Nat.le_of_lt (Nat.lt_of_lt_of_le (mem_children_iff.1 hc).1 (ih ⟨c, hc⟩ hu))

/-- What is below a node is the node itself or a member of something below it. -/
theorem eq_or_exists_children {p u : NodeId} (hu : u ∈ t.postOrder p) :
    u = p ∨ ∃ v ∈ t.postOrder p, u ∈ t.children v := by
  induction p using postOrder.induct t with
  | case1 p ih =>
    rcases mem_postOrder_iff.1 hu with rfl | ⟨c, hc, hu⟩
    · exact .inl rfl
    · rcases ih ⟨c, hc⟩ hu with rfl | ⟨v, hv, huv⟩
      · exact .inr ⟨p, mem_postOrder_self p, hc⟩
      · exact .inr ⟨v, mem_postOrder_iff.2 (.inr ⟨c, hc, hv⟩), huv⟩

/-- The cluster of a node is one. -/
theorem eq_of_mem_children {p q u : NodeId} (hp : u ∈ t.children p) (hq : u ∈ t.children q) :
    p = q :=
  Option.some.inj ((mem_children_iff.1 hp).2.2.symm.trans (mem_children_iff.1 hq).2.2)

/-- A member of a cluster is not below another one. -/
theorem eq_of_mem_children_of_mem_postOrder {p c d : NodeId} (hc : c ∈ t.children p)
    (hd : d ∈ t.children p) (hcd : c ∈ t.postOrder d) : c = d := by
  rcases eq_or_exists_children hcd with heq | ⟨v, hv, hcv⟩
  · exact heq
  · obtain rfl := eq_of_mem_children hc hcv
    exact absurd (mem_children_iff.1 hd).1 (Nat.not_lt.2 (le_of_mem_postOrder hv))

/-- Nothing is below two members of a cluster. -/
theorem eq_of_mem_postOrder {p c d u : NodeId} (hc : c ∈ t.children p) (hd : d ∈ t.children p)
    (huc : u ∈ t.postOrder c) (hud : u ∈ t.postOrder d) : c = d := by
  induction u using Nat.strongRecOn with
  | _ u ih =>
    rcases eq_or_exists_children huc with rfl | ⟨v, hv, huv⟩
    · exact eq_of_mem_children_of_mem_postOrder hc hd hud
    · rcases eq_or_exists_children hud with rfl | ⟨w, hw, huw⟩
      · exact (eq_of_mem_children_of_mem_postOrder hd hc huc).symm
      · obtain rfl := eq_of_mem_children huv huw
        exact ih v (mem_children_iff.1 huv).1 hv hw

theorem nodup_children (p : NodeId) : (t.children p).Nodup := (List.nodup_range' ..).filter _

/-- No node is listed twice below another one. -/
theorem nodup_postOrder (p : NodeId) : (t.postOrder p).Nodup := by
  induction p using postOrder.induct t with
  | case1 p ih =>
    have hbelow : ((t.children p).flatMap t.postOrder).Nodup := by
      refine List.nodup_flatMap.2 ⟨fun c hc => ih ⟨c, hc⟩, ?_⟩
      refine (nodup_children p).imp_of_mem fun {c d} hc hd hne u huc hud => hne ?_
      exact eq_of_mem_postOrder hc hd huc hud
    rw [postOrder_eq]
    refine List.concat_eq_append ▸ hbelow.concat fun hp => ?_
    obtain ⟨c, hc, hpc⟩ := List.mem_flatMap.1 hp
    exact absurd (mem_children_iff.1 hc).1 (Nat.not_lt.2 (le_of_mem_postOrder hpc))

/-- What every node collects from its members and adds itself comes from the nodes below
it. -/
theorem collected_iff (found own : NodeId → Prop)
    (h : ∀ p, found p ↔ (∃ c ∈ t.children p, found c) ∨ own p) (p : NodeId) :
    found p ↔ ∃ u ∈ t.postOrder p, own u := by
  induction p using postOrder.induct t with
  | case1 p ih =>
    rw [h]
    constructor
    · rintro (⟨c, hc, hfound⟩ | hown)
      · obtain ⟨u, hu, hown⟩ := (ih ⟨c, hc⟩).1 hfound
        exact ⟨u, mem_postOrder_iff.2 (.inr ⟨c, hc, hu⟩), hown⟩
      · exact ⟨p, mem_postOrder_self p, hown⟩
    · rintro ⟨u, hu, hown⟩
      rcases mem_postOrder_iff.1 hu with rfl | ⟨c, hc, hu⟩
      · exact .inr hown
      · exact .inl ⟨c, hc, (ih ⟨c, hc⟩).2 ⟨u, hu, hown⟩⟩

theorem kind_of_node (h : t.nodes[id]? = some node) : t.kind id = node.kind := by
  rw [kind, h]
  rfl

theorem parent?_of_node (h : t.nodes[id]? = some node) : t.parent? id = node.parent := by
  rw [parent?, h]
  rfl

theorem isFixed_of_node (h : t.nodes[id]? = some node) (hgroup : node.kind.isGroup = false) :
    t.isFixed id = node.fixed := by
  simp only [isFixed, kind_of_node h, hgroup, Bool.false_eq_true, if_false, h, Option.any_some]

/-- A group is fixed when one of its members is. -/
theorem isFixed_of_member {g : NodeId} (hgroup : (t.kind g).isGroup = true)
    (hid : id ∈ t.children g) (h : t.nodes[id]? = some node) (hfixed : node.fixed = true) :
    t.isFixed g = true := by
  rw [isFixed, if_pos hgroup]
  refine List.any_eq_true.2 ⟨id, hid, ?_⟩
  rw [h]
  exact hfixed

theorem exists_node (h : id < t.size) : ∃ node, t.nodes[id]? = some node :=
  ⟨_, Array.getElem?_eq_getElem h⟩

theorem exists_node_of_part {i : ComponentId} (h : t.kind id = .part i) :
    ∃ node, t.nodes[id]? = some node ∧ node.kind.part? = some i := by
  cases hnode : t.nodes[id]? with
  | none =>
    rw [kind, hnode] at h
    cases h
  | some node =>
    rw [kind_of_node hnode] at h
    exact ⟨node, rfl, by rw [h]; rfl⟩

theorem lt_size_of_parent? (h : t.parent? id = some p) : id < t.size := by
  obtain ⟨node, hnode, -⟩ := Option.bind_eq_some_iff.1 h
  exact (Array.getElem?_eq_some_iff.1 hnode).1

end Below

/-! ### What the nodes stand for -/

section Sound

variable [Scalar α] {n : Netlist α}

/-- The cluster that a component is in: that of its parent, or a group there. -/
inductive InCluster (n : Netlist α) (nodes : Array (ClusterNode α)) (c : Component α) :
    NodeId → Prop
  /-- A component without a tag is in the cluster of its parent. -/
  | frame (untagged : c.group = none) : InCluster n nodes c (frameNode n.composables.size c.parent)
  /-- A component with a tag is in a group there. -/
  | group {tag : String} {g : NodeId} (tagged : c.group = some tag)
      (node : nodes[g]? = some
        (.placed (.group tag) (some (frameNode n.composables.size c.parent)) none false)) :
      InCluster n nodes c g

/-- What a node stands for, in a tree for some components. -/
inductive NodeFits (n : Netlist α) (members : List (Component α)) (nodes : Array (ClusterNode α)) :
    NodeId → ClusterNode α → Prop
  /-- The first node is the sheet. -/
  | sheet : NodeFits n members nodes 0 (.placed .sheet none none false)
  /-- The next ones are the composables. -/
  | composable {i : ComposableId} {c : Composable α} (known : n.composables[i]? = some c) :
      NodeFits n members nodes (i + 1) (composableNode i c)
  /-- A group is a member of the sheet or of a composable. -/
  | group {id : NodeId} (tag : String) {parent : NodeId} (outside : n.composables.size < id)
      (inside : parent ≤ n.composables.size) :
      NodeFits n members nodes id (.placed (.group tag) (some parent) none false)
  /-- A component is a member of its cluster. -/
  | part {id cluster : NodeId} {c : Component α} (outside : n.composables.size < id)
      (mem : c ∈ members) (lt : cluster < id) (inCluster : InCluster n nodes c cluster) :
      NodeFits n members nodes id (partNode cluster c)

/-- The nodes are those of a tree for some components. -/
structure NodesFit (n : Netlist α) (members : List (Component α))
    (nodes : Array (ClusterNode α)) : Prop where
  /-- The sheet and the composables have their nodes. -/
  size : n.composables.size < nodes.size
  /-- Every node stands for something. -/
  fits : ∀ id node, nodes[id]? = some node → NodeFits n members nodes id node
  /-- Every component has one node. -/
  parts : nodes.toList.filterMap (·.kind.part?) = members.map (·.id)

theorem frameNode_le (count : Nat) (parent : Option ComposableId) :
    frameNode count parent ≤ count := by
  unfold frameNode
  split
  · split
    · next h => exact h
    · exact Nat.zero_le _
  · exact Nat.zero_le _

theorem kind_placed (kind : ClusterKind) (parent : Option NodeId) (position : Option (Placement α))
    (fixed : Bool) : (ClusterNode.placed kind parent position fixed).kind = kind := by
  cases position <;> rfl

theorem parent_placed (kind : ClusterKind) (parent : Option NodeId)
    (position : Option (Placement α)) (fixed : Bool) :
    (ClusterNode.placed kind parent position fixed).parent = parent := by
  cases position <;> rfl

/-- Only what has a position is fixed. -/
theorem position_of_fixed {kind : ClusterKind} {parent : Option NodeId}
    {position : Option (Placement α)} {fixed : Bool}
    (h : (ClusterNode.placed kind parent position fixed).fixed = true) :
    fixed = true ∧ ∃ p, position = some p := by
  cases position with
  | none => cases h
  | some p => exact ⟨h, p, rfl⟩

theorem getElem?_push_of_some {β : Type} {xs : Array β} {i : Nat} {x y : β} (h : xs[i]? = some x) :
    (xs.push y)[i]? = some x := by
  obtain ⟨hi, rfl⟩ := Array.getElem?_eq_some_iff.1 h
  rw [Array.getElem?_push_lt hi]

theorem InCluster.push {nodes : Array (ClusterNode α)} {c : Component α} {cluster : NodeId}
    (h : InCluster n nodes c cluster) (node : ClusterNode α) :
    InCluster n (nodes.push node) c cluster := by
  cases h with
  | frame untagged => exact .frame untagged
  | group tagged hnode => exact .group tagged (getElem?_push_of_some hnode)

theorem NodeFits.push {members more : List (Component α)} {nodes : Array (ClusterNode α)}
    {id : NodeId} {x : ClusterNode α} (h : NodeFits n members nodes id x) (node : ClusterNode α) :
    NodeFits n (members ++ more) (nodes.push node) id x := by
  cases h with
  | sheet => exact .sheet
  | composable known => exact .composable known
  | group tag outside inside => exact .group tag outside inside
  | part outside mem lt inCluster =>
    exact .part outside (List.mem_append_left _ mem) lt (inCluster.push node)

theorem NodesFit.clusters (n : Netlist α) :
    NodesFit n [] (#[.placed .sheet none none false] ++ n.composables.mapIdx composableNode) where
  size := by
    rw [Array.size_append, Array.size_mapIdx]
    exact Nat.lt_add_of_pos_left Nat.one_pos
  fits id node h := by
    rw [Array.getElem?_append] at h
    cases id with
    | zero =>
      cases h
      exact .sheet
    | succ i =>
      rw [if_neg (by simp), Array.getElem?_mapIdx] at h
      obtain ⟨c, hc, rfl⟩ := Option.map_eq_some_iff.1 h
      exact .composable hc
  parts := by
    rw [List.map_nil, List.filterMap_eq_nil_iff]
    intro node hnode
    simp only [Array.toList_append, Array.toList_mapIdx, List.mem_append, List.mem_singleton,
      List.mem_mapIdx] at hnode
    rcases hnode with rfl | ⟨i, hi, rfl⟩
    · rfl
    · rw [composableNode, kind_placed]
      rfl

theorem NodesFit.push {members more : List (Component α)} {nodes : Array (ClusterNode α)}
    (h : NodesFit n members nodes) {node : ClusterNode α}
    (hfits : NodeFits n (members ++ more) (nodes.push node) nodes.size node)
    (hpart : node.kind.part?.toList = more.map (·.id)) :
    NodesFit n (members ++ more) (nodes.push node) where
  size := by
    rw [Array.size_push]
    exact Nat.lt_succ_of_lt h.size
  fits id x hx := by
    rw [Array.getElem?_push] at hx
    split at hx
    · next heq =>
      cases hx
      exact heq ▸ hfits
    · exact (h.fits id x hx).push node
  parts := by
    rw [Array.toList_push, List.filterMap_append, h.parts, List.map_append, ← hpart]
    cases hkind : node.kind.part? <;> simp [hkind]

theorem groupNode?_eq_some {members : List (Component α)} {nodes : Array (ClusterNode α)}
    (h : NodesFit n members nodes) {parent g : NodeId} {tag : String}
    (hg : groupNode? nodes parent tag = some g) :
    nodes[g]? = some (.placed (.group tag) (some parent) none false) := by
  obtain ⟨hlt, hnode, -⟩ := Array.findIdx?_eq_some_iff_getElem.1 hg
  simp only [Bool.and_eq_true, beq_iff_eq] at hnode
  have hget : nodes[g]? = some nodes[g] := Array.getElem?_eq_getElem hlt
  rw [hget]
  -- of all nodes only groups have the kind of a group
  generalize nodes[g] = node at hnode hget
  cases h.fits g node hget with
  | sheet => exact absurd hnode.1 (by simp [kind_placed])
  | composable known => exact absurd hnode.1 (by simp [composableNode, kind_placed])
  | group tag' outside inside =>
    rw [kind_placed, parent_placed] at hnode
    obtain ⟨hkind, hparent⟩ := hnode
    cases hkind
    cases hparent
    rfl
  | part outside mem lt inCluster => exact absurd hnode.1 (by simp [partNode, kind_placed])

theorem NodesFit.pushPart {members : List (Component α)} {nodes : Array (ClusterNode α)}
    (h : NodesFit n members nodes) {c : Component α} {cluster : NodeId}
    (hlt : cluster < nodes.size) (hin : InCluster n nodes c cluster) :
    NodesFit n (members ++ [c]) (nodes.push (partNode cluster c)) := by
  refine h.push (.part h.size ?_ hlt (hin.push _)) ?_
  · exact List.mem_append_right _ (List.mem_singleton_self c)
  · rw [partNode, kind_placed]
    rfl

theorem NodesFit.addPart {members : List (Component α)} {nodes : Array (ClusterNode α)}
    (h : NodesFit n members nodes) (c : Component α) :
    NodesFit n (members ++ [c]) (addPart n.composables.size nodes c) := by
  have hframe := frameNode_le n.composables.size c.parent
  rw [ClusterTree.addPart]
  cases htag : c.group with
  | none => exact h.pushPart (Nat.lt_of_le_of_lt hframe h.size) (.frame htag)
  | some tag =>
    cases hgroup : groupNode? nodes (frameNode n.composables.size c.parent) tag with
    | some g =>
      have hnode := groupNode?_eq_some h hgroup
      simp only [hgroup]
      exact h.pushPart (Array.getElem?_eq_some_iff.1 hnode).1 (.group htag hnode)
    | none =>
      simp only [hgroup]
      have hpushed : NodesFit n (members ++ []) (nodes.push (.placed (.group tag)
          (some (frameNode n.composables.size c.parent)) none false)) := by
        refine h.push (.group tag h.size hframe) ?_
        rw [kind_placed]
        rfl
      rw [List.append_nil] at hpushed
      refine hpushed.pushPart ?_ (.group htag ?_)
      · rw [Array.size_push]
        exact Nat.lt_succ_self _
      · exact Array.getElem?_push_size

theorem NodesFit.foldl_addPart {members : List (Component α)} {nodes : Array (ClusterNode α)}
    (h : NodesFit n members nodes) (more : List (Component α)) :
    NodesFit n (members ++ more) (more.foldl (ClusterTree.addPart n.composables.size) nodes) := by
  induction more generalizing members nodes with
  | nil => simpa using h
  | cons c more ih => simpa using ih (h.addPart c)

/-- The nodes of the tree that is built stand for the sheet, the composables, and the
components with their groups. -/
theorem nodesFit_ofMembers (n : Netlist α) (members : List ComponentId) :
    NodesFit n (members.filterMap (n.components[·]?)) (ofMembers n members).nodes :=
  (NodesFit.clusters n).foldl_addPart (members.filterMap (n.components[·]?))

/-! ### The shape of the tree -/

section Shape

variable {t : ClusterTree α} {members : List (Component α)} {id p : NodeId} {node : ClusterNode α}

/-- The sheet has no parent, every other node has one. -/
theorem NodesFit.exists_parent (h : NodesFit n members t.nodes) (hid : id < t.size)
    (hne : id ≠ 0) : ∃ p, t.parent? id = some p := by
  obtain ⟨node, hnode⟩ := exists_node hid
  rw [parent?_of_node hnode]
  cases h.fits id node hnode with
  | sheet => exact absurd rfl hne
  | composable known => exact ⟨_, parent_placed ..⟩
  | group tag outside inside => exact ⟨_, parent_placed ..⟩
  | part outside mem lt inCluster => exact ⟨_, parent_placed ..⟩

theorem NodesFit.parent?_zero (h : NodesFit n members t.nodes) : t.parent? 0 = none := by
  obtain ⟨node, hnode⟩ := exists_node (t := t) (Nat.zero_lt_of_lt h.size)
  rw [parent?_of_node hnode]
  cases h.fits 0 node hnode with
  | sheet => exact parent_placed ..
  | group tag outside inside => exact absurd outside (Nat.not_lt_zero _)
  | part outside mem lt inCluster => exact absurd outside (Nat.not_lt_zero _)

/-- A parent has a smaller number. -/
theorem NodesFit.parent_lt (h : NodesFit n members t.nodes) (hp : t.parent? id = some p) :
    p < id := by
  obtain ⟨node, hnode⟩ := exists_node (lt_size_of_parent? hp)
  rw [parent?_of_node hnode] at hp
  cases h.fits id node hnode with
  | sheet => simp [parent_placed] at hp
  | @composable i c known =>
    rw [composableNode, parent_placed, Option.some.injEq] at hp
    exact hp ▸ Nat.lt_succ_of_le (frameNode_le i c.parent)
  | group tag outside inside =>
    rw [parent_placed, Option.some.injEq] at hp
    exact hp ▸ Nat.lt_of_le_of_lt inside outside
  | part outside mem lt inCluster =>
    rw [partNode, parent_placed, Option.some.injEq] at hp
    exact hp ▸ lt

/-- The first nodes are the sheet and the composables, no component. -/
theorem NodesFit.part?_of_le (h : NodesFit n members t.nodes) (hid : id ≤ n.composables.size) :
    (t.kind id).part? = none := by
  obtain ⟨node, hnode⟩ := exists_node (t := t) (Nat.lt_of_le_of_lt hid h.size)
  rw [kind_of_node hnode]
  cases h.fits id node hnode with
  | sheet => rfl
  | composable known => rw [composableNode, kind_placed]; rfl
  | group tag outside inside => rw [kind_placed]; rfl
  | part outside mem lt inCluster => exact absurd outside (Nat.not_lt.2 hid)

/-- No node is a member of a component. -/
theorem NodesFit.part?_parent (h : NodesFit n members t.nodes) (hp : t.parent? id = some p) :
    (t.kind p).part? = none := by
  obtain ⟨node, hnode⟩ := exists_node (lt_size_of_parent? hp)
  rw [parent?_of_node hnode] at hp
  cases h.fits id node hnode with
  | sheet => simp [parent_placed] at hp
  | @composable i c known =>
    rw [composableNode, parent_placed, Option.some.injEq] at hp
    have hi : i < n.composables.size := (Array.getElem?_eq_some_iff.1 known).1
    exact h.part?_of_le (hp ▸ Nat.le_trans (frameNode_le i c.parent) (Nat.le_of_lt hi))
  | group tag outside inside =>
    rw [parent_placed, Option.some.injEq] at hp
    exact h.part?_of_le (hp ▸ inside)
  | part outside mem lt inCluster =>
    rw [partNode, parent_placed, Option.some.injEq] at hp
    subst hp
    cases inCluster with
    | frame untagged => exact h.part?_of_le (frameNode_le _ _)
    | group tagged hgroup =>
      rw [kind_of_node hgroup, kind_placed]
      rfl

theorem NodesFit.children_of_part (h : NodesFit n members t.nodes) {i : ComponentId}
    (hi : t.kind p = .part i) : t.children p = [] := by
  refine List.eq_nil_iff_forall_not_mem.2 fun c hc => ?_
  have hpart := h.part?_parent (mem_children_iff.1 hc).2.2
  rw [hi] at hpart
  cases hpart

theorem NodesFit.mem_children (h : NodesFit n members t.nodes) (hp : t.parent? id = some p) :
    id ∈ t.children p :=
  mem_children_iff.2 ⟨h.parent_lt hp, lt_size_of_parent? hp, hp⟩

/-- Everything is below the sheet. -/
theorem NodesFit.mem_postOrder (h : NodesFit n members t.nodes) (hid : id < t.size) :
    id ∈ t.postOrder 0 := by
  induction id using Nat.strongRecOn with
  | _ id ih =>
    by_cases hzero : id = 0
    · rw [hzero]
      exact mem_postOrder_self 0
    · obtain ⟨p, hp⟩ := h.exists_parent hid hzero
      have hlt := h.parent_lt hp
      exact mem_postOrder_of_mem (ih p hlt (Nat.lt_trans hlt hid)) (h.mem_children hp)

/-! ### The nodes of composables and components -/

theorem NodesFit.composable_node (h : NodesFit n members t.nodes) {i : ComposableId}
    {c : Composable α} (hc : n.composables[i]? = some c) :
    t.nodes[i + 1]? = some (composableNode i c) := by
  have hi : i < n.composables.size := (Array.getElem?_eq_some_iff.1 hc).1
  have hfits : ∀ id node, NodeFits n members t.nodes id node → id = i + 1 →
      node = composableNode i c := by
    intro id node hnode hid
    cases hnode with
    | sheet => cases hid
    | composable known =>
      cases hid
      rw [hc] at known
      cases known
      rfl
    | group tag outside inside => exact absurd outside (by rw [hid]; exact Nat.not_lt.2 hi)
    | part outside mem lt inCluster => exact absurd outside (by rw [hid]; exact Nat.not_lt.2 hi)
  obtain ⟨node, hnode⟩ := exists_node (t := t) (Nat.lt_of_le_of_lt hi h.size)
  rw [hnode, hfits _ node (h.fits _ node hnode) rfl]

theorem NodesFit.kind_composable (h : NodesFit n members t.nodes) {i : ComposableId}
    (hi : i < n.composables.size) : t.kind (i + 1) = .composable i := by
  rw [kind_of_node (h.composable_node (Array.getElem?_eq_getElem hi)), composableNode, kind_placed]

theorem NodesFit.of_kind_composable (h : NodesFit n members t.nodes) {i : ComposableId}
    (hi : t.kind id = .composable i) : id = i + 1 ∧ ∃ c, n.composables[i]? = some c := by
  cases hnode : t.nodes[id]? with
  | none =>
    rw [kind, hnode] at hi
    cases hi
  | some node =>
    rw [kind_of_node hnode] at hi
    cases h.fits id node hnode with
    | sheet => cases hi
    | @composable j c known =>
      rw [composableNode, kind_placed] at hi
      cases hi
      exact ⟨rfl, c, known⟩
    | group tag outside inside =>
      rw [kind_placed] at hi
      cases hi
    | part outside mem lt inCluster =>
      rw [partNode, kind_placed] at hi
      cases hi

theorem NodesFit.of_kind_part (h : NodesFit n members t.nodes) {i : ComponentId}
    (hi : t.kind id = .part i) : ∃ c cluster, c ∈ members ∧ c.id = i ∧
      t.nodes[id]? = some (partNode cluster c) ∧ InCluster n t.nodes c cluster := by
  obtain ⟨node, hnode, hpart⟩ := exists_node_of_part hi
  cases h.fits id node hnode with
  | sheet => cases hpart
  | composable known =>
    rw [composableNode, kind_placed] at hpart
    cases hpart
  | group tag outside inside =>
    rw [kind_placed] at hpart
    cases hpart
  | @part _ cluster c outside mem lt inCluster =>
    rw [partNode, kind_placed] at hpart
    exact ⟨c, cluster, mem, Option.some.inj hpart, hnode, inCluster⟩

/-- A component has one node at most. -/
theorem NodesFit.part_unique (h : NodesFit n members t.nodes)
    (hmembers : (members.map (·.id)).Nodup) {u v : NodeId} {i : ComponentId}
    (hu : t.kind u = .part i) (hv : t.kind v = .part i) : u = v := by
  obtain ⟨x, hx, hxi⟩ := exists_node_of_part hu
  obtain ⟨y, hy, hyi⟩ := exists_node_of_part hv
  rw [← Array.getElem?_toList] at hx hy
  exact eq_of_nodup_filterMap (h.parts ▸ hmembers) hx hy hxi hyi

theorem NodesFit.exists_part (h : NodesFit n members t.nodes) {c : Component α}
    (hc : c ∈ members) : ∃ u, t.kind u = .part c.id := by
  have hid : c.id ∈ t.nodes.toList.filterMap (·.kind.part?) := by
    rw [h.parts]
    exact List.mem_map_of_mem hc
  obtain ⟨node, hnode, hpart⟩ := List.mem_filterMap.1 hid
  obtain ⟨u, hu⟩ := Array.mem_iff_getElem?.1 (Array.mem_toList_iff.1 hnode)
  refine ⟨u, ?_⟩
  rw [kind_of_node hu]
  cases hkind : node.kind with
  | part j =>
    rw [hkind] at hpart
    exact congrArg ClusterKind.part (Option.some.inj hpart)
  | sheet => rw [hkind] at hpart; cases hpart
  | composable j => rw [hkind] at hpart; cases hpart
  | group tag => rw [hkind] at hpart; cases hpart

end Shape

end Sound

end ClusterTree

end Schematic
