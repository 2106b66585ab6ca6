import Schematic.Proofs.Geometry.Turns
import Schematic.Proofs.Layout.Arrangement
import Schematic.Proofs.Layout.Authored

/-!
# Positions from an arrangement

The outcome of an arrangement is written into the netlist as placements in the
frames of the parents: first those of the composables, outer ones first, and then
those of the components.  Read back on the sheet, they are where the arrangement
has put the nodes; only what the author did not place is moved to the grid.

## Main definitions

* `Netlist.Charted` — a circuit with the tree of some of its components.
* `Netlist.Prepared` — such a circuit, with a tree that can be arranged.
* `Netlist.sheetPlace` — where the component of a node is put.
* `Netlist.FramesSet`, `Netlist.PartsPut` — how far the outcome is written.
* `Netlist.PartsSet` — components close to their nodes.

## Main statements

* `Netlist.Charted.framesSet` — composables are where their nodes are.
* `Netlist.Charted.partsPut` — so are components, on the grid unless the author
  has placed them.
* `Netlist.PartsPut.partsSet` — they are close to their nodes.
-/

namespace Schematic

open ExactScalar
open scoped Scalar

variable {α : Type} [Scalar α] [ExactScalar α]

namespace Netlist

/-- A circuit with the tree of some of its components. -/
structure Charted (n : Netlist α) (members : List (Component α)) (t : ClusterTree α) : Prop where
  /-- The author has placed some things. -/
  authored : n.Authored
  /-- The tree is one for the components. -/
  nodes : ClusterTree.NodesFit n members t.nodes
  /-- Everything is turned by whole quarter turns. -/
  square : ∀ id, IsQuarter (t.rotation id)
  /-- The components of the tree are some of the circuit's. -/
  known : ∀ c ∈ members, n.components[c.id]? = some c
  /-- No component is in the tree twice. -/
  unique : (members.map (·.id)).Nodup

/-- A circuit with the tree of some of its components, ready to be placed. -/
structure Prepared (n : Netlist α) (members : List (Component α)) (t : ClusterTree α)
    (ctx : LayoutContext α) : Prop where
  /-- The author has placed some things. -/
  authored : n.Authored
  /-- The tree can be arranged. -/
  arrangeable : ClusterTree.Arrangeable n members t ctx
  /-- The components of the tree are some of the circuit's. -/
  known : ∀ c ∈ members, n.components[c.id]? = some c
  /-- No component is in the tree twice. -/
  unique : (members.map (·.id)).Nodup

open ClusterTree

variable {n m : Netlist α} {members : List (Component α)} {t : ClusterTree α}
  {ctx : LayoutContext α}

theorem Prepared.charted (h : Prepared n members t ctx) : n.Charted members t :=
  ⟨h.authored, h.arrangeable.nodes, h.arrangeable.square, h.known, h.unique⟩

/-! ### Frames of nodes -/

namespace Charted

variable (h : n.Charted members t)
include h

theorem square_frameAfter (a : Arrangement α) (u : NodeId) : (frameAfter t a u).Square :=
  h.nodes.square_frameAfter h.square a u

/-- A node is turned by less than a whole turn on the sheet. -/
theorem normal_frameAfter (a : Arrangement α) (u : NodeId) : (frameAfter t a u).Normal := by
  cases hp : t.parent? u with
  | none =>
    rw [frameAfter, frameWith, hp]
    exact Placement.normal_origin
  | some p =>
    rw [frameAfter_of_parent h.nodes a hp]
    exact Placement.normal_compose (h.square_frameAfter a p) (h.square u)

/-- A node of the author's that was not moved lies in its cluster where the author has put
it. -/
theorem frameAfter_of_fixed {k q : NodeId} {kind : ClusterKind} {p : Placement α}
    (hnode : t.nodes[k]? = some (.placed kind (some q) (some p) true))
    (hkind : kind.isGroup = false) (hmoved : k ∉ (t.arrange ctx 0).moved) :
    frameAfter t (t.arrange ctx 0) k = (frameAfter t (t.arrange ctx 0) q).compose p := by
  have hparent : t.parent? k = some q := parent?_of_node hnode
  have hfixed : t.isFixed k = true := isFixed_of_node hnode hkind
  have hoffset := h.nodes.offsetAfter_of_not_moved hparent hfixed hmoved
  rw [frameAfter_of_parent h.nodes _ hparent, hoffset, ClusterTree.offset, ClusterTree.rotation,
    hnode]
  rfl

end Charted

/-! ### Composables -/

/-- The frames of the composables with a node before some number are those of the nodes;
nothing else has been changed. -/
structure FramesSet (n : Netlist α) (t : ClusterTree α) (a : Arrangement α) (k : Nat)
    (m : Netlist α) : Prop where
  /-- The components are the same. -/
  components : m.components = n.components
  /-- There are as many composables. -/
  size : m.composables.size = n.composables.size
  /-- Parents are the same. -/
  outer : ∀ i, m.outer? i = n.outer? i
  /-- Composables further on are the same. -/
  later : ∀ i : Nat, k ≤ i + 1 → m.composables[i]? = n.composables[i]?
  /-- Everything is turned by quarter turns. -/
  square : ∀ i, (m.composablePlacement i).Square
  /-- What the author did not place is turned by less than a whole turn. -/
  normal : ∀ i : Nat, i < n.composables.size → i + 1 < k → t.isFixed (i + 1) = false →
    (m.composablePlacement i).Normal
  /-- The frames are those of the nodes. -/
  frame : ∀ i : Nat, i < n.composables.size → i + 1 < k →
    m.composableFrame i = frameAfter t a (i + 1)

theorem FramesSet.nested {a : Arrangement α} {k : Nat} (h : FramesSet n t a k m)
    (hn : n.Nested) : m.Nested := fun i p hp => hn i p (h.outer i ▸ hp)

/-- The frame around a parent before some number is that of the parent's node. -/
theorem FramesSet.frame_outer {a : Arrangement α} {k count : Nat} (h : FramesSet n t a k m)
    (hnodes : NodesFit n members t.nodes) {parent : Option ComposableId} :
    (∀ p : Nat, parent = some p → p < count ∧ p < n.composables.size ∧ p + 1 < k) →
    (match parent with
      | some p => m.composableFrame p
      | none => .origin) = frameAfter t a (frameNode count parent) := by
  intro hparent
  cases parent with
  | none =>
    rw [frameNode, frameAfter_zero hnodes]
  | some p =>
    obtain ⟨hcount, hsize, hbefore⟩ := hparent p rfl
    rw [frameNode, if_pos hcount]
    exact h.frame p hsize hbefore

/-- One more composable gets a placement that leads from the frame of its parent to that of
its node. -/
theorem FramesSet.succ {a : Arrangement α} {i : Nat} {m' : Netlist α}
    (h : FramesSet n t a (i + 1) m) (hn : n.Nested) (hi : i < n.composables.size)
    (hcomponents : m'.components = m.components) (hsize : m'.composables.size = m.composables.size)
    (houter : ∀ j, m'.outer? j = m.outer? j)
    (hothers : ∀ j, j ≠ i → m'.composables[j]? = m.composables[j]?)
    (hsquare : (m'.composablePlacement i).Square)
    (hnormal : t.isFixed (i + 1) = false → (m'.composablePlacement i).Normal)
    (hframe : (m.outerFrame i).compose (m'.composablePlacement i) = frameAfter t a (i + 1)) :
    FramesSet n t a (i + 2) m' := by
  have hplacement : ∀ j, j ≠ i → m'.composablePlacement j = m.composablePlacement j := by
    intro j hj
    rw [composablePlacement, composablePlacement, hothers j hj]
  have hm := h.nested hn
  have hm' : m'.Nested := fun j p hp => hm j p (houter j ▸ hp)
  have hbefore : ∀ j : Nat, j < i → m'.composableFrame j = m.composableFrame j := by
    intro j hj
    exact composableFrame_congr hm houter fun l hl =>
      hplacement l (Nat.ne_of_lt (Nat.lt_of_le_of_lt (hl.le hm) hj))
  have houterFrame : m'.outerFrame i = m.outerFrame i := by
    rw [outerFrame_eq, outerFrame_eq, houter]
    cases hp : m.outer? i with
    | none => rfl
    | some p => exact hbefore p (hm i p hp)
  refine
    { components := hcomponents.trans h.components
      size := hsize.trans h.size
      outer := fun j => (houter j).trans (h.outer j)
      later := fun j hj => (hothers j (by omega)).trans (h.later j (by omega))
      square := fun j => ?_
      normal := fun j hj hlt hfree => ?_
      frame := fun j hj hlt => ?_ }
  · by_cases heq : j = i
    · rw [heq]
      exact hsquare
    · rw [hplacement j heq]
      exact h.square j
  · by_cases heq : j = i
    · subst heq
      exact hnormal hfree
    · rw [hplacement j heq]
      exact h.normal j hj (by omega) hfree
  · by_cases heq : j = i
    · subst heq
      rw [composableFrame_eq hm', houterFrame]
      exact hframe
    · rw [hbefore j (by omega)]
      exact h.frame j hj (by omega)

namespace Charted

variable (h : n.Charted members t)
include h

theorem framesSet_zero (a : Arrangement α) : FramesSet n t a 0 n where
  components := rfl
  size := rfl
  outer _ := rfl
  later _ _ := rfl
  square i := by
    rw [composablePlacement]
    cases hc : n.composables[i]? with
    | none => exact Placement.square_origin
    | some c =>
      cases hp : c.position with
      | none => simpa [hp] using Placement.square_origin
      | some p => simpa [hp] using h.authored.composableSquare i c hc p hp
  normal i _ hlt := absurd hlt (Nat.not_lt_zero _)
  frame i _ hlt := absurd hlt (Nat.not_lt_zero _)

/-- The frame around a composable is that of its parent's node. -/
theorem outerFrame_eq {i k : Nat} {a : Arrangement α} (hframes : FramesSet n t a k m)
    (hk : i < k) {c : Composable α} (hc : n.composables[i]? = some c) :
    m.outerFrame i = frameAfter t a (frameNode i c.parent) := by
  have hi : i < n.composables.size := (Array.getElem?_eq_some_iff.1 hc).1
  have hparent : n.outer? i = c.parent := by rw [outer?, hc, Option.bind_some]
  rw [Netlist.outerFrame_eq, hframes.outer, hparent]
  refine hframes.frame_outer h.nodes fun p hp => ?_
  have hlt : p < i := h.authored.nested i p (hparent.trans hp)
  exact ⟨hlt, hlt.trans hi, Nat.lt_of_le_of_lt hlt hk⟩

/-- A composable of the author's that was not moved is where its node is. -/
theorem framesSet_keep {i : Nat} (hframes : FramesSet n t (t.arrange ctx 0) (i + 1) m)
    {c : Composable α} (hc : n.composables[i]? = some c) (hfixed : t.isFixed (i + 1) = true)
    (hmoved : i + 1 ∉ (t.arrange ctx 0).moved) : FramesSet n t (t.arrange ctx 0) (i + 2) m := by
  have houter := h.outerFrame_eq hframes (Nat.lt_succ_self i) hc
  have hfree : t.isFixed (i + 1) = false → (m.composablePlacement i).Normal := fun hfree =>
    absurd hfixed (by rw [hfree]; decide)
  have hnode := h.nodes.composable_node hc
  rw [isFixed_of_node hnode (by rw [composableNode, kind_placed]; rfl)] at hfixed
  obtain ⟨hflag, p, hp⟩ := position_of_fixed hfixed
  have hplacement : m.composablePlacement i = p := by
    rw [composablePlacement, hframes.later i le_rfl, hc]
    simp [hp]
  rw [composableNode, hp, hflag] at hnode
  refine hframes.succ h.authored.nested (Array.getElem?_eq_some_iff.1 hc).1 rfl rfl (fun _ => rfl)
    (fun _ _ => rfl) (hframes.square i) hfree ?_
  rw [hplacement, h.frameAfter_of_fixed hnode rfl hmoved, houter]

/-- Any other composable is put where its node is. -/
theorem framesSet_set {i : Nat} {a : Arrangement α} (hframes : FramesSet n t a (i + 1) m)
    {c : Composable α} (hc : n.composables[i]? = some c) :
    FramesSet n t a (i + 2) (m.setComposablePosition i
      ((m.outerFrame i).localize (frameAfter t a (i + 1)))) := by
  have hsquare : (m.outerFrame i).Square :=
    square_outerFrame (hframes.nested h.authored.nested) hframes.square i
  have hnormal := Placement.normal_localize hsquare (h.square_frameAfter a (i + 1))
  have hnew : ∀ p, (m.setComposablePosition i p).composablePlacement i = p := by
    intro p
    rw [composablePlacement, getElem?_setComposablePosition, if_pos rfl, hframes.later i le_rfl, hc]
    rfl
  refine hframes.succ h.authored.nested (Array.getElem?_eq_some_iff.1 hc).1 rfl
    (by simp [setComposablePosition]) (fun j => ?_) (fun j hj => ?_) ?_ (fun _ => ?_) ?_
  · rw [outer?, outer?, getElem?_setComposablePosition]
    split
    · cases m.composables[j]? <;> rfl
    · rfl
  · rw [getElem?_setComposablePosition, if_neg (Ne.symm hj)]
  · rw [hnew]
    exact hnormal.square
  · rw [hnew]
    exact hnormal
  · rw [hnew]
    exact Placement.compose_localize hsquare (h.normal_frameAfter a _)

theorem framesSet_step {k : Nat} (hframes : FramesSet n t (t.arrange ctx 0) k m) :
    FramesSet n t (t.arrange ctx 0) (k + 1) (applyComposable t (t.arrange ctx 0) m k) := by
  have hnodes := h.nodes
  rw [applyComposable]
  split
  · next i hkind =>
    obtain ⟨rfl, c, hc⟩ := hnodes.of_kind_composable hkind
    split
    · next hkept =>
      simp only [Bool.and_eq_true, Bool.not_eq_true', List.contains_eq_mem,
        decide_eq_false_iff_not] at hkept
      exact h.framesSet_keep hframes hc hkept.1 hkept.2
    · exact h.framesSet_set hframes hc
  · next hkind =>
    -- the node is not that of a composable
    have hbefore : ∀ i : Nat, i < n.composables.size → i + 1 < k + 1 → i + 1 < k := by
      intro i hi hlt
      refine Nat.lt_of_le_of_ne (Nat.le_of_lt_succ hlt) fun heq => hkind i ?_
      rw [← heq]
      exact hnodes.kind_composable hi
    exact
      { hframes with
        later := fun i hi => hframes.later i (by omega)
        normal := fun i hi hlt => hframes.normal i hi (hbefore i hi hlt)
        frame := fun i hi hlt => hframes.frame i hi (hbefore i hi hlt) }

/-- Composables are where their nodes are as soon as these have come up. -/
theorem framesSet (k : Nat) : FramesSet n t (t.arrange ctx 0) k
    ((List.range k).foldl (applyComposable t (t.arrange ctx 0)) n) := by
  induction k with
  | zero => exact h.framesSet_zero _
  | succ k ih =>
    rw [List.range_succ, List.foldl_append]
    exact h.framesSet_step ih

end Charted

/-- All composables are where their nodes are. -/
theorem Prepared.framesSet (h : Prepared n members t ctx) : FramesSet n t (t.arrange ctx 0) t.size
    ((List.range t.size).foldl (applyComposable t (t.arrange ctx 0)) n) :=
  h.charted.framesSet t.size

/-! ### Components -/

omit [ExactScalar α] in
/-- Where the component of a node is put on the sheet: at its node, and on the grid unless the
author has placed it. -/
def sheetPlace (pitch : α) (t : ClusterTree α) (a : Arrangement α) (u : NodeId) : Placement α :=
  if t.isFixed u then frameAfter t a u else snapPlacement pitch (frameAfter t a u)

/-- The components with a node before some number are put where they belong; nothing but
positions has been changed. -/
structure PartsPut (n : Netlist α) (t : ClusterTree α) (a : Arrangement α) (pitch : α) (k : Nat)
    (m : Netlist α) : Prop where
  /-- The composables are the same. -/
  composables : m.composables = n.composables
  /-- The frames are the same. -/
  parentFrame : ∀ i, m.parentFrame i = n.parentFrame i
  /-- The components are the same up to their positions. -/
  unplaced : ∀ i : ComponentId, (m.components[i]?).map (·.unplaced) =
    (n.components[i]?).map (·.unplaced)
  /-- Components without a node so far are the same. -/
  untouched : ∀ i : ComponentId, (∀ u < k, t.kind u ≠ .part i) →
    m.components[i]? = n.components[i]?
  /-- The others are put where they belong, those that the author did not place turned by less
  than a whole turn. -/
  placed : ∀ u < k, ∀ i, t.kind u = .part i → ∃ p, m.components[i]?.bind (·.position) = some p ∧
    p.Square ∧ (t.isFixed u = false → p.Normal) ∧
    (n.parentFrame i).compose p = sheetPlace pitch t a u

theorem PartsPut.absolute? {a : Arrangement α} {pitch : α} {k : Nat} {n₁ : Netlist α}
    (h : PartsPut n₁ t a pitch k m) {u : NodeId} (hu : u < k) {i : ComponentId}
    (hkind : t.kind u = .part i) : m.absolute? i = some (sheetPlace pitch t a u) := by
  obtain ⟨p, hp, -, -, hplace⟩ := h.placed u hu i hkind
  rw [Netlist.absolute?, hp, h.parentFrame, Option.map_some, hplace]

/-- One more component is placed. -/
theorem PartsPut.succ {a : Arrangement α} {pitch : α} {k : Nat} {i : ComponentId}
    {n₁ m' : Netlist α} (h : PartsPut n₁ t a pitch k m)
    (hunique : ∀ u, t.kind u = .part i → u = k) (hcomposables : m'.composables = m.composables)
    (hframe : ∀ j, m'.parentFrame j = m.parentFrame j)
    (hunplaced : ∀ j : ComponentId,
      (m'.components[j]?).map (·.unplaced) = (m.components[j]?).map (·.unplaced))
    (hothers : ∀ j : ComponentId, j ≠ i → m'.components[j]? = m.components[j]?)
    (hkind : t.kind k = .part i) {p : Placement α}
    (hp : m'.components[i]?.bind (·.position) = some p) (hsquare : p.Square)
    (hnormal : t.isFixed k = false → p.Normal)
    (hplace : (n₁.parentFrame i).compose p = sheetPlace pitch t a k) :
    PartsPut n₁ t a pitch (k + 1) m' where
  composables := hcomposables.trans h.composables
  parentFrame j := (hframe j).trans (h.parentFrame j)
  unplaced j := (hunplaced j).trans (h.unplaced j)
  untouched j hj := by
    have hne : j ≠ i := fun heq => hj k (Nat.lt_succ_self k) (heq ▸ hkind)
    rw [hothers j hne, h.untouched j fun u hu => hj u (Nat.lt_succ_of_lt hu)]
  placed u hu j hpart := by
    by_cases heq : j = i
    · subst heq
      rw [hunique u hpart]
      exact ⟨p, hp, hsquare, hnormal, hplace⟩
    · have hlt : u < k := Nat.lt_of_le_of_ne (Nat.le_of_lt_succ hu) fun hk => heq <| by
        rw [hk, hkind] at hpart
        exact (ClusterKind.part.inj hpart).symm
      rw [hothers j heq]
      exact h.placed u hlt j hpart

namespace Charted

variable (h : n.Charted members t)
include h

theorem normal_sheetPlace (pitch : α) (a : Arrangement α) (u : NodeId) :
    (sheetPlace pitch t a u).Normal := by
  rw [sheetPlace]
  split
  · exact h.normal_frameAfter a u
  · exact h.normal_frameAfter a u

/-- The frame of a cluster whose members the author has placed is that of the composable. -/
theorem frameAfter_cluster {c : Component α} {k cluster : NodeId}
    (hin : InCluster n t.nodes c cluster)
    (hnode : t.nodes[k]? = some (partNode cluster c))
    (hfixed : (partNode cluster c).fixed = true) :
    frameAfter t (t.arrange ctx 0) cluster =
      frameAfter t (t.arrange ctx 0) (frameNode n.composables.size c.parent) := by
  cases hin with
  | frame untagged => rfl
  | group tagged hgnode =>
    have hparent : t.parent? cluster = some (frameNode n.composables.size c.parent) :=
      parent?_of_node hgnode
    have hgroup : (t.kind cluster).isGroup = true := by rw [kind_of_node hgnode]; rfl
    have hmember : k ∈ t.children cluster := by
      refine h.nodes.mem_children ?_
      rw [parent?_of_node hnode, partNode, parent_placed]
    have hgfixed : t.isFixed cluster = true := isFixed_of_member hgroup hmember hnode hfixed
    -- a group has no place of its own, so that it stays there however it is spread
    have horigin : offsetAfter t (t.arrange ctx 0) cluster = .origin := by
      rw [h.nodes.offsetAfter_of_fixed hparent hgfixed, ClusterTree.offset, hgnode]
      exact Point.scale_origin _
    have hrotation : t.rotation cluster = 0 := by
      rw [ClusterTree.rotation, hgnode]
      rfl
    rw [frameAfter_of_parent h.nodes _ hparent, horigin, hrotation]
    exact Placement.compose_origin (h.normal_frameAfter _ _)

/-- The frame around a component of the tree is that of its parent's node. -/
theorem parentFrame_eq {n₁ : Netlist α} {a : Arrangement α} (hframes : FramesSet n t a t.size n₁)
    {c : Component α} (hc : n.components[c.id]? = some c) :
    n₁.parentFrame c.id = frameAfter t a (frameNode n.composables.size c.parent) := by
  have hparent : n₁.parentFrame c.id = match c.parent with
      | some p => n₁.composableFrame p
      | none => .origin := by
    rw [Netlist.parentFrame, hframes.components, hc]
    rfl
  rw [hparent]
  refine hframes.frame_outer h.nodes fun p hp => ?_
  have hlt : p < n.composables.size := h.authored.wellFormed.parent_lt hc hp
  exact ⟨hlt, hlt, Nat.lt_of_le_of_lt hlt h.nodes.size⟩

theorem square_parentFrame {n₁ : Netlist α} {a : Arrangement α}
    (hframes : FramesSet n t a t.size n₁) {c : Component α} (hc : n.components[c.id]? = some c) :
    (n₁.parentFrame c.id).Square := by
  rw [h.parentFrame_eq hframes hc]
  exact h.square_frameAfter a _

section Part

variable {n₁ : Netlist α} {pitch : α} {k cluster : NodeId} {c : Component α}
  (hframes : FramesSet n t (t.arrange ctx 0) t.size n₁)
  (hparts : PartsPut n₁ t (t.arrange ctx 0) pitch k m)
  (hmem : c ∈ members) (hnode : t.nodes[k]? = some (partNode cluster c))

include hframes hparts hmem hnode

/-- The component of the next node has not been placed so far. -/
theorem component_of_part : m.components[c.id]? = some c ∧
    t.kind k = .part c.id ∧ ∀ u, t.kind u = .part c.id → u = k := by
  have hkind : t.kind k = .part c.id := by rw [kind_of_node hnode, partNode, kind_placed]
  have hunique : ∀ u, t.kind u = .part c.id → u = k := fun u hu =>
    h.nodes.part_unique h.unique hu hkind
  refine ⟨?_, hkind, hunique⟩
  rw [hparts.untouched _ fun u hu hpart => Nat.ne_of_lt hu (hunique u hpart), hframes.components,
    h.known c hmem]

/-- A component of the author's that was not moved is where its node is. -/
theorem partsPut_keep (hin : InCluster n t.nodes c cluster)
    (hfixed : t.isFixed k = true) (hkept : wasMoved t (t.arrange ctx 0) k = false) :
    PartsPut n₁ t (t.arrange ctx 0) pitch (k + 1) m := by
  obtain ⟨hmc, hkind, hunique⟩ := h.component_of_part hframes hparts hmem hnode
  have hparent := h.parentFrame_eq hframes (h.known c hmem)
  simp only [wasMoved, Bool.or_eq_false_iff, List.contains_eq_mem, decide_eq_false_iff_not] at hkept
  obtain ⟨hmoved, -⟩ := hkept
  have hfree : ∀ p : Placement α, t.isFixed k = false → p.Normal := fun p hfree =>
    absurd hfixed (by rw [hfree]; decide)
  have hsheet : sheetPlace pitch t (t.arrange ctx 0) k = frameAfter t (t.arrange ctx 0) k :=
    if_pos hfixed
  rw [isFixed_of_node hnode (by rw [partNode, kind_placed]; rfl)] at hfixed
  obtain ⟨hflag, p, hp⟩ := position_of_fixed hfixed
  have hcluster : frameAfter t (t.arrange ctx 0) cluster =
      frameAfter t (t.arrange ctx 0) (frameNode n.composables.size c.parent) :=
    h.frameAfter_cluster hin hnode hfixed
  rw [partNode, hp, hflag] at hnode
  refine hparts.succ hunique rfl (fun _ => rfl) (fun _ => rfl) (fun _ _ => rfl) hkind
    (by rw [hmc]; exact hp) (h.authored.square _ c (h.known c hmem) p hp) (hfree p) ?_
  rw [hsheet, h.frameAfter_of_fixed hnode rfl hmoved, hcluster, hparent]

/-- Any other component is put there. -/
theorem partsPut_set : PartsPut n₁ t (t.arrange ctx 0) pitch (k + 1)
    (m.setPosition c.id
      ((m.parentFrame c.id).localize (sheetPlace pitch t (t.arrange ctx 0) k))) := by
  obtain ⟨hmc, hkind, hunique⟩ := h.component_of_part hframes hparts hmem hnode
  have hframe := h.square_parentFrame hframes (h.known c hmem)
  have hplace := h.normal_sheetPlace pitch (t.arrange ctx 0) k
  rw [hparts.parentFrame]
  have hnormal := Placement.normal_localize hframe hplace.square
  refine hparts.succ hunique rfl (parentFrame_setPosition m _ _) (unplaced_setPosition m _ _)
    (fun j hj => ?_) hkind ?_ hnormal.square (fun _ => hnormal)
    (Placement.compose_localize hframe hplace)
  · rw [getElem?_setPosition, if_neg (Ne.symm hj)]
  · rw [getElem?_setPosition, if_pos rfl, hmc]
    rfl

end Part

theorem partsPut_step {n₁ : Netlist α} (hframes : FramesSet n t (t.arrange ctx 0) t.size n₁)
    {pitch : α} {k : Nat} (hparts : PartsPut n₁ t (t.arrange ctx 0) pitch k m) :
    PartsPut n₁ t (t.arrange ctx 0) pitch (k + 1) (applyPart pitch t (t.arrange ctx 0) m k) := by
  rw [applyPart]
  split
  · next i hkind =>
    obtain ⟨c, cluster, hmem, rfl, hnode, hin⟩ := h.nodes.of_kind_part hkind
    split
    · next hkept =>
      rw [Bool.and_eq_true, Bool.not_eq_true'] at hkept
      exact h.partsPut_keep hframes hparts hmem hnode hin hkept.1 hkept.2
    · exact h.partsPut_set hframes hparts hmem hnode
  · next hkind =>
    refine { hparts with
      untouched := fun j hj => hparts.untouched j fun u hu => hj u (Nat.lt_succ_of_lt hu)
      placed := fun u hu j hpart => hparts.placed u (Nat.lt_of_le_of_ne (Nat.le_of_lt_succ hu) ?_) j
        hpart }
    rintro rfl
    exact hkind j hpart

/-- All components of the tree are put where they belong. -/
theorem partsPut {n₁ : Netlist α} (hframes : FramesSet n t (t.arrange ctx 0) t.size n₁)
    (pitch : α) :
    PartsPut n₁ t (t.arrange ctx 0) pitch t.size
      ((List.range t.size).foldl (applyPart pitch t (t.arrange ctx 0)) n₁) := by
  have hall : ∀ k, PartsPut n₁ t (t.arrange ctx 0) pitch k
      ((List.range k).foldl (applyPart pitch t (t.arrange ctx 0)) n₁) := by
    intro k
    induction k with
    | zero =>
      exact ⟨rfl, fun _ => rfl, fun _ => rfl, fun _ _ => rfl,
        fun u hu => absurd hu (Nat.not_lt_zero u)⟩
    | succ k ih =>
      rw [List.range_succ, List.foldl_append]
      exact h.partsPut_step hframes ih
  exact hall t.size

end Charted

/-! ### Components close to their nodes -/

/-- The components with a node before some number are where the nodes are, up to a distance;
nothing but positions has been changed. -/
structure PartsSet (n : Netlist α) (t : ClusterTree α) (a : Arrangement α) (r : ℝ) (k : Nat)
    (m : Netlist α) : Prop where
  /-- The frames are the same. -/
  parentFrame : ∀ i, m.parentFrame i = n.parentFrame i
  /-- The components are the same up to their positions. -/
  unplaced : ∀ i : ComponentId, (m.components[i]?).map (·.unplaced) =
    (n.components[i]?).map (·.unplaced)
  /-- Components without a node so far are the same. -/
  untouched : ∀ i : ComponentId, (∀ u < k, t.kind u ≠ .part i) →
    m.components[i]? = n.components[i]?
  /-- The others are placed. -/
  placed : ∀ u < k, ∀ i, t.kind u = .part i → ∃ p, m.absolute? i = some p ∧ p.Square ∧
    ∀ z, Close r ((frameAfter t a u).move z) (p.move z)

theorem close_snapPlacement {pitch : α} (hpitch : 0 ≤ value pitch) (f : Placement α) (z : ℂ) :
    Close (value pitch / 2) (f.move z) ((snapPlacement pitch f).move z) := by
  have hmove : ∀ w : ℂ, (snapPlacement pitch f).move z - f.move z =
      (snapPlacement pitch f).point.complex - f.point.complex := fun _ => by
    simp only [Placement.move, snapPlacement]
    ring
  constructor
  · rw [← Complex.sub_re, hmove 0, Complex.sub_re]
    exact abs_snap_sub_le hpitch f.x
  · rw [← Complex.sub_im, hmove 0, Complex.sub_im]
    exact abs_snap_sub_le hpitch f.y

/-- To bring a component onto the grid moves it by half the pitch at most. -/
theorem PartsPut.partsSet {a : Arrangement α} {pitch : α} {k : Nat} {n₁ : Netlist α}
    (h : PartsPut n₁ t a pitch k m) (hn : n.Charted members t) (hpitch : 0 ≤ value pitch) :
    PartsSet n₁ t a (value pitch / 2) k m where
  parentFrame := h.parentFrame
  unplaced := h.unplaced
  untouched := h.untouched
  placed u hu i hkind := by
    refine ⟨_, h.absolute? hu hkind, (hn.normal_sheetPlace pitch a u).square, fun z => ?_⟩
    rw [sheetPlace]
    split
    · exact Close.refl (by linarith) _
    · exact close_snapPlacement hpitch _ z

/-- All components of the tree are where their nodes are, up to the grid. -/
theorem Prepared.partsSet (h : Prepared n members t ctx) {n₁ : Netlist α}
    (hframes : FramesSet n t (t.arrange ctx 0) t.size n₁) {pitch : α} (hpitch : 0 ≤ value pitch) :
    PartsSet n₁ t (t.arrange ctx 0) (value pitch / 2) t.size
      ((List.range t.size).foldl (applyPart pitch t (t.arrange ctx 0)) n₁) :=
  (h.charted.partsPut hframes pitch).partsSet h.charted hpitch

end Netlist

end Schematic
