import Schematic.Proofs.Layout.Completeness
import Schematic.Proofs.Layout.Stages

/-!
# What the author has placed stays there

Placing may write the position of something that the author has placed, when its
cluster, or the group around it, is spread.  What is written brings it to where its
node is, and the node is where the author has put it, scaled by the factor of its
cluster.  A group has no place of its own, so that to scale one moves nothing, and the
factor that counts is that of the innermost cluster.

## Main definitions

* `Placement.SpreadTo` — a placement that is scaled.

## Main statements

* `Netlist.Stages.spreadTo_composable`, `Netlist.Stages.exists_spreadTo` — what is
  written for what the author has placed.
* `Netlist.place_keeps_places` — what the author has placed is scaled with its cluster.
-/

namespace Schematic

open ExactScalar
open scoped Scalar

variable {α : Type} [Scalar α]

/-- A placement that is scaled about the origin; its angle may differ by whole turns. -/
structure Placement.SpreadTo [ExactScalar α] (factor : α) (p q : Placement α) : Prop where
  /-- The place across is scaled. -/
  x : q.x = p.x * factor
  /-- The place down is scaled. -/
  y : q.y = p.y * factor
  /-- The angle is the same up to whole turns. -/
  rotation : SameTurn q.rotation p.rotation

namespace Netlist

open ClusterTree

omit [Scalar α] in
theorem eq_of_unplaced {c d : Component α} {q : Placement α} (h : d.unplaced = c.unplaced)
    (hq : d.position = some q) : d = { c with position := some q } := by
  have hplace : ∀ c : Component α, { c.unplaced with position := c.position } = c := fun _ => rfl
  rw [← hplace d, h, hq]
  rfl

omit [Scalar α] in
theorem composable_eq_of_unplaced {c d : Composable α} {q : Placement α}
    (h : d.unplaced = c.unplaced) (hq : d.position = some q) :
    d = { c with position := some q } := by
  have hplace : ∀ c : Composable α, { c.unplaced with position := c.position } = c := fun _ => rfl
  rw [← hplace d, h, hq]
  rfl

variable [ExactScalar α] {n m n₁ n₂ : Netlist α} {symbols : SymbolSource α}
  {config : PlacementConfig α}

/-- A node of the author's is scaled with its cluster. -/
theorem Charted.spreadTo_of_fixed {members : List (Component α)} {t : ClusterTree α}
    (h : n.Charted members t) {ctx : LayoutContext α} {u k : NodeId} {kind : ClusterKind}
    {p q : Placement α} (hnode : t.nodes[u]? = some (.placed kind (some k) (some p) true))
    (hkind : kind.isGroup = false) (hq : q.Alike (localAfter t (t.arrange ctx 0) u)) :
    p.SpreadTo (t.spreadFactorOf ctx k) q := by
  have hparent : t.parent? u = some k := parent?_of_node hnode
  have hfixed : t.isFixed u = true := isFixed_of_node hnode hkind
  have hoffset : offsetAfter t (t.arrange ctx 0) u = p.point.scale (t.spreadFactorOf ctx k) := by
    rw [h.nodes.offsetAfter_of_fixed hparent hfixed, ClusterTree.offset, hnode]
    rfl
  have hrotation : t.rotation u = p.rotation := by
    rw [ClusterTree.rotation, hnode]
    rfl
  obtain ⟨hx, hy, hturn⟩ := hq
  constructor
  case x => exact hx.trans (congrArg Point.x hoffset)
  case y => exact hy.trans (congrArg Point.y hoffset)
  case rotation => exact hrotation ▸ hturn

namespace Stages

variable (h : Stages n symbols config n₁ n₂ m) (hn : n.Authored)
include h hn

/-- The placement of a composable that the author has placed is scaled with its cluster. -/
theorem spreadTo_composable {i : ComposableId} {c : Composable α} {p : Placement α}
    (hc : n.composables[i]? = some c) (hfixed : c.fixed = true) (hp : c.position = some p) :
    n.clusters.parent? (i + 1) = some (frameNode i c.parent) ∧
      p.SpreadTo
        (n.clusters.spreadFactorOf (n.layoutContext symbols config) (frameNode i c.parent))
        (m.composablePlacement i) := by
  have hnode := hn.charted.nodes.composable_node hc
  have hlocal := h.alike_composable hn (Array.getElem?_eq_some_iff.1 hc).1
  rw [composableNode, hp, hfixed] at hnode
  exact ⟨parent?_of_node hnode, hn.charted.spreadTo_of_fixed hnode rfl hlocal⟩

/-- So is that of a connected component. -/
theorem exists_spreadTo {i : ComponentId} {c : Component α} {p : Placement α}
    (hc : n.components[i]? = some c) (hfixed : c.fixed = true) (hp : c.position = some p)
    (helectrical : i ∈ n.electrical) :
    ∃ u k q, n.clusters.kind u = .part i ∧ n.clusters.parent? u = some k ∧
      m.components[i]?.bind (·.position) = some q ∧
      p.SpreadTo (n.clusters.spreadFactorOf (n.layoutContext symbols config) k) q := by
  obtain ⟨u, -, hkind⟩ := hn.mem_electrical_iff.1 helectrical
  obtain ⟨d, k, hd, hid, hnode, -⟩ := hn.charted.nodes.of_kind_part hkind
  obtain rfl : d = c := by
    have hknown := hn.charted.known d hd
    rw [hid, hc] at hknown
    exact (Option.some.inj hknown).symm
  obtain ⟨q, hq, -, hlocal, -⟩ := h.exists_position hn hkind
  rw [partNode, hp, hfixed] at hnode
  have hufixed : n.clusters.isFixed u = true := isFixed_of_node hnode rfl
  exact ⟨u, k, q, hkind, parent?_of_node hnode, hq,
    hn.charted.spreadTo_of_fixed hnode rfl (hlocal hufixed)⟩

/-- A component that the author has placed stays as it is when it is not connected. -/
theorem component_of_not_electrical {i : ComponentId} {c : Component α}
    (hc : n.components[i]? = some c) (hfixed : c.fixed = true) (hnot : i ∉ n.electrical) :
    m.components[i]? = some c := by
  have hnode : ∀ u < n.clusters.size, n.clusters.kind u ≠ .part i := fun u hu hkind =>
    hnot (hn.mem_electrical_iff.2 ⟨u, hu, hkind⟩)
  have hbefore : n₂.components[i]? = some c := by
    rw [h.parts.untouched i hnode, h.frames.components, hc]
  rw [h.rows.untouched i ?_, hbefore]
  intro hrow
  rw [map_fst_rowsOf] at hrow
  have hpending := (List.mem_filter.1 hrow).2
  rw [hbefore, Option.any_some, hfixed] at hpending
  cases hpending

end Stages

/-- Whatever the author has placed keeps its position, scaled with its cluster.  The factor of
a cluster is the one that is found for its fixed members; it is one for fewer than two, and
when none is found, and otherwise one or larger, within the limit.  What is not in the tree
stays as it is. -/
theorem place_keeps_places {name : String} {ops : List (Operation α)} {b : Build α}
    (hdrain : Build.drain ((Build.new name).run ops) = .ok n b)
    (hcomponents : ∀ c ∈ n.components, ∀ p ∈ c.position, IsQuarter p.rotation)
    (hcomposables : ∀ c ∈ n.composables, ∀ p ∈ c.position, IsQuarter p.rotation)
    (symbols : SymbolSource α) (config : PlacementConfig α) :
    let t := n.clusters
    let factor := t.spreadFactorOf (n.layoutContext symbols config)
    let m := (n.place symbols config).1
    (∀ k, ((t.children k).filter t.isFixed).length < 2 ∧ factor k = 1 ∨
      t.SpreadsBy (n.layoutContext symbols config) k (factor k) ∧
        (factor k = 1 ∨ 1 < factor k ∧ factor k ≤ config.maxFixedScale) ∨
      (∃ failure, t.FailsToSpread (n.layoutContext symbols config) k failure) ∧ factor k = 1) ∧
    (∀ i c p, n.composables[i]? = some c → c.fixed = true → c.position = some p →
      ∃ k q, t.parent? (i + 1) = some k ∧
        m.composables[i]? = some { c with position := some q } ∧ p.SpreadTo (factor k) q) ∧
    ∀ i c p, n.components[i]? = some c → c.fixed = true → c.position = some p →
      (i ∈ n.electrical ∧ ∃ u k q, t.kind u = .part i ∧ t.parent? u = some k ∧
        m.components[i]? = some { c with position := some q } ∧ p.SpreadTo (factor k) q) ∨
      i ∉ n.electrical ∧ m.components[i]? = some c := by
  intro t factor m
  have hauthored : n.Authored := Build.authored_of_drain hdrain hcomponents hcomposables
  obtain ⟨n₁, n₂, hstages⟩ := hauthored.exists_stages symbols config
  obtain ⟨hplaced, hcomposable, -⟩ :=
    place_reaches (fun _ _ => hauthored.numbered) hauthored.fixed symbols config
  refine ⟨fun k => t.spreadFactorOf_eq _ k, fun i c p hc hfixed hp => ?_,
    fun i c p hc hfixed hp => ?_⟩
  · obtain ⟨hparent, hspread⟩ := hstages.spreadTo_composable hauthored hc hfixed hp
    obtain ⟨d, hd, hposition⟩ := hcomposable i (Array.getElem?_eq_some_iff.1 hc).1
    obtain ⟨q, hq⟩ := Option.isSome_iff_exists.1 hposition
    have hsame := hplaced.composable_unplaced_eq i
    rw [hd, hc] at hsame
    have hplacement : m.composablePlacement i = q := by
      rw [composablePlacement, hd]
      simp [hq]
    rw [hplacement] at hspread
    exact ⟨_, q, hparent,
      hd.trans (congrArg some (composable_eq_of_unplaced (Option.some.inj hsame) hq)), hspread⟩
  · by_cases helectrical : i ∈ n.electrical
    · obtain ⟨u, k, q, hkind, hparent, hq, hspread⟩ :=
        hstages.exists_spreadTo hauthored hc hfixed hp helectrical
      obtain ⟨d, hd, hdq⟩ := Option.bind_eq_some_iff.1 hq
      have hsame := hplaced.unplaced_eq i
      rw [hd, hc] at hsame
      exact .inl ⟨helectrical, u, k, q, hkind, hparent,
        hd.trans (congrArg some (eq_of_unplaced (Option.some.inj hsame) hdq)), hspread⟩
    · exact .inr ⟨helectrical, hstages.component_of_not_electrical hauthored hc hfixed helectrical⟩

/-- The sheet of the crowded circuit is spread, and `R2` with it. -/
theorem crowded_keeps_places :
    (crowded.drain = .ok crowded.toNetlist crowded.cleared ∧
      (∀ c ∈ crowded.toNetlist.components, ∀ p ∈ c.position, IsQuarter p.rotation) ∧
      ∀ c ∈ crowded.toNetlist.composables, ∀ p ∈ c.position, IsQuarter p.rotation) ∧
    1 < crowded.toNetlist.clusters.spreadFactorOf
      (crowded.toNetlist.layoutContext uprightLibrary.source default) 0 ∧
    ∃ u q, crowded.toNetlist.clusters.kind u = .part 1 ∧
      (crowded.toNetlist.place uprightLibrary.source default).1.components[1]?.bind (·.position) =
        some q ∧
      (⟨1, 2, 90⟩ : Placement WideRat).SpreadTo
        (crowded.toNetlist.clusters.spreadFactorOf
          (crowded.toNetlist.layoutContext uprightLibrary.source default) 0) q := by
  obtain ⟨hdrain, hcomponents, hcomposables⟩ := crowded_turned
  refine ⟨crowded_turned, by decide +kernel, ?_⟩
  obtain ⟨c, hc⟩ : ∃ c, crowded.toNetlist.components[1]? = some c := ⟨_, rfl⟩
  have hfixed : c.fixed = true := by
    cases hc
    rfl
  have hp : c.position = some ⟨1, 2, 90⟩ := by
    cases hc
    rfl
  obtain ⟨-, -, hkept⟩ := place_keeps_places hdrain hcomponents hcomposables
    uprightLibrary.source default
  obtain ⟨-, u, k, q, hkind, hparent, hq, hspread⟩ | ⟨hnot, -⟩ := hkept 1 c _ hc hfixed hp
  · have hsheet : ∀ u < crowded.toNetlist.clusters.size,
        crowded.toNetlist.clusters.kind u = .part 1 →
          crowded.toNetlist.clusters.parent? u = some 0 := by decide +kernel
    have hk := hsheet u (lt_size_of_parent? hparent) hkind
    rw [hparent] at hk
    cases hk
    exact ⟨u, q, hkind, by rw [hq]; rfl, hspread⟩
  · exact absurd hnot (by decide +kernel)

end Netlist

end Schematic
