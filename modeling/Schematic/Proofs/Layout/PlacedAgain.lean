import Schematic.Proofs.Layout.Settled
import Schematic.Proofs.Layout.Skeleton
import Schematic.Proofs.Layout.Stages

/-!
# Placing what is placed

A placed circuit has the tree that it had before, and the author's places in it are
those of the arrangement.  Arranged in grids once more the nodes come to lie where they
were, and what is written for them are the positions that they have: a placement that is
taken into a frame and out again is the same, since it is turned by less than a whole
turn.  The block of the connected components is where it was, and so are the rows below
it.  All that changes is how often a position has been set.

## Main definitions

* `Netlist.Recounted` — the same circuit but for that count.
* `Netlist.Reaches` — where a node comes to in its cluster.

## Main statements

* `Netlist.Recounted.foldl` — loops that set the positions that there are.
* `Netlist.Stages.settles` — the tree of a placed circuit.
* `Netlist.place_place` — placing once more moves nothing.
-/

namespace Schematic

open ExactScalar
open scoped Scalar

variable {α : Type}

namespace Netlist

open ClusterTree

/-! ### Positions that are set once more -/

/-- The same circuit, but for how often positions have been set. -/
def Recounted (n m : Netlist α) : Prop := m = { n with epoch := m.epoch }

namespace Recounted

variable {n m : Netlist α}

theorem refl (n : Netlist α) : n.Recounted n := rfl

theorem components (h : n.Recounted m) : m.components = n.components := by rw [h]

theorem composables (h : n.Recounted m) : m.composables = n.composables := by rw [h]

/-- A component gets the position that it has. -/
theorem setPosition (h : n.Recounted m) {i : ComponentId} {p : Placement α}
    (hp : n.components[i]?.bind (·.position) = some p) : n.Recounted (m.setPosition i p) := by
  have hsame : (n.components.modify i fun c => { c with position := some p }) = n.components := by
    refine modify_eq_self fun c hc => ?_
    rw [hc, Option.bind_some] at hp
    rw [← hp]
  rw [h, Recounted, Netlist.setPosition, hsame]

/-- So does a composable. -/
theorem setComposablePosition (h : n.Recounted m) {i : ComposableId} {p : Placement α}
    (hp : n.composables[i]?.bind (·.position) = some p) :
    n.Recounted (m.setComposablePosition i p) := by
  have hsame : (n.composables.modify i fun c => { c with position := some p }) = n.composables := by
    refine modify_eq_self fun c hc => ?_
    rw [hc, Option.bind_some] at hp
    rw [← hp]
  rw [h, Recounted, Netlist.setComposablePosition, hsame]

/-- A loop whose steps set the positions that there are changes nothing but their count. -/
theorem foldl {β : Type} {f : Netlist α → β → Netlist α} {xs : List β}
    (hstep : ∀ x ∈ xs, ∀ m, n.Recounted m → n.Recounted (f m x)) (h : n.Recounted m) :
    n.Recounted (xs.foldl f m) := by
  induction xs generalizing m with
  | nil => exact h
  | cons x xs ih =>
    obtain ⟨hx, hxs⟩ := List.forall_mem_cons.1 hstep
    exact ih hxs (hx m h)

variable [Scalar α]

theorem outerFrame (h : n.Recounted m) (i : ComposableId) : m.outerFrame i = n.outerFrame i :=
  outerFrame_of_composables h.composables i

theorem parentFrame (h : n.Recounted m) (i : ComponentId) : m.parentFrame i = n.parentFrame i := by
  simp only [Netlist.parentFrame, composableFrame_of_composables h.composables, h.components]

end Recounted

variable [Scalar α]

/-- The rows depend on where the block is, and on what is in them. -/
theorem rowsOf_congr {n m : Netlist α} {electrical : List ComponentId}
    (hunplaced : ∀ i : ComponentId, (m.components[i]?).map (·.unplaced) =
      (n.components[i]?).map (·.unplaced))
    (habsolute : ∀ i ∈ electrical, m.absolute? i = n.absolute? i) (symbols : SymbolSource α)
    (config : PlacementConfig α) (mechanical : List ComponentId) :
    m.rowsOf symbols config electrical mechanical =
      n.rowsOf symbols config electrical mechanical := by
  have hsymbol : ∀ i, m.symbolOf i = n.symbolOf i := fun i => symbolOf_congr (hunplaced i)
  have hpending : m.pending mechanical = n.pending mechanical := by
    refine List.filter_congr fun i _ => ?_
    have hfixed := congrArg (Option.any (·.fixed)) (hunplaced i)
    rw [Option.any_map, Option.any_map] at hfixed
    exact congrArg not hfixed
  have hblock : m.blockBox? symbols electrical = n.blockBox? symbols electrical := by
    have hsite : ∀ n : Netlist α, n.blockBox? symbols electrical =
        unionBox? (electrical.filterMap fun i =>
          (n.absolute? i).map (symbols.boundingBox (n.symbolOf i))) := fun _ => rfl
    rw [hsite, hsite]
    refine congrArg unionBox? (List.filterMap_congr fun i hi => ?_)
    rw [habsolute i hi, hsymbol]
  simp only [rowsOf, hpending, hblock, hsymbol]

/-! ### The tree of a placed circuit -/

variable [ExactScalar α] {n m n₁ n₂ : Netlist α} {symbols : SymbolSource α}
  {config : PlacementConfig α}

/-- What the author has placed has a position. -/
theorem Authored.isSome_positionOf? (h : n.Authored) {kind : ClusterKind}
    (hfixed : n.fixedOf kind = true) : (n.positionOf? kind).isSome = true := by
  cases kind with
  | composable i =>
    obtain ⟨c, hc, hflag⟩ := (Option.any_eq_true ..).1 hfixed
    rw [positionOf?, hc, Option.bind_some, ← h.composableFixed i c hc]
    exact hflag
  | part i =>
    obtain ⟨c, hc, hflag⟩ := (Option.any_eq_true ..).1 hfixed
    rw [positionOf?, hc, Option.bind_some, ← h.fixed i c hc]
    exact hflag
  | _ => cases hfixed

omit [Scalar α] [ExactScalar α] in
/-- What has a position keeps one when positions are set. -/
theorem Repositioned.isSome_positionOf? (h : Repositioned n m) {kind : ClusterKind}
    (hsome : (n.positionOf? kind).isSome = true) : (m.positionOf? kind).isSome = true := by
  obtain ⟨p, hp⟩ := Option.isSome_iff_exists.1 hsome
  cases kind with
  | composable i =>
    obtain ⟨c, hc, hposition⟩ := Option.bind_eq_some_iff.1 hp
    obtain ⟨d, hd, hplaced⟩ := h.composablePlaced i ⟨c, hc, by rw [hposition]; rfl⟩
    rwa [positionOf?, hd]
  | part i =>
    obtain ⟨c, hc, hposition⟩ := Option.bind_eq_some_iff.1 hp
    obtain ⟨d, hd, hplaced⟩ := h.placed i ⟨c, hc, by rw [hposition]; rfl⟩
    rwa [positionOf?, hd]
  | _ => cases hp

omit [Scalar α] [ExactScalar α] in
theorem Repositioned.numbered (h : Repositioned n m)
    (hnumbered : ∀ (i : ComponentId) c, n.components[i]? = some c → c.id = i) (i : ComponentId)
    (d : Component α) (hd : m.components[i]? = some d) : d.id = i := by
  obtain ⟨c, hc, hsame⟩ := exists_component (h.unplaced_eq i).symm hd
  exact (congrArg Component.id hsame).symm.trans (hnumbered i c hc)

/-- A placement that a node comes to: it is turned like the node, and is where the author has
put it, spread by its cluster. -/
structure Reaches (t : ClusterTree α) (ctx : LayoutContext α) (u : NodeId) (q : Placement α) :
    Prop where
  /-- It is turned like the node. -/
  rotation : SameTurn q.rotation (t.rotation u)
  /-- The author's place is spread. -/
  point : ∀ p, t.parent? u = some p → t.isFixed u = true →
    q.point = (t.offset u).scale (t.spreadFactorOf ctx p)

namespace Charted

variable {members : List (Component α)} {t : ClusterTree α} {ctx : LayoutContext α}
  (h : n.Charted members t)

include h

/-- A placement like that of a node in its cluster is one that it comes to. -/
theorem reaches_of_alike {u : NodeId} {q : Placement α}
    (hq : q.Alike (localAfter t (t.arrange ctx 0) u)) : Reaches t ctx u q where
  rotation := hq.rotation
  point p hp hfixed := by
    rw [← h.nodes.offsetAfter_of_fixed hp hfixed]
    exact congrArg₂ Point.mk hq.x hq.y

/-- A node without a position stays at the origin. -/
theorem reaches_origin {u : NodeId} (hnone : n.positionOf? (t.kind u) = none) :
    Reaches t ctx u .origin := by
  obtain ⟨hoffset, hrotation⟩ := h.nodes.offset_rotation_eq h.known u
  rw [hnone] at hoffset hrotation
  constructor
  case rotation =>
    rw [hrotation]
    exact .refl _
  case point =>
    intro p _ _
    rw [hoffset]
    exact (Point.scale_origin _).symm

end Charted

namespace Stages

variable (h : Stages n symbols config n₁ n₂ m) (hn : n.Authored)

section Tree

include h hn

/-- What is placed comes to where its node does. -/
theorem reaches (u : NodeId) :
    Reaches n.clusters (n.layoutContext symbols config) u
      ((m.positionOf? (n.clusters.kind u)).getD .origin) := by
  have hcharted := hn.charted
  cases hkind : n.clusters.kind u with
  | composable i =>
    obtain ⟨rfl, c, hc⟩ := hcharted.nodes.of_kind_composable hkind
    exact hcharted.reaches_of_alike (h.alike_composable hn (Array.getElem?_eq_some_iff.1 hc).1)
  | part i =>
    obtain ⟨q, hq, hrotation, hlocal, -⟩ := h.exists_position hn hkind
    rw [positionOf?, hq]
    refine ⟨hrotation, fun p hp hfixed => ?_⟩
    exact (hcharted.reaches_of_alike (hlocal hfixed)).point p hp hfixed
  | sheet => exact hcharted.reaches_origin (by rw [hkind]; rfl)
  | group tag => exact hcharted.reaches_origin (by rw [hkind]; rfl)

variable (hm : Repositioned n m)
include hm

/-- The tree of the placed circuit is the one that it was placed by, with the author's places
as they have been arranged. -/
theorem settles : Settles n.clusters (n.layoutContext symbols config) m.clusters
    (m.layoutContext symbols config) := by
  have hcharted := hn.charted
  have hskeleton := hm.clusters_skeleton
  have hkind := kind_of_skeleton hskeleton
  have hsize := size_of_skeleton hskeleton
  have hparent := parent?_of_skeleton hskeleton
  have hnodes : NodesFit m m.electricalParts m.clusters.nodes := nodesFit_ofMembers m m.electrical
  have hknown : ∀ c ∈ m.electricalParts, m.components[c.id]? = some c := fun c hc =>
    (unmarked_of_mem_electricalParts (hm.numbered fun _ _ => hn.numbered) hc).1
  have hplace : ∀ u, m.clusters.offset u =
        ((m.positionOf? (n.clusters.kind u)).getD .origin).point ∧
      m.clusters.rotation u =
        ((m.positionOf? (n.clusters.kind u)).getD .origin).rotation := by
    intro u
    rw [← hkind]
    exact hnodes.offset_rotation_eq hknown u
  -- the flags are those of the author, who has given a position with each of them
  have hflag : ∀ u : NodeId,
      m.clusters.nodes[u]?.any (·.fixed) = n.clusters.nodes[u]?.any (·.fixed) := by
    intro u
    rw [hnodes.any_fixed_eq hknown, hcharted.nodes.any_fixed_eq hcharted.known, hkind,
      hm.fixedOf_eq]
    cases hfixed : n.fixedOf (n.clusters.kind u) with
    | false => rw [Bool.and_false, Bool.and_false]
    | true =>
      have hsome := hn.isSome_positionOf? hfixed
      rw [hsome, hm.isSome_positionOf? hsome]
  constructor
  case config => rfl
  case graph => exact hm.connectionGraph_eq
  case partBounds => exact hm.partBounds_eq symbols config
  case size => exact hsize
  case kind => exact hkind
  case parent? => exact hparent
  case label => exact hm.label_eq hkind
  case fixed =>
    intro u
    simp only [isFixed, children, hflag, hkind, hsize, hparent]
  case square => exact hcharted.square
  case rotation =>
    intro u
    rw [(hplace u).2]
    exact (h.reaches hn u).rotation
  case offset =>
    intro u p hp hfixed
    rw [(hplace u).1]
    exact (h.reaches hn u).point p hp hfixed

end Tree

/-! ### What is written once more -/

section Written

include h hn

/-- A composable that the author has not placed has the position that would be written. -/
theorem composable_eq_localize {i : ComposableId} (hi : i < n.composables.size)
    (hplaced : m.ComposableHasPosition i) (hfree : n.clusters.isFixed (i + 1) = false) :
    m.composables[i]?.bind (·.position) =
      some ((m.outerFrame i).localize
        (frameAfter n.clusters (n.arranged symbols config) (i + 1))) := by
  have hlt : i + 1 < n.clusters.size := Nat.lt_of_le_of_lt hi hn.charted.nodes.size
  have hnested : n₁.Nested := h.frames.nested hn.nested
  have houter : m.outerFrame i = n₁.outerFrame i := outerFrame_of_composables h.composables i
  have hplacement : m.composablePlacement i = n₁.composablePlacement i :=
    composablePlacement_of_composables h.composables i
  obtain ⟨c, hc, hposition⟩ := hplaced
  obtain ⟨q, hq⟩ := Option.isSome_iff_exists.1 hposition
  have hlocal : n₁.composablePlacement i = q := by
    rw [← hplacement, composablePlacement, hc, Option.bind_some, hq]
    rfl
  have hnormal := h.frames.normal i hi hlt hfree
  rw [hlocal] at hnormal
  -- the frame of the node leads through the position, which comes out of it again
  rw [hc, Option.bind_some, hq, houter, ← h.frames.frame i hi hlt,
    composableFrame_eq hnested, hlocal,
    Placement.localize_compose (square_outerFrame hnested h.frames.square i) hnormal]

/-- So has a connected component. -/
theorem part_eq_localize {u : NodeId} {i : ComponentId} (hkind : n.clusters.kind u = .part i)
    (hfree : n.clusters.isFixed u = false) :
    m.components[i]?.bind (·.position) =
      some ((m.parentFrame i).localize
        (sheetPlace config.gridSnap n.clusters (n.arranged symbols config) u)) := by
  obtain ⟨c, cluster, hc, rfl, hnode, -⟩ := hn.charted.nodes.of_kind_part hkind
  have hu : u < n.clusters.size := (Array.getElem?_eq_some_iff.1 hnode).1
  obtain ⟨p, hp, -, hnormal, hplace⟩ := h.parts.placed u hu _ hkind
  rw [h.component_of_electrical (hn.mem_electrical_iff.2 ⟨u, hu, hkind⟩), hp, h.parentFrame,
    ← hplace, Placement.localize_compose
      (hn.charted.square_parentFrame h.frames (hn.charted.known c hc)) (hnormal hfree)]

end Written

/-- The rows are those that have been written. -/
theorem rowsOf_eq (h : Stages n symbols config n₁ n₂ m) :
    m.rowsOf symbols config n.electrical n.mechanical =
      n₂.rowsOf symbols config n.electrical n.mechanical := by
  refine rowsOf_congr h.rows.unplaced (fun i hi => ?_) symbols config _
  exact absolute?_congr (h.component_of_electrical hi) (h.rows.parentFrame i)

section Again

variable {w : Netlist α} (hm : Repositioned n m)
  (hplaced : ∀ i < n.composables.size, m.ComposableHasPosition i)
  (hgrid : config.strategy = .grid) (hunbounded : (1 : α) < unbounded)

include h hn hm hgrid hunbounded

theorem frameAfter_again (u : NodeId) :
    frameAfter m.clusters (m.arranged symbols config) u =
      frameAfter n.clusters (n.arranged symbols config) u :=
  (h.settles hn hm).frameAfter_eq hn.charted.nodes hgrid hunbounded u

theorem arranged_again :
    m.arranged symbols config = { n.arranged symbols config with moved := [] } :=
  (h.settles hn hm).arrange_eq hgrid hunbounded 0

include hplaced in
/-- Writing the arrangement once more moves no composable. -/
theorem applyComposable_again (hw : m.Recounted w) (u : NodeId) :
    m.Recounted (applyComposable m.clusters (m.arranged symbols config) w u) := by
  have hsettles := h.settles hn hm
  rw [applyComposable, hsettles.kind]
  split
  · next i hkind =>
    obtain ⟨rfl, c, hc⟩ := hn.charted.nodes.of_kind_composable hkind
    have hi : i < n.composables.size := (Array.getElem?_eq_some_iff.1 hc).1
    rw [hsettles.fixed, h.arranged_again hn hm hgrid hunbounded]
    -- nothing is moved against the author, so that only other composables are written
    cases hfixed : n.clusters.isFixed (i + 1) with
    | true => exact hw
    | false =>
      rw [← h.arranged_again hn hm hgrid hunbounded, h.frameAfter_again hn hm hgrid hunbounded,
        hw.outerFrame]
      exact hw.setComposablePosition (h.composable_eq_localize hn hi (hplaced i hi) hfixed)
  · exact hw

/-- Nor does it move a component. -/
theorem applyPart_again (hw : m.Recounted w) (u : NodeId) :
    m.Recounted (applyPart config.gridSnap m.clusters (m.arranged symbols config) w u) := by
  have hsettles := h.settles hn hm
  rw [applyPart, hsettles.kind]
  split
  · next i hkind =>
    have hmoved : wasMoved m.clusters (m.arranged symbols config) u = false := by
      rw [h.arranged_again hn hm hgrid hunbounded, wasMoved]
      simp
    rw [hsettles.fixed, hmoved]
    cases hfixed : n.clusters.isFixed u with
    | true => exact hw
    | false =>
      have hposition := h.part_eq_localize hn hkind hfixed
      rw [sheetPlace, hfixed] at hposition
      simp only [h.frameAfter_again hn hm hgrid hunbounded, hw.parentFrame]
      exact hw.setPosition hposition
  · exact hw

include hplaced in
/-- To place the circuit once more moves nothing. -/
theorem place_again : m.Recounted (m.place symbols config).1 := by
  have happlied : m.Recounted (m.applyArrangement config.gridSnap m.clusters
      (m.arranged symbols config)) := by
    refine Recounted.foldl (fun u _ w hw => h.applyPart_again hn hm hgrid hunbounded hw u) ?_
    exact Recounted.foldl (fun u _ w hw =>
      h.applyComposable_again hn hm hplaced hgrid hunbounded hw u) (.refl m)
  have hplace : (m.place symbols config).1 =
      (m.applyArrangement config.gridSnap m.clusters (m.arranged symbols config)).placeMechanical
        symbols config m.electrical m.mechanical := rfl
  rw [hplace]
  generalize m.applyArrangement config.gridSnap m.clusters (m.arranged symbols config) = w
    at happlied ⊢
  -- the rows begin below the same block
  have hrows : w.rowsOf symbols config m.electrical m.mechanical =
      n₂.rowsOf symbols config n.electrical n.mechanical := by
    rw [hm.electrical_eq, hm.mechanical_eq, ← h.rowsOf_eq]
    refine rowsOf_congr (fun i => by rw [happlied.components]) (fun i _ => ?_) symbols config _
    exact absolute?_congr (by rw [happlied.components]) (happlied.parentFrame i)
  rw [placeMechanical_eq, hrows]
  refine Recounted.foldl (fun e he w hw => ?_) happlied
  rw [putAt, hw.parentFrame, h.rows.parentFrame]
  exact hw.setPosition (h.rows.position e he)

end Again

end Stages

/-- Placing a placed circuit once more moves nothing, if members are arranged in grids.  It
counts the same components and reports the same errors. -/
theorem place_place {name : String} {ops : List (Operation α)} {b : Build α}
    (hdrain : Build.drain ((Build.new name).run ops) = .ok n b)
    (hcomponents : ∀ c ∈ n.components, ∀ p ∈ c.position, IsQuarter p.rotation)
    (hcomposables : ∀ c ∈ n.composables, ∀ p ∈ c.position, IsQuarter p.rotation)
    (symbols : SymbolSource α) {config : PlacementConfig α} (hgrid : config.strategy = .grid)
    (hunbounded : (1 : α) < unbounded) :
    let placed := n.place symbols config
    let again := placed.1.place symbols config
    again.1 = { placed.1 with epoch := again.1.epoch } ∧ again.2 = placed.2 := by
  intro placed again
  have hauthored : n.Authored := Build.authored_of_drain hdrain hcomponents hcomposables
  obtain ⟨n₁, n₂, hstages⟩ := hauthored.exists_stages symbols config
  obtain ⟨hplaced, hcomposable, -⟩ :=
    place_reaches (fun _ _ => hauthored.numbered) hauthored.fixed symbols config
  refine ⟨hstages.place_again hauthored hplaced hcomposable hgrid hunbounded, ?_⟩
  have hreport : ∀ n : Netlist α, (n.place symbols config).2 =
      ⟨n.electrical.length, n.mechanical.length, (n.arranged symbols config).errors⟩ := fun _ => rfl
  show (placed.1.place symbols config).2 = (n.place symbols config).2
  rw [hreport, hreport, hplaced.electrical_eq, hplaced.mechanical_eq,
    hstages.arranged_again hauthored hplaced hgrid hunbounded]

/-- The crowded circuit, whose sheet is spread, is spread once. -/
theorem crowded_place_place :
    (crowded.drain = .ok crowded.toNetlist crowded.cleared ∧
      (∀ c ∈ crowded.toNetlist.components, ∀ p ∈ c.position, IsQuarter p.rotation) ∧
      ∀ c ∈ crowded.toNetlist.composables, ∀ p ∈ c.position, IsQuarter p.rotation) ∧
    (default : PlacementConfig WideRat).strategy = .grid ∧ (1 : WideRat) < unbounded ∧
    (let placed := crowded.toNetlist.place uprightLibrary.source default
      let again := placed.1.place uprightLibrary.source default
      again.1 = { placed.1 with epoch := again.1.epoch } ∧ again.2 = placed.2) := by
  obtain ⟨hdrain, hcomponents, hcomposables⟩ := crowded_turned
  have hgrid : (default : PlacementConfig WideRat).strategy = .grid := rfl
  have hunbounded : (1 : WideRat) < unbounded := by decide +kernel
  exact ⟨crowded_turned, hgrid, hunbounded,
    place_place hdrain hcomponents hcomposables uprightLibrary.source hgrid hunbounded⟩

end Netlist

end Schematic
