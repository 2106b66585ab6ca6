import Schematic.Proofs.Layout.Frames
import Schematic.Proofs.Layout.Sibling

/-!
# Rows of other components

The components that nothing is connected to are put in a grid below the others.
Bringing them onto the grid of the sheet moves each of them by half its pitch at
most, which the gap between them has room for.

## Main definitions

* `Netlist.PointsSet` — components are put at points.
* `Netlist.rowsOf` — where the rows put components.
* `Netlist.RowsSet` — the rows have no overlaps, neither among themselves nor with
  what is above them.

## Main statements

* `Netlist.pointsSet_foldl` — positions written one after the other.
* `Netlist.pointsSet_placeMechanical`, `Netlist.rowsSet_placeMechanical` — the rows of a
  circuit.
-/

namespace Schematic

open ExactScalar
open scoped Scalar

variable {α : Type} [Scalar α] [ExactScalar α]

namespace Netlist

variable {n m : Netlist α}

/-- Some components are put at points of the sheet; nothing else is changed. -/
structure PointsSet (n : Netlist α) (entries : List (ComponentId × Point α)) (m : Netlist α) :
    Prop where
  /-- The composables are the same. -/
  composables : m.composables = n.composables
  /-- The frames are the same. -/
  parentFrame : ∀ i, m.parentFrame i = n.parentFrame i
  /-- The components are the same up to their positions. -/
  unplaced : ∀ i : ComponentId, (m.components[i]?).map (·.unplaced) =
    (n.components[i]?).map (·.unplaced)
  /-- The other components are the same. -/
  untouched : ∀ i, i ∉ entries.map Prod.fst → m.components[i]? = n.components[i]?
  /-- These get the placements of the points in their frames. -/
  position : ∀ e ∈ entries, m.components[e.1]?.bind (·.position) =
    some ((n.parentFrame e.1).localize ⟨e.2.x, e.2.y, 0⟩)
  /-- These are at their points. -/
  placed : ∀ e ∈ entries, ∃ p, m.absolute? e.1 = some p ∧ p.Square ∧
    ∀ z, p.move z = e.2.complex + z

/-- Put a component at a point of the sheet. -/
def putAt (n : Netlist α) (e : ComponentId × Point α) : Netlist α :=
  n.setPosition e.1 ((n.parentFrame e.1).localize ⟨e.2.x, e.2.y, 0⟩)

/-- Components that are put at points one after the other end up there. -/
theorem pointsSet_foldl {entries : List (ComponentId × Point α)}
    (hunique : (entries.map Prod.fst).Nodup)
    (hknown : ∀ e ∈ entries, e.1 < n.components.size)
    (hsquare : ∀ e ∈ entries, (n.parentFrame e.1).Square) :
    PointsSet n entries (entries.foldl putAt n) := by
  induction entries generalizing n with
  | nil =>
    exact ⟨rfl, fun _ => rfl, fun _ => rfl, fun _ _ => rfl,
      fun e he => absurd he List.not_mem_nil, fun e he => absurd he List.not_mem_nil⟩
  | cons e entries ih =>
    obtain ⟨hnew, hunique⟩ := List.nodup_cons.1 hunique
    obtain ⟨hsize, hknown⟩ := List.forall_mem_cons.1 hknown
    obtain ⟨hframe, hsquare⟩ := List.forall_mem_cons.1 hsquare
    have hsame : ∀ i, (n.putAt e).parentFrame i = n.parentFrame i := parentFrame_setPosition n _ _
    have hcount : (n.putAt e).components.size = n.components.size := Array.size_modify
    have hrest := ih (n := n.putAt e) hunique (fun d hd => hcount ▸ hknown d hd)
      (fun d hd => hsame d.1 ▸ hsquare d hd)
    refine ⟨hrest.composables, fun i => (hrest.parentFrame i).trans (hsame i),
      fun i => (hrest.unplaced i).trans (unplaced_setPosition n _ _ i), fun i hi => ?_, ?_, ?_⟩
    · rw [List.map_cons, List.mem_cons, not_or] at hi
      rw [List.foldl_cons, hrest.untouched i hi.2, putAt, getElem?_setPosition,
        if_neg (Ne.symm hi.1)]
    · refine List.forall_mem_cons.2 ⟨?_, fun d hd => ?_⟩
      · rw [List.foldl_cons, hrest.untouched e.1 hnew, putAt, getElem?_setPosition, if_pos rfl,
          Array.getElem?_eq_getElem hsize]
        rfl
      · rw [List.foldl_cons, hrest.position d hd, hsame]
    · refine List.forall_mem_cons.2 ⟨?_, hrest.placed⟩
      have hpoint : (⟨e.2.x, e.2.y, 0⟩ : Placement α).Square := Placement.isQuarter_zero
      refine ⟨(n.parentFrame e.1).compose ((n.parentFrame e.1).localize ⟨e.2.x, e.2.y, 0⟩), ?_,
        hframe.compose (hframe.localize hpoint), fun z => ?_⟩
      · rw [List.foldl_cons, absolute?_congr (hrest.untouched e.1 hnew) (hrest.parentFrame e.1),
          putAt, absolute?_setPosition hsize, if_pos rfl]
      · rw [Placement.move_compose_localize hframe hpoint, Placement.move_of_rotation_zero rfl]
        rfl

/-! ### The rows -/

/-- The components that are put in rows. -/
def pending (n : Netlist α) (mechanical : List ComponentId) : List ComponentId :=
  mechanical.filter fun id => !(n.components[id]?.any (·.fixed))

/-- Where the components of the rows are put. -/
def rowEntries (pitch : α) (anchor : Point α) (ids : List ComponentId) (origins : List (Point α)) :
    List (ComponentId × Point α) :=
  (ids.zip origins).map fun e => (e.1, (e.2.offset anchor.x anchor.y).snap pitch)

/-- The rows are there: their components do not overlap, and lie below a block. -/
structure RowsSet (n : Netlist α) (symbols : SymbolSource α) (pending : List ComponentId)
    (block : Option (Rect α)) (m : Netlist α) : Prop where
  /-- The frames are the same. -/
  parentFrame : ∀ i, m.parentFrame i = n.parentFrame i
  /-- The components are the same up to their positions. -/
  unplaced : ∀ i : ComponentId, (m.components[i]?).map (·.unplaced) =
    (n.components[i]?).map (·.unplaced)
  /-- The other components are the same. -/
  untouched : ∀ i, i ∉ pending → m.components[i]? = n.components[i]?
  /-- The components of the rows are placed. -/
  placed : ∀ i ∈ pending, ∃ p, m.absolute? i = some p ∧ p.Square
  /-- They do not overlap. -/
  gap : ∀ i ∈ pending, ∀ j ∈ pending, i ≠ j → Gap 0 (m.site symbols i) (m.site symbols j)
  /-- They lie below the block. -/
  below : ∀ b, block = some b → ∀ i ∈ pending, Gap 0 b.region (m.site symbols i)

section Rows

variable {ids : List ComponentId} {origins : List (Point α)}

omit [ExactScalar α] in
theorem map_fst_rowEntries (h : ids.length ≤ origins.length) (pitch : α) (anchor : Point α) :
    (rowEntries pitch anchor ids origins).map Prod.fst = ids := by
  rw [rowEntries, List.map_map]
  exact List.map_fst_zip h

/-- What is brought onto the grid stays close to where it was. -/
theorem close_of_snap {pitch : α} (hpitch : 0 ≤ value pitch) (box : ComponentId → Rect α)
    {anchor : Point α} {e : ComponentId × Point α} {p : Placement α}
    (hp : ∀ z, p.move z = ((e.2.offset anchor.x anchor.y).snap pitch).complex + z) :
    ∀ w ∈ p.move '' (box e.1).region,
      ∃ z ∈ (gridBox box anchor e).region, Close (value pitch / 2) z w := by
  rintro _ ⟨z, hz, rfl⟩
  refine ⟨(e.2.offset anchor.x anchor.y).complex + z, ?_, ?_⟩
  · rw [gridBox, ← Rect.translate_add, Rect.region_translate]
    exact ⟨z, hz, Placement.move_of_rotation_zero rfl z⟩
  · rw [hp]
    constructor
    · rw [Complex.add_re, Complex.add_re, add_sub_add_right_eq_sub]
      exact abs_snap_sub_le hpitch (e.2.x + anchor.x)
    · rw [Complex.add_im, Complex.add_im, add_sub_add_right_eq_sub]
      exact abs_snap_sub_le hpitch (e.2.y + anchor.y)

/-- A component of the rows lies close to its box. -/
theorem PointsSet.exists_close {pitch : α} {anchor : Point α}
    (h : PointsSet n (rowEntries pitch anchor ids origins) m) (symbols : SymbolSource α)
    (hpitch : 0 ≤ value pitch) (hlength : ids.length ≤ origins.length) {i : ComponentId}
    (hi : i ∈ ids) :
    ∃ e ∈ ids.zip origins, e.1 = i ∧ (∃ p, m.absolute? i = some p ∧ p.Square) ∧
      ∀ w ∈ m.site symbols i,
        ∃ z ∈ (gridBox (fun i => symbols.localBounds (n.symbolOf i)) anchor e).region,
          Close (value pitch / 2) z w := by
  rw [← List.map_fst_zip hlength] at hi
  obtain ⟨e, he, rfl⟩ := List.mem_map.1 hi
  obtain ⟨p, hp, hsquare, hmove⟩ : ∃ p, m.absolute? e.1 = some p ∧ p.Square ∧
      ∀ z, p.move z = ((e.2.offset anchor.x anchor.y).snap pitch).complex + z :=
    h.placed _ (List.mem_map_of_mem he)
  refine ⟨e, he, rfl, ⟨p, hp, hsquare⟩, ?_⟩
  rw [site_eq hp, symbolOf_congr (h.unplaced _)]
  exact close_of_snap hpitch (fun i => symbols.localBounds (n.symbolOf i)) hmove

/-- Components that are put in rows do not overlap and lie below the block. -/
theorem PointsSet.rowsSet {symbols : SymbolSource α} {pitch spacing : α} {block : Option (Rect α)}
    (h : PointsSet n (rowEntries pitch (rowsAnchor spacing block) ids origins) m)
    (hpitch : 0 ≤ value pitch) (hspacing : value pitch ≤ value spacing)
    (horigins : gridLayout (ids.map fun i => symbols.localBounds (n.symbolOf i))
      (List.range ids.length) spacing = origins) :
    RowsSet n symbols ids block m := by
  have hlength : ids.length ≤ origins.length := by
    rw [← horigins, length_gridLayout, List.length_map]
  have hclose := fun i => h.exists_close symbols hpitch hlength (i := i)
  generalize hanchor : rowsAnchor spacing block = anchor at hclose
  have hall : ∀ k < ids.length, k ∈ List.range ids.length := fun k => List.mem_range.2
  have hapart := gridBox_gap (hpitch.trans hspacing) hall horigins anchor
  -- both boxes may have moved by half a pitch
  have hless : (0 : ℝ) ≤ value spacing - 2 * (value pitch / 2) := by linarith
  refine
    { parentFrame := h.parentFrame
      unplaced := h.unplaced
      untouched := fun i hi => h.untouched i (by rwa [map_fst_rowEntries hlength])
      placed := fun i hi => ?_
      gap := fun i hi j hj hne => ?_
      below := fun b hb i hi => ?_ }
  · obtain ⟨-, -, -, hplaced, -⟩ := hclose i hi
    exact hplaced
  · obtain ⟨e, he, rfl, -, hnear⟩ := hclose i hi
    obtain ⟨e', he', rfl, -, hnear'⟩ := hclose j hj
    have hsymm : Std.Symm fun e e' : ComponentId × Point α => Gap (value spacing)
        (gridBox (fun i => symbols.localBounds (n.symbolOf i)) anchor e).region
        (gridBox (fun i => symbols.localBounds (n.symbolOf i)) anchor e').region :=
      ⟨fun _ _ => Gap.comm⟩
    have hgap := hapart.forall he he' fun heq => hne (congrArg Prod.fst heq)
    exact (hgap.of_close hnear hnear').of_le hless
  · obtain ⟨e, he, rfl, -, hnear⟩ := hclose i hi
    have hy : anchor.y = b.bottom + spacing := by rw [← hanchor, hb, rowsAnchor]
    have hbelow := (gridBox_corner (hpitch.trans hspacing) hall horigins anchor he).2
    rw [hy, value_add] at hbelow
    have hsame : ∀ z ∈ b.region, ∃ w ∈ b.region, Close (value pitch / 2) w z :=
      fun z hz => ⟨z, hz, Close.refl (by linarith) z⟩
    exact ((Rect.gap_of_bottom_le hbelow).of_close hsame hnear).of_le hless

end Rows

/-- Where the rows of a circuit put its components. -/
def rowsOf (n : Netlist α) (symbols : SymbolSource α) (config : PlacementConfig α)
    (electrical mechanical : List ComponentId) : List (ComponentId × Point α) :=
  rowEntries config.gridSnap (rowsAnchor config.spacing (n.blockBox? symbols electrical))
    (n.pending mechanical)
    (gridLayout ((n.pending mechanical).map fun i => symbols.localBounds (n.symbolOf i))
      (List.range (n.pending mechanical).length) config.spacing)

section RowsOf

variable {symbols : SymbolSource α} {config : PlacementConfig α}
  {electrical mechanical : List ComponentId}

omit [ExactScalar α] in
theorem placeMechanical_eq : n.placeMechanical symbols config electrical mechanical =
    (n.rowsOf symbols config electrical mechanical).foldl putAt n := by
  rw [rowsOf, rowEntries, List.foldl_map, placeMechanical]
  rfl

omit [ExactScalar α] in
theorem map_fst_rowsOf :
    (n.rowsOf symbols config electrical mechanical).map Prod.fst = n.pending mechanical := by
  refine map_fst_rowEntries ?_ _ _
  rw [length_gridLayout, List.length_map]

/-- The components of the rows are put where these put them. -/
theorem pointsSet_placeMechanical (hunique : mechanical.Nodup)
    (hknown : ∀ i ∈ mechanical, i < n.components.size)
    (hsquare : ∀ i ∈ mechanical, (n.parentFrame i).Square) :
    PointsSet n (n.rowsOf symbols config electrical mechanical)
      (n.placeMechanical symbols config electrical mechanical) := by
  have hkeys : (n.rowsOf symbols config electrical mechanical).map Prod.fst =
      n.pending mechanical := map_fst_rowsOf
  have hmem : ∀ e ∈ n.rowsOf symbols config electrical mechanical, e.1 ∈ mechanical := fun e he =>
    List.mem_of_mem_filter (hkeys ▸ List.mem_map_of_mem he : e.1 ∈ n.pending mechanical)
  rw [placeMechanical_eq]
  refine pointsSet_foldl ?_ (fun e he => hknown _ (hmem e he)) fun e he => hsquare _ (hmem e he)
  rw [hkeys]
  exact hunique.filter _

end RowsOf

/-- The rows of a circuit whose components have square frames. -/
theorem rowsSet_placeMechanical {symbols : SymbolSource α} {config : PlacementConfig α}
    (hsnap : 0 ≤ value config.gridSnap) (hspacing : value config.gridSnap ≤ value config.spacing)
    {electrical mechanical : List ComponentId} (hunique : mechanical.Nodup)
    (hknown : ∀ i ∈ mechanical, i < n.components.size)
    (hsquare : ∀ i ∈ mechanical, (n.parentFrame i).Square) :
    RowsSet n symbols (n.pending mechanical) (n.blockBox? symbols electrical)
      (n.placeMechanical symbols config electrical mechanical) := by
  have hpoints : PointsSet n (n.rowsOf symbols config electrical mechanical)
      (n.placeMechanical symbols config electrical mechanical) :=
    pointsSet_placeMechanical hunique hknown hsquare
  exact hpoints.rowsSet hsnap hspacing rfl

end Netlist

end Schematic
