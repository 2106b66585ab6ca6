import Schematic.Layout.Sibling
import Schematic.Proofs.Layout.Grid
import Schematic.Proofs.Layout.Separation
import Schematic.Proofs.Lists

/-!
# The members of a cluster do not overlap

The arrangement of a cluster only moves its members, and it moves those that the
author placed only to spread them.  Where that succeeds, the members lie apart:
the author's because spreading ends when nothing overlaps, the others because
they are in a grid, and both from each other because the grid begins beside the
author's members.

## Main definitions

* `Sibling.Regular` — members that can be turned exactly.
* `Sibling.Shifted` — the same member at another offset.
* `Sibling.Apart` — members that do not overlap.
* `Sibling.spreadBy` — a member that is spread.
* `SpreadsBy`, `FailToSpread` — members that the author placed, and that can or cannot be
  pulled apart.
* `spreadFactor` — the factor by which they are spread.

## Main statements

* `arrangeSiblings_shifted` — an arrangement moves members.
* `arrangeSiblings_apart` — the members of a cluster do not overlap.
* `arrangeSiblings_failure_iff` — when an arrangement fails.
-/

namespace Schematic

variable {α : Type} [Scalar α] [ExactScalar α]

open ExactScalar
open scoped Scalar

/-! ### Boxes around boxes -/

theorem region_subset_foldl_union (r : Rect α) (rs : List (Rect α)) :
    r.region ⊆ (rs.foldl Rect.union r).region ∧
      ∀ s ∈ rs, s.region ⊆ (rs.foldl Rect.union r).region := by
  induction rs generalizing r with
  | nil => exact ⟨subset_rfl, fun s hs => absurd hs List.not_mem_nil⟩
  | cons s rs ih =>
    obtain ⟨hunion, hrest⟩ := ih (r.union s)
    refine ⟨(r.region_subset_union_left s).trans hunion, fun t ht => ?_⟩
    rcases List.mem_cons.1 ht with rfl | ht
    · exact (r.region_subset_union_right t).trans hunion
    · exact hrest t ht

/-- The box around some boxes holds all of them. -/
theorem region_subset_unionBox? {rs : List (Rect α)} {u r : Rect α} (h : unionBox? rs = some u)
    (hr : r ∈ rs) : r.region ⊆ u.region := by
  cases rs with
  | nil => cases hr
  | cons s rs =>
    cases h
    obtain ⟨hs, hrs⟩ := region_subset_foldl_union s rs
    rcases List.mem_cons.1 hr with rfl | hr
    · exact hs
    · exact hrs r hr

theorem proper_unionBox? {rs : List (Rect α)} {u : Rect α} (h : unionBox? rs = some u)
    (hrs : ∀ r ∈ rs, r.Proper) : u.Proper := by
  cases rs with
  | nil => cases h
  | cons s rs =>
    cases h
    have hfold : ∀ (rs : List (Rect α)) (s : Rect α), s.Proper →
        (rs.foldl Rect.union s).Proper := by
      intro rs
      induction rs with
      | nil => exact fun _ hs => hs
      | cons r rs ih => exact fun s hs => ih _ (hs.union r)
    exact hfold rs s (hrs s List.mem_cons_self)

omit [ExactScalar α] in
theorem isSome_unionBox? {rs : List (Rect α)} {r : Rect α} (hr : r ∈ rs) :
    ∃ u, unionBox? rs = some u := by
  cases rs with
  | nil => cases hr
  | cons s rs => exact ⟨_, rfl⟩

namespace Sibling

variable {s s' : Sibling α}

/-- The box of a member has no negative size, and it is turned by whole quarter turns. -/
structure Regular (s : Sibling α) : Prop where
  /-- The box is one. -/
  proper : s.bounds.Proper
  /-- The rotation is one by quarter turns. -/
  square : IsQuarter s.rotation

omit [Scalar α] [ExactScalar α] in
/-- A member at another offset. -/
def atOffset (s : Sibling α) (p : Point α) : Sibling α := { s with offset := p }

omit [Scalar α] [ExactScalar α] in
/-- The same member, perhaps at another offset. -/
def Shifted (s s' : Sibling α) : Prop := s' = s.atOffset s'.offset

omit [Scalar α] [ExactScalar α] in
theorem Shifted.refl (s : Sibling α) : s.Shifted s := rfl

omit [Scalar α] [ExactScalar α] in
theorem Shifted.trans {s'' : Sibling α} (h : s.Shifted s') (h' : s'.Shifted s'') :
    s.Shifted s'' := by
  rw [Shifted] at *
  rw [h', h]
  rfl

theorem Regular.shifted (h : s.Regular) (hs : s.Shifted s') : s'.Regular := by
  rw [Shifted] at hs
  rw [hs]
  exact ⟨h.proper, h.square⟩

/-- The motion from the member's own frame into that of the cluster. -/
def placement (s : Sibling α) : Placement α := ⟨s.offset.x, s.offset.y, s.rotation⟩

theorem region_footprint (h : s.Regular) :
    s.footprint.region = s.placement.move '' s.bounds.region :=
  Rect.region_placeBox h.proper h.square

/-- The footprint is the box around the origin, moved. -/
theorem region_footprint_eq_translate (h : s.Regular) :
    s.footprint.region = (s.box.translate s.offset.x s.offset.y).region := by
  have hbox : s.box.region = (⟨0, 0, s.rotation⟩ : Placement α).move '' s.bounds.region :=
    Rect.region_placeBox h.proper h.square
  rw [region_footprint h, Rect.region_translate, hbox, Set.image_image]
  refine Set.image_congr' fun z => ?_
  simp [Placement.move, placement, Placement.turn_zero, Placement.point, Point.complex,
    Complex.ext_iff]

/-- The members do not overlap in their cluster. -/
def Apart (s s' : Sibling α) : Prop := Gap 0 s.footprint.region s'.footprint.region

instance : Std.Symm (Apart : Sibling α → Sibling α → Prop) where
  symm _ _ h := Gap.comm h

/-! ### Giving new offsets -/

section Assign

omit [Scalar α] [ExactScalar α]

theorem assign_shifted (fixed : Bool) (siblings : List (Sibling α)) (points : List (Point α)) :
    List.Forall₂ (fun s s' => s.Shifted s' ∧ (s.fixed ≠ fixed → s' = s)) siblings
      (assign fixed siblings points) := by
  induction siblings, points using assign.induct fixed with
  | case1 points =>
    rw [assign]
    exact .nil
  | case2 siblings hne =>
    rw [assign]
    · exact List.forall₂_same.2 fun s _ => ⟨.refl s, fun _ => rfl⟩
    · exact hne
  | case3 s siblings p points heq ih =>
    rw [assign, if_pos heq]
    exact .cons ⟨rfl, fun hne => absurd heq hne⟩ ih
  | case4 s siblings p points hne ih =>
    rw [assign, if_neg hne]
    exact .cons ⟨.refl s, fun _ => rfl⟩ ih

/-- The members of the other kind stay where they are. -/
theorem filter_assign_other (fixed : Bool) (siblings : List (Sibling α)) (points : List (Point α)) :
    (assign fixed siblings points).filter (·.fixed != fixed) =
      siblings.filter (·.fixed != fixed) := by
  induction siblings, points using assign.induct fixed with
  | case1 points => rw [assign]
  | case2 siblings hne => rw [assign]; exact hne
  | case3 s siblings p points heq ih =>
    rw [assign, if_pos heq, List.filter_cons_of_neg (by simpa using heq),
      List.filter_cons_of_neg (by simpa using heq), ih]
  | case4 s siblings p points hne ih =>
    rw [assign, if_neg hne, List.filter_cons_of_pos (by simpa using hne),
      List.filter_cons_of_pos (by simpa using hne), ih]

/-- The members of one kind get the offsets, in order. -/
theorem filter_assign_same {fixed : Bool} {siblings : List (Sibling α)} {points : List (Point α)}
    (h : points.length = (siblings.filter (·.fixed == fixed)).length) :
    (assign fixed siblings points).filter (·.fixed == fixed) =
      ((siblings.filter (·.fixed == fixed)).zip points).map fun e => e.1.atOffset e.2 := by
  induction siblings, points using assign.induct fixed with
  | case1 points => rw [assign]; rfl
  | case2 siblings hne =>
    have hnone : siblings.filter (·.fixed == fixed) = [] := List.length_eq_zero_iff.1 h.symm
    rw [assign, hnone]
    · rfl
    · exact hne
  | case3 s siblings p points heq ih =>
    rw [List.filter_cons_of_pos (by simpa using heq), List.length_cons, List.length_cons] at h
    rw [assign, if_pos heq, List.filter_cons_of_pos (by simpa using heq),
      List.filter_cons_of_pos (by simpa using heq), ih (Nat.succ_injective h)]
    rfl
  | case4 s siblings p points hne ih =>
    rw [List.filter_cons_of_neg (by simpa using hne)] at h
    rw [assign, if_neg hne, List.filter_cons_of_neg (by simpa using hne),
      List.filter_cons_of_neg (by simpa using hne), ih h]

/-- Offsets that are computed from the members of one kind are given to these. -/
theorem assign_filter_map (fixed : Bool) (siblings : List (Sibling α))
    (f : Sibling α → Point α) :
    assign fixed siblings ((siblings.filter (·.fixed == fixed)).map f) =
      siblings.map fun s => if s.fixed = fixed then s.atOffset (f s) else s := by
  induction siblings with
  | nil => rw [assign, List.map_nil]
  | cons s siblings ih =>
    by_cases heq : s.fixed = fixed
    · rw [List.filter_cons_of_pos (by simpa using heq), List.map_cons, assign, if_pos heq, ih,
        List.map_cons, if_pos heq]
      rfl
    · rw [List.filter_cons_of_neg (by simpa using heq), List.map_cons, if_neg heq, ← ih]
      cases (siblings.filter (·.fixed == fixed)).map f with
      | nil => cases siblings <;> simp only [assign]
      | cons p points => rw [assign, if_neg heq]

end Assign

/-- A member whose place the author chose is scaled with it. -/
def spreadBy (scale : α) (s : Sibling α) : Sibling α :=
  if s.fixed then s.atOffset (s.offset.scale scale) else s

omit [ExactScalar α] in
theorem spreadBy_shifted (scale : α) (s : Sibling α) : s.Shifted (s.spreadBy scale) := by
  unfold spreadBy
  split
  · rfl
  · exact .refl s

omit [ExactScalar α] in
theorem spreadBy_of_fixed (scale : α) {s : Sibling α} (h : s.fixed = true) :
    s.spreadBy scale = s.atOffset (s.offset.scale scale) := if_pos h

omit [ExactScalar α] in
theorem fixed_spreadBy (scale : α) (s : Sibling α) : (s.spreadBy scale).fixed = s.fixed := by
  unfold spreadBy
  split <;> rfl

omit [ExactScalar α] in
theorem rotation_spreadBy (scale : α) (s : Sibling α) :
    (s.spreadBy scale).rotation = s.rotation := by
  unfold spreadBy
  split <;> rfl

theorem spreadBy_one (s : Sibling α) : s.spreadBy 1 = s := by
  unfold spreadBy
  split
  · rw [Point.scale_one]
    rfl
  · rfl

end Sibling

open Sibling

variable {siblings : List (Sibling α)}

/-! ### The members of the author -/

/-- Members whose boxes do not overlap at some origins are apart there. -/
theorem apart_of_originBoxes (hregular : ∀ s ∈ siblings, s.Regular) {points : List (Point α)}
    (h : (originBoxes (siblings.map fun s => (s.node, s.box)) points).Pairwise
      fun a b => a.box.overlaps b.box = false) :
    ((siblings.zip points).map fun e => e.1.atOffset e.2).Pairwise Apart := by
  have hboxes : originBoxes (siblings.map fun s => (s.node, s.box)) points =
      (siblings.zip points).map fun e => ⟨e.1.node, e.2, e.1.box⟩ := by
    rw [originBoxes, List.zipWith_map_left, ← List.map_uncurry_zip_eq_zipWith]
    rfl
  rw [hboxes, List.pairwise_map] at h
  rw [List.pairwise_map]
  refine h.imp_of_mem fun {e e'} he he' hoverlap => ?_
  have hproper : ∀ e : Sibling α × Point α, (e.1.box.translate e.2.x e.2.y).Proper := fun e =>
    (Rect.proper_placeBox _ _).translate _ _
  have hfootprint : ∀ e ∈ siblings.zip points,
      (e.1.atOffset e.2).footprint.region = (e.1.box.translate e.2.x e.2.y).region := fun e he =>
    region_footprint_eq_translate (s := e.1.atOffset e.2)
      ((hregular _ (List.of_mem_zip he).1).shifted rfl)
  rw [Apart, hfootprint e he, hfootprint e' he']
  exact (Rect.overlaps_eq_false_iff (hproper e) (hproper e')).1 hoverlap

/-- The author placed several of some members, and they are pulled apart by a factor. -/
def SpreadsBy (maxScale : α) (siblings : List (Sibling α)) (scale : α) : Prop :=
  let authored := siblings.filter (·.fixed)
  2 ≤ authored.length ∧
    ∃ origins, separateNumbered maxScale (authored.map fun s => (s.node, s.box))
      (authored.map (·.offset)) = .ok (scale, origins)

theorem SpreadsBy.scale_cases {maxScale scale : α} (h : SpreadsBy maxScale siblings scale) :
    scale = 1 ∨ 1 < scale ∧ scale ≤ maxScale := by
  obtain ⟨-, origins, hseparate⟩ := h
  exact (separateNumbered_ok hseparate).2

/-- Spreading scales the places that the author chose by one factor, which is one where they
are few. -/
theorem spreadFixed_ok {maxScale scale : α} {spread : List (Sibling α)}
    (h : spreadFixed maxScale siblings = .ok (scale, spread)) :
    spread = siblings.map (·.spreadBy scale) ∧
      ((siblings.filter (·.fixed)).length < 2 ∧ scale = 1 ∨
        SpreadsBy maxScale siblings scale) := by
  have hkeep : siblings = siblings.map (·.spreadBy 1) := by
    simp only [spreadBy_one, List.map_id']
  unfold spreadFixed at h
  simp only at h
  split at h
  · next hfew =>
    cases h
    exact ⟨hkeep, .inl ⟨hfew, rfl⟩⟩
  · next hmany =>
    generalize hseparate : separateNumbered maxScale
      ((siblings.filter (·.fixed)).map fun s => (s.node, s.box))
      ((siblings.filter (·.fixed)).map (·.offset)) = result at h
    obtain failure | ⟨total, origins⟩ := result
    · cases h
    obtain ⟨horigins, hscale⟩ := separateNumbered_ok hseparate
    obtain ⟨rfl, rfl⟩ := Prod.mk.inj (Except.ok.inj h)
    refine ⟨?_, .inr ⟨Nat.not_lt.1 hmany, _, hseparate⟩⟩
    split
    · have hkind : siblings.filter (·.fixed) = siblings.filter (·.fixed == true) := by simp
      rw [horigins, List.map_map, hkind]
      exact assign_filter_map true siblings fun s => s.offset.scale total
    · next hle =>
      -- the places were not scaled at all
      rcases hscale with rfl | ⟨hlt, -⟩
      · exact hkeep
      · exact absurd hlt hle

/-- Members that are spread do not overlap. -/
theorem spreadFixed_apart (hunbounded : (1 : α) < unbounded) {maxScale scale : α}
    {spread : List (Sibling α)} (hregular : ∀ s ∈ siblings, s.Regular)
    (h : spreadFixed maxScale siblings = .ok (scale, spread)) :
    (spread.filter (·.fixed)).Pairwise Apart := by
  obtain ⟨rfl, hscale⟩ := spreadFixed_ok h
  simp only [List.filter_map, Function.comp_def, fixed_spreadBy]
  have hauthored : ∀ s ∈ siblings.filter (·.fixed), s.fixed = true ∧ s.Regular := fun s hs =>
    ⟨(List.mem_filter.1 hs).2, hregular s (List.mem_of_mem_filter hs)⟩
  unfold SpreadsBy at hscale
  generalize siblings.filter (·.fixed) = authored at hauthored hscale
  obtain ⟨hfew, -⟩ | ⟨-, origins, hseparate⟩ := hscale
  · match authored, hfew with
    | [], _ => exact .nil
    | [s], _ => exact List.pairwise_singleton _ _
  · have hapart := apart_of_originBoxes (fun s hs => (hauthored s hs).2)
      (separateNumbered_apart hunbounded hseparate)
    -- the boxes lie around the scaled places
    have hscaled : ∀ xs : List (Sibling α), (∀ s ∈ xs, s.fixed = true) →
        (xs.zip ((xs.map (·.offset)).map (·.scale scale))).map (fun e => e.1.atOffset e.2) =
          xs.map (·.spreadBy scale) := by
      intro xs hfixed
      induction xs with
      | nil => rfl
      | cons x xs ih =>
        obtain ⟨hx, hxs⟩ := List.forall_mem_cons.1 hfixed
        rw [List.map_cons, List.map_cons, List.zip_cons_cons, List.map_cons, ih hxs,
          List.map_cons, spreadBy_of_fixed scale hx]
    rwa [(separateNumbered_ok hseparate).1, hscaled authored fun s hs => (hauthored s hs).1]
      at hapart

/-- The author placed several of some members, and they cannot be pulled apart. -/
def FailToSpread (maxScale : α) (siblings : List (Sibling α)) (failure : SeparationFailure α) :
    Prop :=
  let authored := siblings.filter (·.fixed)
  2 ≤ authored.length ∧
    separateNumbered maxScale (authored.map fun s => (s.node, s.box))
      (authored.map (·.offset)) = .error failure

omit [ExactScalar α] in
theorem spreadFixed_eq_error_iff {maxScale : α} {failure : SeparationFailure α} :
    spreadFixed maxScale siblings = .error failure ↔ FailToSpread maxScale siblings failure := by
  unfold spreadFixed FailToSpread
  simp only
  split
  · next hfew => exact ⟨nofun, fun h => absurd h.1 (Nat.not_le.2 hfew)⟩
  · next hmany =>
    generalize separateNumbered maxScale _ _ = result
    cases result with
    | ok r => exact ⟨nofun, fun h => nomatch h.2⟩
    | error e =>
      constructor
      · intro h
        cases h
        exact ⟨Nat.not_lt.1 hmany, rfl⟩
      · rintro ⟨-, h⟩
        cases h
        rfl

/-- The factor by which the members that the author placed are spread: one where nothing has
to be done, or nothing can be. -/
def spreadFactor (maxScale : α) (siblings : List (Sibling α)) : α :=
  match spreadFixed maxScale siblings with
  | .ok (scale, _) => scale
  | .error _ => 1

/-- The factor is the one that is found for several members, and one for fewer, or when none
is found. -/
theorem spreadFactor_eq (maxScale : α) (siblings : List (Sibling α)) :
    (siblings.filter (·.fixed)).length < 2 ∧ spreadFactor maxScale siblings = 1 ∨
      SpreadsBy maxScale siblings (spreadFactor maxScale siblings) ∨
      (∃ failure, FailToSpread maxScale siblings failure) ∧ spreadFactor maxScale siblings = 1 := by
  unfold spreadFactor
  cases hspread : spreadFixed maxScale siblings with
  | ok r => exact (spreadFixed_ok hspread).2.imp_right .inl
  | error failure => exact .inr (.inr ⟨⟨failure, spreadFixed_eq_error_iff.1 hspread⟩, rfl⟩)

/-- The factor is one, or it is a larger one within the limit, for several members. -/
theorem spreadFactor_cases (maxScale : α) (siblings : List (Sibling α)) :
    spreadFactor maxScale siblings = 1 ∨
      SpreadsBy maxScale siblings (spreadFactor maxScale siblings) ∧
        1 < spreadFactor maxScale siblings ∧ spreadFactor maxScale siblings ≤ maxScale := by
  rcases spreadFactor_eq maxScale siblings with ⟨-, hone⟩ | hspreads | ⟨-, hone⟩
  · exact .inl hone
  · exact hspreads.scale_cases.imp_right fun hscale => ⟨hspreads, hscale⟩
  · exact .inl hone

theorem spreadFactor_single (maxScale : α) (s : Sibling α) : spreadFactor maxScale [s] = 1 := by
  rcases spreadFactor_cases maxScale [s] with hone | ⟨⟨hmany, -⟩, -⟩
  · exact hone
  · exact absurd (hmany.trans (List.length_filter_le (·.fixed) [s])) (Nat.not_le.2 Nat.one_lt_two)

/-! ### The free members -/

omit [ExactScalar α] in
/-- The members of the author's stay where they are. -/
theorem filter_arrangeInGrid_fixed (spacing : α) (siblings : List (Sibling α)) :
    (arrangeInGrid spacing siblings).filter (·.fixed) = siblings.filter (·.fixed) := by
  have hkind : ∀ xs : List (Sibling α), xs.filter (·.fixed != false) = xs.filter (·.fixed) :=
    fun xs => by simp
  rw [arrangeInGrid, ← hkind, filter_assign_other, hkind]

omit [ExactScalar α] in
/-- The other members are in a grid, which begins at the anchor. -/
theorem exists_arrangeInGrid_free (spacing : α) (siblings : List (Sibling α)) :
    ∃ order origins, (∀ i < (siblings.filter fun s => !s.fixed).length, i ∈ order) ∧
      gridLayout ((siblings.filter fun s => !s.fixed).map (·.box)) order spacing = origins ∧
      (arrangeInGrid spacing siblings).filter (fun s => !s.fixed) =
        ((siblings.filter fun s => !s.fixed).zip origins).map fun e =>
          e.1.atOffset (e.2.offset (gridAnchor spacing siblings).x
            (gridAnchor spacing siblings).y) := by
  have hkind : ∀ xs : List (Sibling α),
      xs.filter (·.fixed == false) = xs.filter fun s => !s.fixed := fun xs => by simp
  refine ⟨connectivityOrder (weightMatrix ((siblings.filter fun s => !s.fixed).map (·.nets)) :
    List (List α)), _, fun i hi => mem_connectivityOrder_weightMatrix (by simpa using hi), rfl, ?_⟩
  rw [arrangeInGrid, ← hkind, filter_assign_same, hkind, List.zip_map_right, List.map_map]
  · rfl
  · rw [hkind, List.length_map, length_gridLayout, List.length_map]

theorem region_footprint_offset {s : Sibling α} (h : s.Regular) (p anchor : Point α) :
    (s.atOffset (p.offset anchor.x anchor.y)).footprint.region =
      (gridBox Sibling.box anchor (s, p)).region := by
  have hmoved : (s.atOffset (p.offset anchor.x anchor.y)).Regular := h.shifted rfl
  rw [region_footprint_eq_translate hmoved, gridBox, ← Rect.translate_add]
  rfl

/-- In a grid beside the author's members, no members overlap. -/
theorem arrangeInGrid_apart {spacing : α} (hspacing : 0 ≤ value spacing)
    (hregular : ∀ s ∈ siblings, s.Regular)
    (hfixed : (siblings.filter (·.fixed)).Pairwise Apart) :
    (arrangeInGrid spacing siblings).Pairwise Apart := by
  obtain ⟨order, origins, horder, horigins, hfree⟩ := exists_arrangeInGrid_free spacing siblings
  have hauthor := filter_arrangeInGrid_fixed spacing siblings
  have hfreeRegular : ∀ e ∈ (siblings.filter fun s => !s.fixed).zip origins, e.1.Regular :=
    fun e he => hregular _ (List.mem_of_mem_filter (List.of_mem_zip he).1)
  generalize hanchor : gridAnchor spacing siblings = anchor at hfree
  refine pairwise_of_filter (·.fixed) (hauthor ▸ hfixed) ?_ ?_
  · rw [hfree, List.pairwise_map]
    refine (gridBox_gap hspacing horder horigins anchor).imp_of_mem fun {e e'} he he' hgap => ?_
    rw [Apart, region_footprint_offset (hfreeRegular e he),
      region_footprint_offset (hfreeRegular e' he')]
    exact hgap.of_le hspacing
  · -- the grid is to the right of the box around the author's members
    intro a ha b hb hafixed hbfree
    have ha' : a ∈ siblings.filter (·.fixed) := hauthor ▸ List.mem_filter.2 ⟨ha, hafixed⟩
    have hb' := hfree ▸ List.mem_filter.2 ⟨hb, by simp [hbfree]⟩
    obtain ⟨e, he, rfl⟩ := List.mem_map.1 hb'
    have hmem : a.footprint ∈ (siblings.filter (·.fixed)).map (·.footprint) :=
      List.mem_map_of_mem ha'
    obtain ⟨u, hu⟩ := isSome_unionBox? hmem
    have hx : anchor.x = u.right + spacing := by
      rw [← hanchor, gridAnchor, hu]
    have hcorner := (gridBox_corner hspacing horder horigins anchor he).1
    rw [hx, value_add] at hcorner
    rw [Apart, region_footprint_offset (hfreeRegular e he)]
    refine (Rect.gap_of_right_le ?_).mono (region_subset_unionBox? hu hmem) subset_rfl
    linarith

/-! ### All members -/

omit [ExactScalar α] in
theorem arrangeInGrid_shifted (spacing : α) (siblings : List (Sibling α)) :
    List.Forall₂ (fun s s' => s.Shifted s' ∧ (s.fixed = true → s' = s)) siblings
      (arrangeInGrid spacing siblings) :=
  (assign_shifted false siblings _).imp fun _ _ hs =>
    ⟨hs.1, fun hfixed => hs.2 (by rw [hfixed]; decide)⟩

omit [ExactScalar α] in
theorem length_forceLayout (config : PlacementConfig α) (weights : List (List α))
    (boxes : List (Placeable α)) : (forceLayout config weights boxes).length = boxes.length := by
  have hsteps : ∀ (rows : Array (Array α)) (steps : Nat) (bodies : Array (Body α)),
      (steps.repeat (forceStep config rows) bodies).size = bodies.size := by
    intro rows steps bodies
    induction steps with
    | zero => rfl
    | succ steps ih => rw [Nat.repeat, forceStep, Array.size_mapIdx, ih]
  simp only [forceLayout, List.length_zipWith, Array.length_toList, hsteps, List.size_toArray,
    List.length_mapIdx, Nat.min_self]

omit [ExactScalar α] in
theorem arrangeByForces_shifted (config : PlacementConfig α) (siblings : List (Sibling α)) :
    List.Forall₂ (fun s s' => s.Shifted s' ∧ (s.fixed = true → s' = s)) siblings
      (arrangeByForces config siblings) := by
  have hzip : ∀ (xs : List (Sibling α)) (points : List (Point α)), xs.length = points.length →
      List.Forall₂ (fun s s' => s.Shifted s' ∧ (s.fixed = true → s' = s)) xs
        (xs.zipWith (fun s p => if s.fixed then s else { s with offset := p }) points) := by
    intro xs
    induction xs with
    | nil => exact fun _ _ => .nil
    | cons s xs ih =>
      rintro (_ | ⟨p, points⟩) hlength
      · cases hlength
      · refine .cons ?_ (ih points (Nat.succ_injective hlength))
        dsimp only
        split
        · exact ⟨.refl s, fun _ => rfl⟩
        · next hfree => exact ⟨rfl, fun hfixed => absurd hfixed hfree⟩
  rw [arrangeByForces]
  exact hzip siblings _ (by rw [length_forceLayout, List.length_map])

omit [ExactScalar α] in
/-- The strategy moves members, none of the author's. -/
theorem arrangeFree_shifted (config : PlacementConfig α) (siblings : List (Sibling α)) :
    List.Forall₂ (fun s s' => s.Shifted s' ∧ (s.fixed = true → s' = s)) siblings
      (arrangeFree config siblings) := by
  rw [arrangeFree]
  split
  · exact arrangeInGrid_shifted config.spacing siblings
  · exact arrangeByForces_shifted config siblings

omit [ExactScalar α] in
theorem arrangeSiblings_cons_cons (config : PlacementConfig α) (s t : Sibling α)
    (siblings : List (Sibling α)) :
    arrangeSiblings config (s :: t :: siblings) =
      match spreadFixed config.maxFixedScale (s :: t :: siblings) with
      | .ok (scale, spread) => ⟨arrangeFree config spread, 1 < scale, none⟩
      | .error failure => ⟨arrangeFree config (s :: t :: siblings), false, some failure⟩ := rfl

/-- The members of a cluster are those of the author spread, with the others arranged. -/
theorem arrangeSiblings_siblings (config : PlacementConfig α) (s t : Sibling α)
    (siblings : List (Sibling α)) :
    (arrangeSiblings config (s :: t :: siblings)).siblings = arrangeFree config
      ((s :: t :: siblings).map
        (·.spreadBy (spreadFactor config.maxFixedScale (s :: t :: siblings)))) := by
  rw [arrangeSiblings_cons_cons, spreadFactor]
  cases hspread : spreadFixed config.maxFixedScale (s :: t :: siblings) with
  | ok r => exact congrArg (arrangeFree config) (spreadFixed_ok hspread).1
  | error failure => simp only [spreadBy_one, List.map_id']

/-- An arrangement moves members; those of the author are spread. -/
theorem arrangeSiblings_shifted (config : PlacementConfig α) (siblings : List (Sibling α)) :
    List.Forall₂
      (fun s s' => s.Shifted s' ∧
        (s.fixed = true → s' = s.spreadBy (spreadFactor config.maxFixedScale siblings)))
      siblings (arrangeSiblings config siblings).siblings := by
  match siblings with
  | [] => exact .nil
  | [s] =>
    have hsingle : (arrangeSiblings config [s]).siblings =
        [if s.fixed then s else s.atOffset .origin] := rfl
    rw [hsingle, spreadFactor_single]
    refine .cons ?_ .nil
    cases hfixed : s.fixed with
    | true => exact ⟨rfl, fun _ => s.spreadBy_one.symm⟩
    | false => exact ⟨rfl, fun h => nomatch h⟩
  | s :: t :: siblings =>
    rw [arrangeSiblings_siblings]
    have hfree := arrangeFree_shifted config ((s :: t :: siblings).map
      (·.spreadBy (spreadFactor config.maxFixedScale (s :: t :: siblings))))
    refine (List.forall₂_map_left_iff.1 hfree).imp fun s s' hs => ?_
    exact ⟨(s.spreadBy_shifted _).trans hs.1, fun hfixed => hs.2 ((s.fixed_spreadBy _).trans hfixed)⟩

/-- Members of the author are said to be spread when the factor is larger than one. -/
theorem arrangeSiblings_spread (config : PlacementConfig α) (siblings : List (Sibling α)) :
    (arrangeSiblings config siblings).spread =
      decide (1 < spreadFactor config.maxFixedScale siblings) := by
  have hone : decide ((1 : α) < 1) = false := decide_eq_false not_one_lt_one
  match siblings with
  | [] => exact hone.symm
  | [s] =>
    rw [spreadFactor_single]
    exact hone.symm
  | s :: t :: siblings =>
    rw [arrangeSiblings_cons_cons, spreadFactor]
    cases spreadFixed config.maxFixedScale (s :: t :: siblings) with
    | ok r => rfl
    | error failure => exact hone.symm

/-- The members of a cluster do not overlap, unless those of the author could not be
spread. -/
theorem arrangeSiblings_apart {config : PlacementConfig α} (hgrid : config.strategy = .grid)
    (hspacing : 0 ≤ value config.spacing) (hunbounded : (1 : α) < unbounded)
    (hregular : ∀ s ∈ siblings, s.Regular)
    (hfailure : (arrangeSiblings config siblings).failure = none) :
    (arrangeSiblings config siblings).siblings.Pairwise Apart := by
  match siblings with
  | [] => exact .nil
  | [s] => exact List.pairwise_singleton _ _
  | s :: t :: siblings =>
    rw [arrangeSiblings_cons_cons] at hfailure ⊢
    cases hspread : spreadFixed config.maxFixedScale (s :: t :: siblings) with
    | ok r =>
      simp only [arrangeFree, hgrid]
      refine arrangeInGrid_apart hspacing ?_ (spreadFixed_apart hunbounded hregular hspread)
      rw [(spreadFixed_ok hspread).1, List.forall_mem_map]
      exact fun s hs => (hregular s hs).shifted (s.spreadBy_shifted _)
    | error failure =>
      rw [hspread] at hfailure
      cases hfailure

/-! ### Failures -/

omit [ExactScalar α] in
/-- An arrangement fails exactly when it cannot spread the members of the author. -/
theorem arrangeSiblings_failure_iff {config : PlacementConfig α} {failure : SeparationFailure α} :
    (arrangeSiblings config siblings).failure = some failure ↔
      FailToSpread config.maxFixedScale siblings failure := by
  match siblings with
  | [] => exact ⟨nofun, fun h => absurd h.1 (Nat.not_le.2 Nat.zero_lt_two)⟩
  | [s] =>
    refine ⟨nofun, fun h => absurd h.1 (Nat.not_le.2 ?_)⟩
    exact Nat.lt_succ_of_le (List.length_filter_le (·.fixed) [s])
  | s :: t :: siblings =>
    rw [← spreadFixed_eq_error_iff, arrangeSiblings_cons_cons]
    cases spreadFixed config.maxFixedScale (s :: t :: siblings) with
    | ok r => exact ⟨nofun, nofun⟩
    | error e =>
      constructor
      · intro h
        cases h
        rfl
      · intro h
        cases h
        rfl

end Schematic
