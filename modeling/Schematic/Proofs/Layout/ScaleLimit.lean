import Schematic.Proofs.Layout.Separation

/-!
# When scaling gives up

Origins that need too large a factor are not scaled.  There are two ways to find that out:
the factor of some round takes the factor of all rounds together over the limit, or boxes
were still found to overlap in every round there is.  In the second case the factor is within
the limit, and the finding about it is not true.

A round spreads the origins of two boxes, and asks for the factor by which their middles are
to be spread.  Where the middles lie alike around the origins these are the same, so that one
round is enough.  Else scaling may bring two middles apart by much less than the factor.

## Main definitions

* `factorAfter` — the factor of some rounds together, if nothing ends them.
* `Crowded` — boxes overlap after some rounds, and can be pulled apart.
* `AboveLimit` — the finding that the factor is above the limit is true.

## Main statements

* `separateFrom_tooLarge_iff` — the rounds that end with too large a factor.
* `not_crowded_succ` — one round is enough where middles lie alike.
* `separateInPlace_tooLarge` — when too large a factor is reported.
* `offsetBoxes_not_aboveLimit` — it may be within the limit.
-/

namespace Schematic

variable {α : Type} [Scalar α] [ExactScalar α]

open ExactScalar
open scoped Scalar

/-! ### The factor of some rounds -/

/-- Boxes around origins that are scaled by a factor. -/
def scaledBoxes (shapes : List (Nat × Rect α)) (origins : List (Point α)) (factor : α) :
    List (OriginBox α) :=
  originBoxes shapes (origins.map (·.scale factor))

/-- The factor of the first rounds together, if nothing ends them. -/
def factorAfter (shapes : List (Nat × Rect α)) (origins : List (Point α)) : Nat → α
  | 0 => 1
  | k + 1 =>
      factorAfter shapes origins k *
        (neededFactor (scaledBoxes shapes origins (factorAfter shapes origins k)) *
          separationMargin)

/-- After some rounds boxes overlap, and the origins of those that do are apart: there is
reason for a further round. -/
structure Crowded (shapes : List (Nat × Rect α)) (origins : List (Point α)) (k : Nat) : Prop where
  /-- Some boxes overlap. -/
  overlap : overlapping (scaledBoxes shapes origins (factorAfter shapes origins k)) ≠ []
  /-- No two boxes that overlap have the same origin. -/
  apart : ∀ p ∈ overlapping (scaledBoxes shapes origins (factorAfter shapes origins k)),
    p.1.origin.near p.2.origin 1e-9 = false

variable {maxScale : α} {shapes : List (Nat × Rect α)} {origins : List (Point α)} {k : Nat}

theorem value_separationMargin : value (separationMargin : α) = 1.001 := by
  rw [separationMargin, value_decimal]
  norm_num

/-- No round asks for less than it has. -/
theorem one_le_neededFactor (boxes : List (OriginBox α)) : 1 ≤ value (neededFactor boxes) := by
  have hstart := (le_foldl_max (fun p => pairFactor p.1.box p.2.box) (overlapping boxes) (1 : α)).1
  rwa [value_one] at hstart

theorem value_factorAfter_succ : value (factorAfter shapes origins (k + 1)) =
    value (factorAfter shapes origins k) *
      (value (neededFactor (scaledBoxes shapes origins (factorAfter shapes origins k))) *
        1.001) := by
  rw [factorAfter, value_mul, value_mul, value_separationMargin]

theorem one_le_factorAfter (shapes : List (Nat × Rect α)) (origins : List (Point α)) (k : Nat) :
    1 ≤ value (factorAfter shapes origins k) := by
  induction k with
  | zero =>
    show 1 ≤ value (1 : α)
    rw [value_one]
  | succ k ih =>
    have hneeded := one_le_neededFactor
      (scaledBoxes shapes origins (factorAfter shapes origins k))
    rw [value_factorAfter_succ]
    nlinarith

/-! ### The end of the rounds -/

/-- A round that finds boxes to pull apart scales, as long as the limit allows it. -/
theorem separateFrom_crowded (hunbounded : (1 : α) < unbounded) (h : Crowded shapes origins k)
    (rounds : Nat) :
    separateFrom maxScale shapes (rounds + 1) (factorAfter shapes origins k)
        (origins.map (·.scale (factorAfter shapes origins k))) =
      if maxScale < factorAfter shapes origins (k + 1) then
        .error (.tooLarge (factorAfter shapes origins (k + 1)))
      else
        separateFrom maxScale shapes rounds (factorAfter shapes origins (k + 1))
          (origins.map (·.scale (factorAfter shapes origins (k + 1)))) := by
  have hapart : (overlapping (scaledBoxes shapes origins (factorAfter shapes origins k))).find?
      (fun p => p.1.origin.near p.2.origin 1e-9) = none := by
    rw [List.find?_eq_none]
    intro p hp
    rw [h.apart p hp]
    exact Bool.false_ne_true
  have hneeded : ¬neededFactor (scaledBoxes shapes origins (factorAfter shapes origins k)) ≤ 1 :=
    fun hle => h.overlap ((neededFactor_le_one_iff hunbounded).1 hle)
  rw [separateFrom]
  split
  · next p hp => cases hapart.symm.trans hp
  · change (if neededFactor (scaledBoxes shapes origins (factorAfter shapes origins k)) ≤ 1 then _
      else _) = _
    rw [if_neg hneeded, factorAfter, ← map_scale_scale]
    rfl

/-- A round that finds nothing to pull apart, or two boxes on one origin, asks for no factor. -/
theorem separateFrom_ne_tooLarge (hunbounded : (1 : α) < unbounded)
    (h : ¬Crowded shapes origins k) (rounds : Nat) (s : α) :
    separateFrom maxScale shapes (rounds + 1) (factorAfter shapes origins k)
        (origins.map (·.scale (factorAfter shapes origins k))) ≠ .error (.tooLarge s) := by
  rw [separateFrom]
  split
  · simp
  · next hnone =>
    have hoverlap :
        overlapping (scaledBoxes shapes origins (factorAfter shapes origins k)) = [] := by
      by_contra hne
      refine h ⟨hne, fun p hp => ?_⟩
      simpa using List.find?_eq_none.1 hnone p hp
    have hneeded := (neededFactor_le_one_iff hunbounded).2 hoverlap
    change (if neededFactor (scaledBoxes shapes origins (factorAfter shapes origins k)) ≤ 1 then _
      else _) ≠ _
    rw [if_pos hneeded]
    simp

/-- The rounds end with too large a factor when all of them find boxes to pull apart, up to the
one that goes over the limit, or up to the last one. -/
theorem separateFrom_tooLarge_iff (maxScale : α) (shapes : List (Nat × Rect α))
    (origins : List (Point α)) (hunbounded : (1 : α) < unbounded) (rounds k : Nat) (s : α) :
    separateFrom maxScale shapes rounds (factorAfter shapes origins k)
        (origins.map (·.scale (factorAfter shapes origins k))) = .error (.tooLarge s) ↔
      ∃ m, k ≤ m ∧ m ≤ k + rounds ∧ s = factorAfter shapes origins m ∧
        (∀ i, k ≤ i → i < m → Crowded shapes origins i) ∧
        (∀ i, k < i → i < m → factorAfter shapes origins i ≤ maxScale) ∧
        (m = k + rounds ∨ k < m ∧ maxScale < s) := by
  -- by induction on the rounds that are left, after any number of rounds
  induction rounds generalizing k with
  | zero =>
    constructor
    · intro h
      cases h
      exact ⟨k, le_rfl, le_rfl, rfl, by omega, by omega, .inl rfl⟩
    · rintro ⟨m, hkm, hmk, rfl, -⟩
      rw [Nat.le_antisymm hmk hkm]
      rfl
  | succ rounds ih =>
    by_cases hcrowded : Crowded shapes origins k
    case neg =>
      constructor
      · intro h
        exact absurd h (separateFrom_ne_tooLarge hunbounded hcrowded rounds s)
      · rintro ⟨m, hkm, -, -, hall, -, hend⟩
        exact absurd (hall k le_rfl (by omega)) hcrowded
    case pos =>
      rw [separateFrom_crowded hunbounded hcrowded]
      split
      · next hover =>
        -- this round goes over the limit
        constructor
        · intro h
          cases h
          refine ⟨k + 1, by omega, by omega, rfl, ?_, by omega, .inr ⟨by omega, hover⟩⟩
          intro i hki hik
          rwa [Nat.le_antisymm (Nat.le_of_lt_succ hik) hki]
        · rintro ⟨m, hkm, hmk, rfl, -, hwithin, hend⟩
          obtain rfl : m = k + 1 := by
            by_contra hne
            have hle := hwithin (k + 1) (by omega) (by omega)
            rw [lt_iff] at hover
            rw [le_iff] at hle
            exact absurd hle (not_le.2 hover)
          rfl
      · next hwithin =>
        -- the rounds after this one decide
        rw [ih (k + 1)]
        constructor
        · rintro ⟨m, hkm, hmk, hs, hall, hlimit, hend⟩
          refine ⟨m, by omega, by omega, hs, ?_, ?_, hend.imp (by omega) (And.imp_left (by omega))⟩
          · intro i hki hik
            rcases Nat.eq_or_lt_of_le hki with rfl | hlt
            · exact hcrowded
            · exact hall i hlt hik
          · intro i hki hik
            rcases Nat.eq_or_lt_of_le hki with rfl | hlt
            · rwa [le_iff, ← not_lt, ← lt_iff]
            · exact hlimit i hlt hik
        · rintro ⟨m, hkm, hmk, rfl, hall, hlimit, hend⟩
          refine ⟨m, by omega, by omega, rfl, fun i hki => hall i (by omega),
            fun i hki => hlimit i (by omega), ?_⟩
          rcases hend with hend | ⟨hlt, hover⟩
          · exact .inl (by omega)
          · refine .inr ⟨?_, hover⟩
            by_contra hle
            obtain rfl : m = k + 1 := by omega
            exact hwithin hover

/-! ### Middles that lie alike -/

/-- Two boxes overlap when their middles are closer than their sizes allow on both axes. -/
theorem overlaps_iff_center {a b : Rect α} : a.overlaps b = true ↔
    |value a.center.x - value b.center.x| < (value a.w + value b.w) / 2 ∧
      |value a.center.y - value b.center.y| < (value a.h + value b.h) / 2 := by
  simp only [Rect.overlaps, Rect.right, Rect.bottom, Rect.center, Bool.and_eq_true,
    decide_eq_true_eq, lt_iff, value_add, value_half, abs_lt]
  constructor
  · rintro ⟨⟨⟨hleft, hright⟩, htop⟩, hbottom⟩
    refine ⟨⟨?_, ?_⟩, ?_, ?_⟩ <;> linarith
  · rintro ⟨⟨hleft, hright⟩, htop, hbottom⟩
    refine ⟨⟨⟨?_, ?_⟩, ?_⟩, ?_⟩ <;> linarith

/-- A box with its origin scaled once more. -/
def OriginBox.scale (factor : α) (b : OriginBox α) : OriginBox α :=
  { b with origin := b.origin.scale factor }

theorem scaledBoxes_mul (shapes : List (Nat × Rect α)) (origins : List (Point α)) (s t : α) :
    scaledBoxes shapes origins (s * t) = (scaledBoxes shapes origins s).map (·.scale t) := by
  rw [scaledBoxes, scaledBoxes, ← map_scale_scale, originBoxes, originBoxes, List.zipWith_map_right,
    List.map_zipWith]
  rfl

/-- A factor that stands for none is only avoided by an axis along which there is a distance. -/
theorem axisFactor_mul {needed distance : α}
    (h : value (axisFactor needed distance) < value (unbounded : α)) :
    0 < value distance ∧ value (axisFactor needed distance) * value distance = value needed := by
  unfold axisFactor at *
  split at h
  · next hdistance =>
    have hpos : 0 < value distance := by
      rw [lt_iff, value_decimal] at hdistance
      exact lt_trans (by norm_num) hdistance
    rw [if_pos hdistance, value_div _ _ hpos.ne']
    exact ⟨hpos, div_mul_cancel₀ _ hpos.ne'⟩
  · exact absurd h (lt_irrefl _)

/-- More than the factor for an axis spreads middles by more than is needed along it. -/
theorem lt_mul_of_axisFactor_lt {needed distance t : α}
    (hlt : value (axisFactor needed distance) < value t)
    (hreal : value (axisFactor needed distance) < value (unbounded : α)) :
    value needed < value distance * value t := by
  obtain ⟨hdistance, hneeded⟩ := axisFactor_mul hreal
  calc value needed = value (axisFactor needed distance) * value distance := hneeded.symm
    _ < value t * value distance := mul_lt_mul_of_pos_right hlt hdistance
    _ = value distance * value t := mul_comm _ _

section Alike

variable {a b : OriginBox α} (hmiddle : a.shape.center = b.shape.center)

include hmiddle in
/-- Where the middles lie alike around two origins they are as far apart as the origins. -/
theorem center_sub_center :
    value a.box.center.x - value b.box.center.x = value a.origin.x - value b.origin.x ∧
      value a.box.center.y - value b.box.center.y = value a.origin.y - value b.origin.y := by
  have hx := congrArg (fun p : Point α => value p.x) hmiddle
  have hy := congrArg (fun p : Point α => value p.y) hmiddle
  simp only [OriginBox.box, Rect.translate, Rect.center, value_add, value_half] at hx hy ⊢
  constructor <;> linarith

include hmiddle in
/-- Then the factor that two boxes ask for pulls them apart, and two boxes that were apart stay
so. -/
theorem scale_apart {t : α} (hone : 1 ≤ value t)
    (hfactor : a.box.overlaps b.box = true → value (pairFactor a.box b.box) < value t ∧
      value (pairFactor a.box b.box) < value (unbounded : α)) :
    (a.scale t).box.overlaps (b.scale t).box = false := by
  obtain ⟨hx, hy⟩ := center_sub_center hmiddle
  obtain ⟨hx', hy'⟩ := center_sub_center (a := a.scale t) (b := b.scale t) hmiddle
  have hxt : value (a.scale t).box.center.x - value (b.scale t).box.center.x =
      (value a.box.center.x - value b.box.center.x) * value t := by
    rw [hx', hx]
    simp only [OriginBox.scale, Point.scale, value_mul]
    ring
  have hyt : value (a.scale t).box.center.y - value (b.scale t).box.center.y =
      (value a.box.center.y - value b.box.center.y) * value t := by
    rw [hy', hy]
    simp only [OriginBox.scale, Point.scale, value_mul]
    ring
  have hpos : 0 < value t := lt_of_lt_of_le one_pos hone
  rw [Bool.eq_false_iff]
  intro hoverlap
  -- what overlaps now has overlapped before, when the middles were closer
  rw [overlaps_iff_center, hxt, hyt, abs_mul, abs_mul, abs_of_pos hpos] at hoverlap
  change _ < (value a.box.w + value b.box.w) / 2 ∧ _ < (value a.box.h + value b.box.h) / 2
    at hoverlap
  obtain ⟨hwidth, hheight⟩ := hoverlap
  have hbefore : a.box.overlaps b.box = true := by
    rw [overlaps_iff_center]
    constructor
    · exact lt_of_le_of_lt (le_mul_of_one_le_right (abs_nonneg _) hone) hwidth
    · exact lt_of_le_of_lt (le_mul_of_one_le_right (abs_nonneg _) hone) hheight
  obtain ⟨hlt, hreal⟩ := hfactor hbefore
  rw [pairFactor, value_min] at hlt hreal
  -- along the axis where less is needed the factor is enough
  rcases min_choice (value (axisFactor ((a.box.w + b.box.w) / 2)
      (Scalar.abs (a.box.center.x - b.box.center.x))))
    (value (axisFactor ((a.box.h + b.box.h) / 2)
      (Scalar.abs (a.box.center.y - b.box.center.y)))) with hmin | hmin
  · have hspread := lt_mul_of_axisFactor_lt (hmin ▸ hlt) (hmin ▸ hreal)
    rw [value_half, value_add, value_abs, value_sub] at hspread
    exact absurd hwidth (not_lt.2 hspread.le)
  · have hspread := lt_mul_of_axisFactor_lt (hmin ▸ hlt) (hmin ▸ hreal)
    rw [value_half, value_add, value_abs, value_sub] at hspread
    exact absurd hheight (not_lt.2 hspread.le)

end Alike

/-- A round asks for at least the factor of any two boxes that overlap. -/
theorem pairFactor_le_neededFactor {boxes : List (OriginBox α)} {q : OriginBox α × OriginBox α}
    (hq : q ∈ overlapping boxes) :
    value (pairFactor q.1.box q.2.box) ≤ value (neededFactor boxes) := by
  have hlargest := (le_foldl_max (fun p => pairFactor p.1.box p.2.box) (overlapping boxes)
    (1 : α)).2 q hq
  rwa [neededFactor]

omit [ExactScalar α] in
theorem shape_mem_of_mem_scaledBoxes {factor : α} {b : OriginBox α}
    (hb : b ∈ scaledBoxes shapes origins factor) : ∃ s ∈ shapes, b.shape = s.2 := by
  rw [scaledBoxes, originBoxes, ← List.map_uncurry_zip_eq_zipWith] at hb
  obtain ⟨⟨s, o⟩, hso, rfl⟩ := List.mem_map.1 hb
  exact ⟨s, (List.of_mem_zip hso).1, rfl⟩

/-- Where the middles of all boxes lie alike, nothing overlaps after a round that stays within
the limit. -/
theorem not_crowded_succ (hlimit : maxScale < (unbounded : α)) {middle : Point α}
    (hmiddle : ∀ s ∈ shapes, s.2.center = middle)
    (hwithin : factorAfter shapes origins (k + 1) ≤ maxScale) :
    ¬Crowded shapes origins (k + 1) := by
  intro hcrowded
  let boxes := scaledBoxes shapes origins (factorAfter shapes origins k)
  obtain ⟨p, hp⟩ := List.exists_mem_of_ne_nil _ hcrowded.overlap
  obtain ⟨hpair, hoverlap⟩ := List.mem_filter.1 hp
  -- the two boxes are boxes of the round before, scaled
  rw [factorAfter, scaledBoxes_mul, pairs_map] at hpair
  obtain ⟨q, hq, rfl⟩ := List.mem_map.1 hpair
  have hsub := mem_pairs_iff.1 hq
  have hshape : ∀ b ∈ boxes, b.shape.center = middle := by
    intro b hb
    obtain ⟨s, hs, heq⟩ := shape_mem_of_mem_scaledBoxes hb
    rw [heq, hmiddle s hs]
  have halike : q.1.shape.center = q.2.shape.center :=
    (hshape q.1 (hsub.subset (by simp))).trans (hshape q.2 (hsub.subset (by simp))).symm
  have hone := one_le_neededFactor boxes
  have hbefore := one_le_factorAfter shapes origins k
  have hvalue : value (neededFactor boxes * separationMargin) =
      value (neededFactor boxes) * 1.001 := by
    rw [value_mul, value_separationMargin]
  have hround : 1 ≤ value (neededFactor boxes * separationMargin) := by
    rw [hvalue]
    linarith
  -- the round asks for more than any two boxes do, and for no more than the limit
  have hfactor : q.1.box.overlaps q.2.box = true →
      value (pairFactor q.1.box q.2.box) < value (neededFactor boxes * separationMargin) ∧
        value (pairFactor q.1.box q.2.box) < value (unbounded : α) := by
    intro hq'
    have hlargest := pairFactor_le_neededFactor (List.mem_filter.2 ⟨hq, hq'⟩)
    rw [le_iff, value_factorAfter_succ] at hwithin
    rw [lt_iff] at hlimit
    rw [hvalue]
    constructor
    · linarith
    · nlinarith
  rw [scale_apart halike hround hfactor] at hoverlap
  cases hoverlap

/-! ### What is reported -/

/-- When too large a factor is reported it is above the limit. -/
def AboveLimit (maxScale : α) (origins : List (Point α)) (boxes : List (Rect α)) : Prop :=
  ∀ s, (separateInPlace maxScale origins boxes).1 = .error (.tooLarge s) → maxScale < s

omit [ExactScalar α] in
theorem separateInPlace_error_iff {origins : List (Point α)} {boxes : List (Rect α)}
    {failure : SeparationFailure α} :
    (separateInPlace maxScale origins boxes).1 = .error failure ↔
      separateFrom maxScale (boxes.mapIdx fun i r => (i, r)) separationRounds 1 origins =
        .error failure := by
  rw [separateInPlace, separate, separateNumbered]
  split
  · next h => simp [h]
  · next h => simp [h]

/-- Too large a factor is reported when every round up to some one finds boxes to pull apart, and
either that round goes over the limit or it is the last one there is.  It is the factor of these
rounds together, within the limit after all rounds but that one.  Where the middles of the boxes
lie alike around their origins it is above the limit; else the last round may end within it. -/
theorem separateInPlace_tooLarge (hunbounded : (1 : α) < unbounded)
    (hlimit : maxScale < (unbounded : α)) (origins : List (Point α)) (boxes : List (Rect α)) :
    let shapes := boxes.mapIdx fun i r => (i, r)
    (∀ s, (separateInPlace maxScale origins boxes).1 = .error (.tooLarge s) ↔
      ∃ k, 0 < k ∧ k ≤ separationRounds ∧ s = factorAfter shapes origins k ∧
        (∀ i < k, Crowded shapes origins i) ∧
        (∀ i, 0 < i → i < k → factorAfter shapes origins i ≤ maxScale) ∧
        (k = separationRounds ∨ maxScale < s)) ∧
    ∀ middle, (∀ r ∈ boxes, r.center = middle) → AboveLimit maxScale origins boxes := by
  intro shapes
  have hreported : ∀ s, (separateInPlace maxScale origins boxes).1 = .error (.tooLarge s) ↔
      ∃ k, 0 < k ∧ k ≤ separationRounds ∧ s = factorAfter shapes origins k ∧
        (∀ i < k, Crowded shapes origins i) ∧
        (∀ i, 0 < i → i < k → factorAfter shapes origins i ≤ maxScale) ∧
        (k = separationRounds ∨ maxScale < s) := by
    intro s
    have hrounds := separateFrom_tooLarge_iff maxScale shapes origins hunbounded
      separationRounds 0 s
    rw [factorAfter, map_scale_one, Nat.zero_add] at hrounds
    rw [separateInPlace_error_iff, hrounds]
    constructor
    · rintro ⟨k, -, hk, hs, hall, hwithin, hend⟩
      have hpos : 0 < k := hend.elim (fun h => h ▸ by decide) And.left
      exact ⟨k, hpos, hk, hs, fun i => hall i (Nat.zero_le i), hwithin, hend.imp_right And.right⟩
    · rintro ⟨k, hpos, hk, hs, hall, hwithin, hend⟩
      exact ⟨k, Nat.zero_le k, hk, hs, fun i _ => hall i, hwithin,
        hend.imp_right fun h => ⟨hpos, h⟩⟩
  refine ⟨hreported, fun middle hmiddle s hs => ?_⟩
  obtain ⟨k, hpos, -, -, hall, hwithin, rfl | hover⟩ := (hreported s).1 hs
  · -- all rounds would have found boxes to pull apart, but the second one does not
    have hcenter : ∀ shape ∈ shapes, shape.2.center = middle := by
      intro shape hshape
      obtain ⟨i, hi, rfl⟩ := List.mem_mapIdx.1 hshape
      exact hmiddle _ (List.getElem_mem _)
    exact absurd (hall 1 (by decide))
      (not_crowded_succ hlimit hcenter (hwithin 1 Nat.one_pos (by decide)))
  · exact hover

/-- The factor of a report of too large a one. -/
def tooLarge? : Except (SeparationFailure α) α → Option α
  | .error (.tooLarge s) => some s
  | _ => none

omit [Scalar α] [ExactScalar α] in
theorem tooLarge?_eq_some {result : Except (SeparationFailure α) α} {s : α}
    (h : tooLarge? result = some s) : result = .error (.tooLarge s) := by
  unfold tooLarge? at h
  split at h
  · rw [Option.some.inj h]
  · cases h

/-- Two squares around origins that are close together need a factor of forty. -/
theorem closeSquares_aboveLimit :
    (1 : WideRat) < unbounded ∧ (10 : WideRat) < unbounded ∧
      (∀ r ∈ ([⟨-2, -2, 4, 4⟩, ⟨-2, -2, 4, 4⟩] : List (Rect WideRat)), r.center = ⟨0, 0⟩) ∧
      (separateInPlace (10 : WideRat) [⟨0.1, 0⟩, ⟨0.2, 0⟩] [⟨-2, -2, 4, 4⟩, ⟨-2, -2, 4, 4⟩]).1 =
        .error (.tooLarge 40.04) ∧ (10 : WideRat) < 40.04 := by
  have hunbounded : (1 : WideRat) < unbounded := by decide +kernel
  have hlimit : (10 : WideRat) < unbounded := by decide +kernel
  have hmiddle : ∀ r ∈ ([⟨-2, -2, 4, 4⟩, ⟨-2, -2, 4, 4⟩] : List (Rect WideRat)),
      r.center = ⟨0, 0⟩ := by
    have hzero : (-2 + 4 / 2 : WideRat) = 0 := (beq_iff _ _).1 (by decide +kernel)
    intro r hr
    obtain rfl : r = ⟨-2, -2, 4, 4⟩ := by simpa using hr
    exact congrArg₂ Point.mk hzero hzero
  have hreported : (separateInPlace (10 : WideRat) [⟨0.1, 0⟩, ⟨0.2, 0⟩]
      [⟨-2, -2, 4, 4⟩, ⟨-2, -2, 4, 4⟩]).1 = .error (.tooLarge 40.04) := by
    have hfactor : (tooLarge? (separateInPlace (10 : WideRat) [⟨0.1, 0⟩, ⟨0.2, 0⟩]
        [⟨-2, -2, 4, 4⟩, ⟨-2, -2, 4, 4⟩]).1).any (· == 40.04) = true := by decide +kernel
    obtain ⟨s, hs, hfactor⟩ := (Option.any_eq_true _ _).1 hfactor
    rw [← (beq_iff _ _).1 hfactor]
    exact tooLarge?_eq_some hs
  exact ⟨hunbounded, hlimit, hmiddle, hreported,
    (separateInPlace_tooLarge hunbounded hlimit _ _).2 _ hmiddle _ hreported⟩

/-- Two wide boxes, one of which lies beside its origin.  The origins are much closer together
than the middles, so that every round gains less than it asks for; a factor of two would do. -/
theorem offsetBoxes_not_aboveLimit :
    ¬AboveLimit (10 : WideRat) [⟨0, 0⟩, ⟨1, 0⟩] [⟨-6, -1, 12, 2⟩, ⟨4, -1, 12, 2⟩] := by
  intro h
  have hfactor : (tooLarge? (separateInPlace (10 : WideRat) [⟨0, 0⟩, ⟨1, 0⟩]
      [⟨-6, -1, 12, 2⟩, ⟨4, -1, 12, 2⟩]).1).any (fun s => s < 2) = true := by decide +kernel
  obtain ⟨s, hs, hfactor⟩ := (Option.any_eq_true _ _).1 hfactor
  have hover : (10 : WideRat) < s := h s (tooLarge?_eq_some hs)
  have hwithin : s < 2 := of_decide_eq_true hfactor
  rw [lt_iff, value_literal] at hover hwithin
  norm_num at hover hwithin
  linarith

end Schematic
