import Schematic.Layout.Separation
import Schematic.Proofs.Number.Exact

/-!
# Spread boxes do not overlap

Two boxes that overlap need a factor larger than one, as long as "no factor is
large enough" stands for more than that.  So a round of scaling is only the last
one when nothing overlaps any more, and when the origins were scaled at all, the
factor of all rounds together is larger than one.

Whatever the outcome, the last round has seen the origins scaled by one factor,
which is that of all rounds before it.

## Main definitions

* `Point.scale` — a point scaled about the corner of the sheet.
* `neededFactor` — the factor that a round asks for.
* `LastRound` — the ways in which the rounds end.
* `boxesAt` — boxes around their origins.

## Main statements

* `one_lt_pairFactor` — boxes that overlap have to be pulled apart.
* `separateFrom_lastRound` — the rounds together scale by one factor.
* `separateNumbered_ok`, `separateNumbered_apart` — what is scaled, and that nothing
  overlaps then.
* `separateInPlace_scales` — scaling the origins of boxes in place.
-/

namespace Schematic

variable {α : Type} [Scalar α] [ExactScalar α]

open ExactScalar
open scoped Scalar

theorem one_lt_axisFactor (hunbounded : (1 : α) < unbounded) {needed distance : α}
    (h : value distance < value needed) : 1 < value (axisFactor needed distance) := by
  unfold axisFactor
  split
  · next hdistance =>
    have hpos : 0 < value distance := by
      rw [lt_iff, value_decimal] at hdistance
      exact lt_trans (by norm_num) hdistance
    rwa [value_div _ _ hpos.ne', one_lt_div hpos]
  · rwa [lt_iff, value_one] at hunbounded

/-- Boxes that overlap are pulled apart by a factor larger than one only. -/
theorem one_lt_pairFactor (hunbounded : (1 : α) < unbounded) {a b : Rect α}
    (h : a.overlaps b = true) : 1 < value (pairFactor a b) := by
  simp only [Rect.overlaps, Rect.right, Rect.bottom, Bool.and_eq_true, decide_eq_true_eq, lt_iff,
    value_add] at h
  obtain ⟨⟨⟨hleft, hright⟩, htop⟩, hbottom⟩ := h
  rw [pairFactor, value_min, lt_min_iff]
  constructor
  all_goals
    refine one_lt_axisFactor hunbounded ?_
    simp only [Rect.center, value_abs, value_sub, value_add, value_half, abs_lt]
    constructor <;> linarith

omit [ExactScalar α] in
theorem overlapping_eq_nil_iff {boxes : List (OriginBox α)} :
    overlapping boxes = [] ↔ boxes.Pairwise fun a b => a.box.overlaps b.box = false := by
  rw [← forall_mem_pairs_iff (R := fun a b : OriginBox α => a.box.overlaps b.box = false),
    overlapping, List.filter_eq_nil_iff]
  simp only [Bool.not_eq_true]

/-! ### Scaling -/

/-- A point scaled about the corner of the sheet. -/
def Point.scale (factor : α) (p : Point α) : Point α := ⟨p.x * factor, p.y * factor⟩

/-- A factor of one spreads nothing. -/
theorem not_one_lt_one : ¬(1 : α) < 1 := by
  rw [lt_iff]
  exact lt_irrefl _

theorem mul_one_exact (a : α) : a * 1 = a := value_injective (by rw [value_mul, value_one, mul_one])

theorem one_mul_exact (a : α) : 1 * a = a := value_injective (by rw [value_mul, value_one, one_mul])

theorem Point.scale_one (p : Point α) : p.scale 1 = p := by
  rw [scale, mul_one_exact, mul_one_exact]

theorem Point.scale_origin (factor : α) : (origin : Point α).scale factor = origin := by
  have hzero : (0 : α) * factor = 0 := by
    apply value_injective
    rw [value_mul, value_zero, zero_mul]
  exact congrArg₂ Point.mk hzero hzero

theorem map_scale_one (points : List (Point α)) : points.map (·.scale 1) = points := by
  simp only [Point.scale_one, List.map_id']

theorem mul_assoc_exact (a b c : α) : a * b * c = a * (b * c) :=
  value_injective (by simp only [value_mul, mul_assoc])

/-- Scaling twice is scaling by the product. -/
theorem map_scale_scale (points : List (Point α)) (a b : α) :
    (points.map (·.scale a)).map (·.scale b) = points.map (·.scale (a * b)) := by
  have hpoint : ∀ p : Point α, (p.scale a).scale b = p.scale (a * b) := by
    intro p
    simp only [Point.scale, mul_assoc_exact]
  rw [List.map_map]
  exact List.map_congr_left fun p _ => hpoint p

/-! ### The rounds -/

/-- The factor that a round asks for: it pulls apart every two boxes that overlap. -/
def neededFactor (boxes : List (OriginBox α)) : α :=
  (overlapping boxes).foldl (fun m p => Scalar.max m (pairFactor p.1.box p.2.box)) 1

/-- No factor is asked for exactly when nothing overlaps. -/
theorem neededFactor_le_one_iff (hunbounded : (1 : α) < unbounded) {boxes : List (OriginBox α)} :
    neededFactor boxes ≤ 1 ↔ overlapping boxes = [] := by
  constructor
  · intro hle
    rw [le_iff, value_one] at hle
    refine List.eq_nil_iff_forall_not_mem.2 fun p hp => ?_
    have hoverlap : p.1.box.overlaps p.2.box = true := (List.mem_filter.1 hp).2
    have hfactor := one_lt_pairFactor hunbounded hoverlap
    have hlargest := (le_foldl_max (fun p => pairFactor p.1.box p.2.box) _ (1 : α)).2 p hp
    exact absurd (hlargest.trans hle) (not_le.2 hfactor)
  · intro hnone
    rw [neededFactor, hnone, List.foldl_nil, le_iff]

/-- A round that asks for a factor scales by more than one. -/
theorem one_lt_of_needed {needed : α} (h : ¬needed ≤ 1) : 1 < needed * separationMargin := by
  have hmargin : value (separationMargin : α) = 1.001 := by
    rw [separationMargin, value_decimal]
    norm_num
  rw [le_iff, value_one, not_le] at h
  rw [lt_iff, value_one, value_mul, hmargin]
  linarith

/-- The ways in which the rounds of scaling end, when the origins have been scaled by `total`
before. -/
inductive LastRound (maxScale : α) (shapes : List (Nat × Rect α)) (total : α)
    (origins : List (Point α)) : Except (SeparationFailure α) (α × List (Point α)) → Prop
  /-- No factor is asked for. -/
  | apart (needed : neededFactor (originBoxes shapes origins) ≤ 1) :
      LastRound maxScale shapes total origins (.ok (total, origins))
  /-- Two boxes overlap whose origins agree. -/
  | coincident {p : OriginBox α × OriginBox α} (overlap : p ∈ overlapping (originBoxes shapes origins))
      (near : p.1.origin.near p.2.origin 1e-9 = true) :
      LastRound maxScale shapes total origins (.error (.coincident p.1.index p.2.index))
  /-- The factor of all rounds would be too large. -/
  | tooLarge {scale : α} (limit : maxScale < scale) :
      LastRound maxScale shapes total origins (.error (.tooLarge scale))
  /-- There are no more rounds. -/
  | exhausted : LastRound maxScale shapes total origins (.error (.tooLarge total))

variable {maxScale scale : α} {shapes : List (Nat × Rect α)} {origins spread : List (Point α)}

/-- All rounds before the last one together scale by one factor, which is one when there are
none, and otherwise larger, within the limit. -/
theorem separateFrom_lastRound (maxScale : α) (shapes : List (Nat × Rect α)) (rounds : Nat)
    (total : α) (origins : List (Point α)) :
    ∃ s, (s = 1 ∨ 1 < s ∧ total * s ≤ maxScale) ∧
      LastRound maxScale shapes (total * s) (origins.map (·.scale s))
        (separateFrom maxScale shapes rounds total origins) := by
  -- a round that ends the scaling has seen the origins as they were given
  have hends : ∀ {total origins result}, LastRound maxScale shapes total origins result →
      ∃ s, (s = 1 ∨ 1 < s ∧ total * s ≤ maxScale) ∧
        LastRound maxScale shapes (total * s) (origins.map (·.scale s)) result := by
    intro total origins result hlast
    refine ⟨1, .inl rfl, ?_⟩
    rwa [mul_one_exact, map_scale_one]
  induction rounds generalizing total origins with
  | zero => exact hends .exhausted
  | succ rounds ih =>
    rw [separateFrom]
    dsimp only
    split
    · next p hp =>
      have hnear : p.1.origin.near p.2.origin 1e-9 = true := by
        simpa using List.find?_some hp
      exact hends (.coincident (List.mem_of_find?_eq_some hp) hnear)
    · split
      · next hle => exact hends (.apart hle)
      · next hneeded =>
        have hfactor := one_lt_of_needed hneeded
        generalize (overlapping (originBoxes shapes origins)).foldl
          (fun m p => Scalar.max m (pairFactor p.1.box p.2.box)) 1 * separationMargin = factor
          at hfactor ⊢
        split
        · next hlimit => exact hends (.tooLarge hlimit)
        · next hlimit =>
          -- the factor of this round comes before that of the later ones
          obtain ⟨s, hs, hlast⟩ := ih (total * factor) (origins.map (·.scale factor))
          rw [mul_assoc_exact, map_scale_scale] at hlast
          rw [mul_assoc_exact] at hs
          refine ⟨factor * s, .inr ?_, hlast⟩
          rcases hs with rfl | ⟨hone, hmax⟩
          · rw [mul_one_exact]
            exact ⟨hfactor, by rwa [le_iff, ← not_lt, ← lt_iff]⟩
          · refine ⟨?_, hmax⟩
            rw [lt_iff, value_one] at *
            rw [value_mul]
            exact one_lt_mul_of_lt_of_le hfactor hone.le

/-- When there is a factor, the origins are scaled by it, and it is one or a larger one within
the limit. -/
theorem separateNumbered_ok (h : separateNumbered maxScale shapes origins = .ok (scale, spread)) :
    spread = origins.map (·.scale scale) ∧ (scale = 1 ∨ 1 < scale ∧ scale ≤ maxScale) := by
  obtain ⟨s, hs, hlast⟩ := separateFrom_lastRound maxScale shapes separationRounds 1 origins
  rw [one_mul_exact] at hs hlast
  rw [separateNumbered] at h
  rw [h] at hlast
  cases hlast
  exact ⟨rfl, hs⟩

/-- Nothing overlaps when there is a factor. -/
theorem separateNumbered_apart (hunbounded : (1 : α) < unbounded)
    (h : separateNumbered maxScale shapes origins = .ok (scale, spread)) :
    (originBoxes shapes spread).Pairwise fun a b => a.box.overlaps b.box = false := by
  obtain ⟨s, -, hlast⟩ := separateFrom_lastRound maxScale shapes separationRounds 1 origins
  rw [separateNumbered] at h
  rw [h] at hlast
  cases hlast with
  | apart needed => exact overlapping_eq_nil_iff.1 ((neededFactor_le_one_iff hunbounded).1 needed)

/-- Where nothing overlaps nothing is scaled. -/
theorem separateNumbered_of_apart
    (h : (originBoxes shapes origins).Pairwise fun a b => a.box.overlaps b.box = false) :
    separateNumbered maxScale shapes origins = .ok (1, origins) := by
  have hnone := overlapping_eq_nil_iff.2 h
  rw [separateNumbered, separationRounds, separateFrom]
  simp only [hnone, List.find?_nil, List.foldl_nil]
  rw [if_pos ((le_iff _ _).2 le_rfl)]

/-- When two origins are said to agree, the boxes around them overlap once they are scaled by a
factor that is one or within the limit, and their origins agree then. -/
theorem exists_of_separateNumbered_coincident {i j : Nat}
    (h : separateNumbered maxScale shapes origins = .error (.coincident i j)) :
    ∃ s, (s = 1 ∨ 1 < s ∧ s ≤ maxScale) ∧
      ∃ p ∈ overlapping (originBoxes shapes (origins.map (·.scale s))),
        p.1.index = i ∧ p.2.index = j ∧ p.1.origin.near p.2.origin 1e-9 = true := by
  obtain ⟨s, hs, hlast⟩ := separateFrom_lastRound maxScale shapes separationRounds 1 origins
  rw [one_mul_exact] at hs hlast
  rw [separateNumbered] at h
  rw [h] at hlast
  cases hlast with
  | coincident overlap near => exact ⟨s, hs, _, overlap, rfl, rfl, near⟩

/-! ### In place -/

/-- Boxes around their origins, as they lie on the sheet. -/
def boxesAt (boxes : List (Rect α)) (origins : List (Point α)) : List (Rect α) :=
  boxes.zipWith (fun b p => b.translate p.x p.y) origins

omit [ExactScalar α] in
/-- The numbered boxes lie where the boxes do. -/
theorem map_box_originBoxes (boxes : List (Rect α)) (origins : List (Point α)) :
    (originBoxes (boxes.mapIdx fun i r => (i, r)) origins).map OriginBox.box =
      boxesAt boxes origins := by
  apply List.ext_getElem?
  intro i
  simp only [originBoxes, boxesAt, List.getElem?_map, List.getElem?_zipWith, List.getElem?_mapIdx]
  cases boxes[i]? with
  | none => rfl
  | some b =>
    cases origins[i]? with
    | none => rfl
    | some p => rfl

omit [ExactScalar α] in
theorem pairwise_originBoxes_iff {boxes : List (Rect α)} {origins : List (Point α)} :
    ((originBoxes (boxes.mapIdx fun i r => (i, r)) origins).Pairwise
        fun a b => a.box.overlaps b.box = false) ↔
      (boxesAt boxes origins).Pairwise fun a b => a.overlaps b = false := by
  rw [← map_box_originBoxes, List.pairwise_map]

omit [ExactScalar α] in
/-- Of two boxes that overlap the one with the smaller number comes first. -/
theorem getElem?_of_mem_overlapping {boxes : List (Rect α)} {origins : List (Point α)}
    {p : OriginBox α × OriginBox α}
    (h : p ∈ overlapping (originBoxes (boxes.mapIdx fun i r => (i, r)) origins)) :
    p.1.index < p.2.index ∧
      (boxes[p.1.index]? = some p.1.shape ∧ origins[p.1.index]? = some p.1.origin) ∧
      (boxes[p.2.index]? = some p.2.shape ∧ origins[p.2.index]? = some p.2.origin) ∧
      p.1.box.overlaps p.2.box = true := by
  obtain ⟨hpair, hoverlap⟩ := List.mem_filter.1 h
  have hsub := mem_pairs_iff.1 hpair
  -- a numbered box is found under its number
  have hfound : ∀ b ∈ originBoxes (boxes.mapIdx fun i r => (i, r)) origins,
      boxes[b.index]? = some b.shape ∧ origins[b.index]? = some b.origin := by
    intro b hb
    obtain ⟨i, hi⟩ := List.mem_iff_getElem?.1 hb
    rw [originBoxes, List.getElem?_zipWith, List.getElem?_mapIdx] at hi
    cases hbox : boxes[i]? with
    | none =>
      rw [hbox] at hi
      cases hi
    | some r =>
      cases horigin : origins[i]? with
      | none =>
        rw [hbox, horigin] at hi
        cases hi
      | some o =>
        rw [hbox, horigin] at hi
        cases hi
        exact ⟨hbox, horigin⟩
  have hsorted : (originBoxes (boxes.mapIdx fun i r => (i, r)) origins).Pairwise
      fun a b => a.index < b.index := by
    rw [List.pairwise_iff_getElem]
    intro i j hi hj hij
    simpa only [originBoxes, List.getElem_zipWith, List.getElem_mapIdx] using hij
  refine ⟨?_, hfound _ (hsub.subset (by simp)), hfound _ (hsub.subset (by simp)), hoverlap⟩
  exact List.pairwise_iff_forall_sublist.1 hsorted hsub

/-- Scaling in place either scales every origin by one factor, so that nothing overlaps, or
leaves them as they are.  The factor is one when nothing overlaps anyway, and otherwise larger,
within the limit; and two boxes are only said to be on each other when they overlap and their
origins agree, once they are scaled. -/
theorem separateInPlace_scales (hunbounded : (1 : α) < unbounded) (maxScale : α)
    (origins : List (Point α)) (boxes : List (Rect α)) :
    (∀ scale, (separateInPlace maxScale origins boxes).1 = .ok scale →
      (separateInPlace maxScale origins boxes).2 = origins.map (·.scale scale) ∧
      (boxesAt boxes (separateInPlace maxScale origins boxes).2).Pairwise
        (fun a b => a.overlaps b = false) ∧
      (scale = 1 ∧ (boxesAt boxes origins).Pairwise (fun a b => a.overlaps b = false) ∨
        1 < scale ∧ scale ≤ maxScale)) ∧
    (∀ failure, (separateInPlace maxScale origins boxes).1 = .error failure →
      (separateInPlace maxScale origins boxes).2 = origins) ∧
    ∀ i j, (separateInPlace maxScale origins boxes).1 = .error (.coincident i j) →
      ∃ scale, (scale = 1 ∨ 1 < scale ∧ scale ≤ maxScale) ∧
        ∃ a b p q, i < j ∧ boxes[i]? = some a ∧ boxes[j]? = some b ∧
          (origins.map (·.scale scale))[i]? = some p ∧
          (origins.map (·.scale scale))[j]? = some q ∧
          (a.translate p.x p.y).overlaps (b.translate q.x q.y) = true ∧
          p.near q 1e-9 = true := by
  unfold separateInPlace separate
  cases hresult : separateNumbered maxScale (boxes.mapIdx fun i r => (i, r)) origins with
  | ok r =>
    refine ⟨?_, nofun, nofun⟩
    rintro scale ⟨⟩
    obtain ⟨hspread, hscale⟩ := separateNumbered_ok hresult
    have hapart := pairwise_originBoxes_iff.1 (separateNumbered_apart hunbounded hresult)
    refine ⟨hspread, hapart, ?_⟩
    rcases hscale with hone | hscale
    · -- the origins were not scaled at all
      rw [hone, map_scale_one] at hspread
      exact .inl ⟨hone, hspread ▸ hapart⟩
    · exact .inr hscale
  | error failure =>
    refine ⟨nofun, fun _ _ => rfl, ?_⟩
    rintro i j ⟨⟩
    obtain ⟨scale, hscale, p, hp, rfl, rfl, hnear⟩ := exists_of_separateNumbered_coincident hresult
    obtain ⟨hlt, ⟨ha, hpa⟩, ⟨hb, hqb⟩, hoverlap⟩ := getElem?_of_mem_overlapping hp
    exact ⟨scale, hscale, _, _, _, _, hlt, ha, hb, hpa, hqb, hoverlap, hnear⟩

/-- Two squares that overlap are scaled apart along the axis where less is needed. -/
theorem separateInPlace_squares :
    (1 : WideRat) < unbounded ∧
      (separateInPlace (10 : WideRat) [⟨1, 0⟩, ⟨3, 1⟩] [⟨-2, -2, 4, 4⟩, ⟨-2, -2, 4, 4⟩]).1 =
        .ok 2.002 ∧
      (separateInPlace (10 : WideRat) [⟨1, 0⟩, ⟨3, 1⟩] [⟨-2, -2, 4, 4⟩, ⟨-2, -2, 4, 4⟩]).2 =
        [⟨1 * 2.002, 0 * 2.002⟩, ⟨3 * 2.002, 1 * 2.002⟩] := by
  have hunbounded : (1 : WideRat) < unbounded := by decide +kernel
  have hfactor : (separateInPlace (10 : WideRat) [⟨1, 0⟩, ⟨3, 1⟩]
      [⟨-2, -2, 4, 4⟩, ⟨-2, -2, 4, 4⟩]).1.toOption.any (· == 2.002) = true := by decide +kernel
  obtain ⟨hok, -, -⟩ := separateInPlace_scales hunbounded 10 [⟨1, 0⟩, ⟨3, 1⟩]
    [⟨-2, -2, 4, 4⟩, ⟨-2, -2, 4, 4⟩]
  revert hok hfactor
  generalize separateInPlace (10 : WideRat) _ _ = result
  intro hfactor hok
  obtain ⟨failure | scale, origins⟩ := result
  · cases hfactor
  · have hscale : scale = 2.002 := (beq_iff _ _).1 hfactor
    subst hscale
    exact ⟨hunbounded, rfl, (hok _ rfl).1⟩

end Schematic
