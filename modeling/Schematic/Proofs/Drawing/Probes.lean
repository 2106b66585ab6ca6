import Schematic.Proofs.Drawing.Audit

/-!
# Wires through boxes

The check of a drawing finds a wire in the box of a component by *probing*: it looks for a
point inside the box among some points that stand for the wire.  For a level or upright wire
these are all its points, on the line through its first end.  A slanted wire, which is drawn
where no route was found, is only probed at the ends of 32 equal steps, and a box that lies
between two of them is not seen.

## Main definitions

* `probes` — the points that are probed.
* `Wire.Enters` — a wire has a point inside a box.
* `Wire.Shows` — it is inside where it is probed.
* `Netlist.Reports` — the wires that enter boxes in some way are reported.

## Main statements

* `Rect.crossedBy_iff_probes` — the test for a wire in a box.
* `exists_division_mem_segment` — a stretch of a step's length contains an end of a step.
* `Netlist.reports_shows` — what is reported about wires in boxes.
* `Netlist.wires_not_reported` — wires that enter a box unseen.
-/

namespace Schematic

open ExactScalar
open scoped Scalar

variable {α : Type} [Scalar α] [ExactScalar α] {a b p : Point α} {r : Rect α}

/-! ### Probing a wire -/

/-- A line that is level up to a negligible difference. -/
def Level (a b : Point α) : Prop := Scalar.abs (a.y - b.y) < (1e-9 : α)

/-- A line that is upright up to a negligible difference. -/
def Upright (a b : Point α) : Prop := Scalar.abs (a.x - b.x) < (1e-9 : α)

instance : Decidable (Level a b) :=
  inferInstanceAs (Decidable (Scalar.abs (a.y - b.y) < (1e-9 : α)))

instance : Decidable (Upright a b) :=
  inferInstanceAs (Decidable (Scalar.abs (a.x - b.x) < (1e-9 : α)))

/-- The point that divides a line at `i` of 32 equal steps. -/
noncomputable def division (z w : ℂ) (i : ℕ) : ℂ := AffineMap.lineMap z w (i / 32 : ℝ)

/-- The points that stand for a line: all points from its first end along an axis, or the ends
of 32 steps. -/
def probes (a b : Point α) : Set ℂ :=
  {q | (Level a b ∧ q ∈ segment ℝ a.complex (Point.complex ⟨b.x, a.y⟩)) ∨
    (¬Level a b ∧ Upright a b ∧ q ∈ segment ℝ a.complex (Point.complex ⟨a.x, b.y⟩)) ∨
    (¬Level a b ∧ ¬Upright a b ∧ ∃ i ≤ 32, q = division a.complex b.complex i)}

theorem probes_of_level (h : Level a b) :
    probes a b = Set.uIcc (value a.x) (value b.x) ×ℂ Set.uIcc (value a.y) (value a.y) := by
  have hline := segment_eq_reProdIm (z := a.complex) (w := Point.complex ⟨b.x, a.y⟩) (.inl rfl)
  refine Eq.trans ?_ hline
  ext q
  simp [probes, h]

theorem probes_of_upright (h : ¬Level a b) (h' : Upright a b) :
    probes a b = Set.uIcc (value a.x) (value a.x) ×ℂ Set.uIcc (value a.y) (value b.y) := by
  have hline := segment_eq_reProdIm (z := a.complex) (w := Point.complex ⟨a.x, b.y⟩) (.inr rfl)
  refine Eq.trans ?_ hline
  ext q
  simp [probes, h, h']

theorem mem_probes_of_slanted (h : ¬Level a b) (h' : ¬Upright a b) {q : ℂ} :
    q ∈ probes a b ↔ ∃ i ≤ 32, q = division a.complex b.complex i := by
  simp [probes, h, h']

theorem level_iff : Level a b ↔ |value a.y - value b.y| < 1 / 10 ^ 9 := by
  simp [Level, lt_iff]

theorem upright_iff : Upright a b ↔ |value a.x - value b.x| < 1 / 10 ^ 9 := by
  simp [Upright, lt_iff]

theorem strictlyContains_iff : r.strictlyContains p = true ↔ p.complex ∈ r.inside := by
  simp only [Rect.strictlyContains, Bool.and_eq_true, decide_eq_true_eq, lt_iff]
  constructor
  · rintro ⟨⟨⟨hl, hr⟩, ht⟩, hb⟩
    exact ⟨⟨hl, hr⟩, ht, hb⟩
  · rintro ⟨⟨hl, hr⟩, ht, hb⟩
    exact ⟨⟨⟨hl, hr⟩, ht⟩, hb⟩

theorem complex_sample (a b : Point α) (i : ℕ) :
    (Rect.sample a b i).complex = division a.complex b.complex i := by
  have hpart : value (Scalar.ofInt i / 32 : α) = i / 32 := by
    rw [value_div _ _ (by simp), value_ofInt, value_literal]
    norm_num
  apply Complex.ext
  · simp [Rect.sample, Point.complex, division, AffineMap.lineMap_apply, hpart]
    ring
  · simp [Rect.sample, Point.complex, division, AffineMap.lineMap_apply, hpart]
    ring

/-- A closed interval and an open one meet if each begins before the other one ends. -/
theorem uIcc_inter_Ioo_nonempty {u v l m : ℝ} (hlm : l < m) :
    (Set.uIcc u v ∩ Set.Ioo l m).Nonempty ↔ min u v < m ∧ l < max u v := by
  constructor
  · rintro ⟨x, ⟨hu, hv⟩, hl, hm⟩
    exact ⟨lt_of_le_of_lt hu hm, lt_of_lt_of_le hl hv⟩
  rintro ⟨hu, hv⟩
  have huv : min u v ≤ max u v := min_le_max
  rcases lt_or_ge l (min u v) with h | h
  · exact ⟨min u v, ⟨le_refl _, huv⟩, h, hu⟩
  -- the open interval begins inside the closed one: take a point right after its begin
  obtain ⟨x, hlx, hx⟩ := exists_between (lt_min hlm hv)
  rw [lt_min_iff] at hx
  exact ⟨x, ⟨h.trans hlx.le, hx.2.le⟩, hlx, hx.1⟩

theorem reProdIm_inter_nonempty {s t s' t' : Set ℝ} :
    ((s ×ℂ t) ∩ (s' ×ℂ t')).Nonempty ↔ (s ∩ s').Nonempty ∧ (t ∩ t').Nonempty := by
  constructor
  · rintro ⟨q, ⟨hs, ht⟩, hs', ht'⟩
    exact ⟨⟨q.re, hs, hs'⟩, q.im, ht, ht'⟩
  · rintro ⟨⟨x, hs, hs'⟩, y, ht, ht'⟩
    exact ⟨⟨x, y⟩, ⟨hs, ht⟩, hs', ht'⟩

/-- A slanted wire is found in a box of any size if an end of a step is inside. -/
theorem Rect.crossedBy_of_slanted (h : ¬Level a b) (h' : ¬Upright a b) :
    r.crossedBy a b = true ↔ ∃ i ≤ 32, division a.complex b.complex i ∈ r.inside := by
  have hlevel : ¬Scalar.abs (a.y - b.y) < (1e-9 : α) := h
  have hupright : ¬Scalar.abs (a.x - b.x) < (1e-9 : α) := h'
  rw [crossedBy, if_neg hlevel, if_neg hupright]
  simp only [List.any_eq_true, List.mem_range, Nat.lt_succ_iff, strictlyContains_iff,
    complex_sample]

/-- The test for a wire in a box finds exactly the probes that lie inside. -/
theorem Rect.crossedBy_iff_probes (hw : 0 < value r.w) (hh : 0 < value r.h) :
    r.crossedBy a b = true ↔ (probes a b ∩ r.inside).Nonempty := by
  have hx : value r.x < value r.right := by
    rw [right, value_add]
    linarith
  have hy : value r.y < value r.bottom := by
    rw [bottom, value_add]
    linarith
  by_cases hlevel : Level a b
  · have hnear : Scalar.abs (a.y - b.y) < (1e-9 : α) := hlevel
    rw [probes_of_level hlevel, inside, reProdIm_inter_nonempty, uIcc_inter_Ioo_nonempty hx,
      uIcc_inter_Ioo_nonempty hy, crossedBy, if_pos hnear]
    simp only [Bool.and_eq_true, decide_eq_true_eq, lt_iff, value_sorted2, min_self, max_self]
    tauto
  have hfar : ¬Scalar.abs (a.y - b.y) < (1e-9 : α) := hlevel
  by_cases hupright : Upright a b
  · have hnear : Scalar.abs (a.x - b.x) < (1e-9 : α) := hupright
    rw [probes_of_upright hlevel hupright, inside, reProdIm_inter_nonempty,
      uIcc_inter_Ioo_nonempty hx, uIcc_inter_Ioo_nonempty hy, crossedBy, if_neg hfar, if_pos hnear]
    simp only [Bool.and_eq_true, decide_eq_true_eq, lt_iff, value_sorted2, min_self, max_self]
    tauto
  · rw [crossedBy_of_slanted hlevel hupright]
    constructor
    · rintro ⟨i, hi, hin⟩
      exact ⟨_, (mem_probes_of_slanted hlevel hupright).2 ⟨i, hi, rfl⟩, hin⟩
    · rintro ⟨q, hq, hin⟩
      obtain ⟨i, hi, rfl⟩ := (mem_probes_of_slanted hlevel hupright).1 hq
      exact ⟨i, hi, hin⟩

/-! ### What the probes show -/

/-- A stretch of at least a step's length contains the end of a step. -/
theorem exists_division_mem_segment {z w p q : ℂ} (hzw : z ≠ w) (hp : p ∈ segment ℝ z w)
    (hq : q ∈ segment ℝ z w) (hlong : dist z w ≤ 32 * dist p q) :
    ∃ i ≤ 32, division z w i ∈ segment ℝ p q := by
  rw [segment_eq_image_lineMap] at hp hq
  obtain ⟨s, hs, rfl⟩ := hp
  obtain ⟨t, ht, rfl⟩ := hq
  wlog hst : s ≤ t generalizing s t
  · rw [segment_symm]
    refine this t ht s hs ?_ (le_of_not_ge hst)
    rwa [dist_comm (AffineMap.lineMap z w t)]
  have hlength : 0 < dist z w := dist_pos.2 hzw
  have hstep : 1 ≤ 32 * (t - s) := by
    rw [dist_lineMap_lineMap, dist_comm s, Real.dist_eq, abs_of_nonneg (sub_nonneg.2 hst)] at hlong
    nlinarith
  -- the first step that ends after the begin of the stretch ends before its end
  have hfirst : 32 * s ≤ ⌈32 * s⌉₊ := Nat.le_ceil _
  have hbefore : (⌈32 * s⌉₊ : ℝ) < 32 * s + 1 := Nat.ceil_lt_add_one (by linarith [hs.1])
  refine ⟨⌈32 * s⌉₊, Nat.ceil_le.2 ?_, ?_⟩
  · push_cast
    linarith [ht.2]
  · have hbetween : (⌈32 * s⌉₊ / 32 : ℝ) ∈ segment ℝ s t := by
      rw [segment_eq_Icc hst]
      constructor <;> linarith
    have himage := Set.mem_image_of_mem (AffineMap.lineMap z w : ℝ →ᵃ[ℝ] ℂ) hbetween
    rwa [image_segment] at himage

theorem Rect.convex_inside (r : Rect α) : Convex ℝ r.inside := by
  have hre := (convex_Ioo (value r.x) (value r.right)).linear_preimage Complex.reLm
  have him := (convex_Ioo (value r.y) (value r.bottom)).linear_preimage Complex.imLm
  exact hre.inter him

/-- A wire has a point inside a box. -/
def Wire.Enters (w : Wire α) (box : Rect α) : Prop := (w.points ∩ box.inside).Nonempty

/-- A wire is inside a box where the check probes it. -/
inductive Wire.Shows (w : Wire α) (box : Rect α) : Prop
  /-- All points of a horizontal wire are probed, and all points of a vertical wire whose
  length is not negligible. -/
  | straight (h : w.a.y = w.b.y ∨ Straight w.a w.b) (inside : w.Enters box)
  /-- A wire that is almost horizontal or vertical is inside by a little more than that. -/
  | almost (h : Level w.a w.b ∨ Upright w.a w.b)
      (inside : w.Enters (box.inflate (-1e-9)))
  /-- A slanted wire is inside for the length of a step. -/
  | stretch (h : ¬Level w.a w.b) (h' : ¬Upright w.a w.b) {p q : ℂ}
      (hp : p ∈ w.points ∩ box.inside) (hq : q ∈ w.points ∩ box.inside)
      (long : dist w.a.complex w.b.complex ≤ 32 * dist p q)
  /-- A slanted wire is inside at the end of a step. -/
  | division (h : ¬Level w.a w.b) (h' : ¬Upright w.a w.b) {i : ℕ} (hi : i ≤ 32)
      (inside : division w.a.complex w.b.complex i ∈ box.inside)

namespace Wire

variable {w : Wire α} {box : Rect α}

/-- A point of a wire lies between its ends on both axes. -/
theorem mem_uIcc_of_mem_points {q : ℂ} (hq : q ∈ w.points) :
    q.re ∈ Set.uIcc (value w.a.x) (value w.b.x) ∧ q.im ∈ Set.uIcc (value w.a.y) (value w.b.y) := by
  rw [← segment_eq_uIcc, ← segment_eq_uIcc]
  have hre := Set.mem_image_of_mem Complex.reLm.toAffineMap hq
  have him := Set.mem_image_of_mem Complex.imLm.toAffineMap hq
  rw [points, image_segment] at hre him
  exact ⟨hre, him⟩

/-- All points of a horizontal or vertical wire are probed. -/
theorem probes_eq_points (h : w.a.y = w.b.y ∨ Straight w.a w.b) : probes w.a w.b = w.points := by
  have hlevel : w.a.y = w.b.y → probes w.a w.b = w.points := by
    intro hy
    have hvalue : value w.a.y = value w.b.y := congrArg value hy
    have hzero : Level w.a w.b := level_iff.2 (by simp [hvalue])
    rw [probes_of_level hzero, points, segment_eq_reProdIm (.inl hvalue)]
    simp [Point.complex, hvalue]
  rcases h with hy | ⟨hy, -⟩ | ⟨hx, hlong⟩
  · exact hlevel hy
  · exact hlevel hy
  · have hvalue : value w.a.x = value w.b.x := congrArg value hx
    have hfar : ¬Level w.a w.b := by
      rw [level_iff, abs_sub_comm, not_lt]
      simpa [le_iff] using hlong
    have hzero : Upright w.a w.b := upright_iff.2 (by simp [hvalue])
    rw [probes_of_upright hfar hzero, points, segment_eq_reProdIm (.inr hvalue)]
    simp [Point.complex, hvalue]

/-- The interior of a box that is made a little smaller on every side. -/
theorem mem_inside_shrunk {q : ℂ} : q ∈ (box.inflate (-1e-9)).inside ↔
    (value box.x + 1 / 10 ^ 9 < q.re ∧ q.re < value box.right - 1 / 10 ^ 9) ∧
      value box.y + 1 / 10 ^ 9 < q.im ∧ q.im < value box.bottom - 1 / 10 ^ 9 := by
  have hright : value (box.inflate (-1e-9)).right = value box.right - 1 / 10 ^ 9 := by
    simp [Rect.inflate, Rect.right]
    ring
  have hbottom : value (box.inflate (-1e-9)).bottom = value box.bottom - 1 / 10 ^ 9 := by
    simp [Rect.inflate, Rect.bottom]
    ring
  rw [Rect.inside, Complex.mem_reProdIm, Set.mem_Ioo, Set.mem_Ioo, hright, hbottom]
  simp [Rect.inflate]

/-- A wire that is almost horizontal is probed at the height of its first end, and one that is
almost vertical likewise. -/
theorem exists_probe_near (h : Level w.a w.b ∨ Upright w.a w.b) {q : ℂ} (hq : q ∈ w.points) :
    ∃ z ∈ probes w.a w.b, |z.re - q.re| < 1 / 10 ^ 9 ∧ |z.im - q.im| < 1 / 10 ^ 9 := by
  have hend : ∀ {u v x : ℝ}, x ∈ Set.uIcc u v → |u - v| < 1 / 10 ^ 9 → |u - x| < 1 / 10 ^ 9 := by
    intro u v x hx huv
    refine lt_of_le_of_lt ?_ huv
    rw [abs_sub_comm u x, abs_sub_comm u v]
    exact Set.abs_sub_left_of_mem_uIcc hx
  obtain ⟨hre, him⟩ := mem_uIcc_of_mem_points hq
  by_cases hlevel : Level w.a w.b
  · refine ⟨⟨q.re, value w.a.y⟩, ?_, by simp, hend him (level_iff.1 hlevel)⟩
    rw [probes_of_level hlevel]
    exact ⟨hre, by simp⟩
  · have hupright : Upright w.a w.b := h.resolve_left hlevel
    refine ⟨⟨value w.a.x, q.im⟩, ?_, hend hre (upright_iff.1 hupright), by simp⟩
    rw [probes_of_upright hlevel hupright]
    exact ⟨by simp, him⟩

/-- Where a wire shows, a probe of it is inside. -/
theorem Shows.probes_inter_nonempty (h : w.Shows box) :
    (probes w.a w.b ∩ box.inside).Nonempty := by
  cases h with
  | straight h inside => rwa [probes_eq_points h]
  | almost h inside =>
    obtain ⟨q, hq, hin⟩ := inside
    obtain ⟨z, hz, hre, him⟩ := exists_probe_near h hq
    rw [mem_inside_shrunk] at hin
    rw [abs_lt] at hre him
    refine ⟨z, hz, ⟨?_, ?_⟩, ?_, ?_⟩ <;> linarith
  | stretch h h' hp hq long =>
    have hne : w.a.complex ≠ w.b.complex := by
      intro heq
      have hy : value w.a.y = value w.b.y := congrArg Complex.im heq
      exact h (level_iff.2 (by simp [hy]))
    obtain ⟨i, hi, hin⟩ := exists_division_mem_segment hne hp.1 hq.1 long
    exact ⟨_, (mem_probes_of_slanted h h').2 ⟨i, hi, rfl⟩,
      box.convex_inside.segment_subset hp.2 hq.2 hin⟩
  | division h h' hi inside =>
    exact ⟨_, (mem_probes_of_slanted h h').2 ⟨_, hi, rfl⟩, inside⟩

end Wire

/-! ### What is reported -/

namespace Netlist

variable {n : Netlist α} {symbols : SymbolSource α} {terminals : Array (Option (Terminal α))}
  {wires : List (Wire α)} {tolerance : α} {w : Wire α}

/-- No wire enters the box of a component in some way without a report, except for wires that
touch a pin of the component. -/
def Reports (n : Netlist α) (symbols : SymbolSource α) (terminals : Array (Option (Terminal α)))
    (wires : List (Wire α)) (tolerance : α) (Enters : Wire α → Rect α → Prop) : Prop :=
  ∀ w ∈ wires, ∀ id box, (id, box) ∈ (ObstacleMap.ofNetlist n symbols 0).entries →
    0 < value box.w → 0 < value box.h → Enters w box →
      (∀ t, some t ∈ terminals → t.component = id → w.touches tolerance t = false) →
        .crossesPart w (n.netName w.net) (n.reference id) ∈
          n.wireFindings symbols terminals wires tolerance

omit [ExactScalar α] in
/-- Only the crossings of wires are reported as such; the other findings are about pins and
joints. -/
theorem crossesPart_mem_iff {net reference : String} :
    .crossesPart w net reference ∈ n.wireFindings symbols terminals wires tolerance ↔
      ∃ v ∈ wires, .crossesPart w net reference ∈
        n.crossingFindings (ObstacleMap.ofNetlist n symbols 0).entries
          (terminals.toList.filterMap id) tolerance v := by
  simp only [wireFindings, List.mem_append, List.mem_flatMap, List.mem_filterMap]
  constructor
  · rintro ((⟨v, hv, hfound | hfound⟩ | ⟨pair, -, hfound⟩) | ⟨t, -, hfound⟩)
    · exact ⟨v, hv, hfound⟩
    · obtain ⟨t, -, heq⟩ := List.mem_map.1 hfound
      cases heq
    · unfold jointFinding? at hfound
      split at hfound
      · cases hfound
      · obtain ⟨q, -, heq⟩ := Option.map_eq_some_iff.1 hfound
        cases heq
    · unfold reachFinding? at hfound
      split at hfound
      · cases hfound
      · split at hfound <;> cases hfound
  · rintro ⟨v, hv, hfound⟩
    exact .inl (.inl ⟨v, hv, .inl hfound⟩)

omit [ExactScalar α] in
/-- The findings about a wire in boxes come from the boxes that the test finds it in. -/
theorem crossesPart_mem_wireFindings {net reference : String} :
    .crossesPart w net reference ∈ n.wireFindings symbols terminals wires tolerance ↔
      w ∈ wires ∧ net = n.netName w.net ∧
        ∃ id box, (id, box) ∈ (ObstacleMap.ofNetlist n symbols 0).entries ∧
          reference = n.reference id ∧ box.crossedBy w.a w.b = true ∧
            ∀ t, some t ∈ terminals → t.component = id → w.touches tolerance t = false := by
  rw [crossesPart_mem_iff]
  simp only [crossingFindings, List.mem_map, List.mem_filter, Bool.and_eq_true, Bool.not_eq_true',
    List.any_eq_false, mem_filterMap_id]
  constructor
  · rintro ⟨v, hv, ⟨id, box⟩, ⟨hbox, hcrossed, hfree⟩, heq⟩
    cases heq
    exact ⟨hv, rfl, id, box, hbox, rfl, hcrossed, fun t ht hid => by simpa [hid] using hfree t ht⟩
  · rintro ⟨hw, rfl, id, box, hbox, rfl, hcrossed, hfree⟩
    refine ⟨w, hw, (id, box), ⟨hbox, hcrossed, fun t ht => ?_⟩, rfl⟩
    by_cases hid : t.component = id
    · simp [hfree t ht hid]
    · simp [hid]

/-- A wire without pins of a component is reported if it shows in the box of the component;
a slanted wire is reported only if an end of a step is in such a box. -/
theorem reports_shows (n : Netlist α) (symbols : SymbolSource α)
    (terminals : Array (Option (Terminal α))) (wires : List (Wire α)) (tolerance : α) :
    n.Reports symbols terminals wires tolerance Wire.Shows ∧
      ∀ w net reference, ¬Level w.a w.b → ¬Upright w.a w.b →
        .crossesPart w net reference ∈ n.wireFindings symbols terminals wires tolerance →
          ∃ id box, (id, box) ∈ (ObstacleMap.ofNetlist n symbols 0).entries ∧
            reference = n.reference id ∧
              ∃ i ≤ 32, division w.a.complex w.b.complex i ∈ box.inside := by
  constructor
  · intro w hw id box hbox hwidth hheight hshows hfree
    have hcrossed := (Rect.crossedBy_iff_probes hwidth hheight).2 hshows.probes_inter_nonempty
    exact crossesPart_mem_wireFindings.2 ⟨hw, rfl, id, box, hbox, rfl, hcrossed, hfree⟩
  · intro w net reference hlevel hupright hfound
    obtain ⟨-, -, id, box, hbox, href, hcrossed, -⟩ := crossesPart_mem_wireFindings.1 hfound
    exact ⟨id, box, hbox, href, (Rect.crossedBy_of_slanted hlevel hupright).1 hcrossed⟩

/-- A resistor at the origin, and a net without pins. -/
def loneResistor : Netlist ℚ :=
  ((Build.new "slant" : Build ℚ).run [
    .addComponent { symbol := "Device:R", reference := "R1", position := some ⟨0, 0, 0⟩ },
    .addNet (some "in")]).toNetlist

/-- A point is inside the box of the resistor. -/
def inLoneResistor (p : Point ℚ) : Bool :=
  (ObstacleMap.ofNetlist loneResistor (fun _ => none) 0).entries.any fun e =>
    e.1 == 0 && decide (0 < e.2.w) && decide (0 < e.2.h) && e.2.strictlyContains p

theorem exists_of_inLoneResistor {p : Point ℚ} (h : inLoneResistor p = true) : ∃ box,
    (0, box) ∈ (ObstacleMap.ofNetlist loneResistor (fun _ => none) 0).entries ∧
      0 < value box.w ∧ 0 < value box.h ∧ p.complex ∈ box.inside := by
  obtain ⟨⟨id, box⟩, hbox, hentry⟩ := List.any_eq_true.1 h
  simp only [Bool.and_eq_true, decide_eq_true_eq, lt_iff, value_zero, strictlyContains_iff,
    beq_iff_eq] at hentry
  obtain ⟨⟨⟨rfl, hwidth⟩, hheight⟩, hinside⟩ := hentry
  exact ⟨box, hbox, hwidth, hheight, hinside⟩

/-- A wire through the origin, which is the middle of the wire. -/
def middleWire : Wire ℚ := ⟨0, ⟨-20, -10⟩, ⟨20, 10⟩⟩

/-- The middle of a wire is the end of a step, so that a box around it is reported. -/
theorem middleWire_reported :
    (∃ box, (0, box) ∈ (ObstacleMap.ofNetlist loneResistor (fun _ => none) 0).entries ∧
      middleWire.Shows box) ∧
      .crossesPart middleWire "in" "R1" ∈
        loneResistor.wireFindings (fun _ => none) #[] [middleWire] 0.01 := by
  obtain ⟨box, hbox, hwidth, hheight, hinside⟩ :=
    exists_of_inLoneResistor (p := ⟨0, 0⟩) (by decide +kernel)
  have hmiddle : division middleWire.a.complex middleWire.b.complex 16 =
      Point.complex (⟨0, 0⟩ : Point ℚ) := by
    apply Complex.ext <;>
      simp [middleWire, Point.complex, division, AffineMap.lineMap_apply] <;> norm_num
  have hshows : middleWire.Shows box :=
    .division (by decide +kernel) (by decide +kernel) (i := 16) (by decide) (hmiddle ▸ hinside)
  exact ⟨⟨box, hbox, hshows⟩,
    (reports_shows loneResistor (fun _ => none) #[] [middleWire] 0.01).1 middleWire
      (List.mem_singleton_self _) 0 box hbox hwidth hheight hshows (by simp)⟩

/-- A wire into the box of the resistor about which there are no findings. -/
theorem not_reports_of_inLoneResistor {w : Wire ℚ} {p : Point ℚ} (hp : p.complex ∈ w.points)
    (hinside : inLoneResistor p = true)
    (hnone : (loneResistor.wireFindings (fun _ => none) #[] [w] 0.01).isEmpty = true) :
    ¬loneResistor.Reports (fun _ => none) #[] [w] 0.01 Wire.Enters := by
  intro h
  obtain ⟨box, hbox, hwidth, hheight, hin⟩ := exists_of_inLoneResistor hinside
  have hfound := h w (List.mem_singleton_self _) 0 box hbox hwidth hheight ⟨_, hp, hin⟩ (by simp)
  rw [List.isEmpty_iff.1 hnone] at hfound
  cases hfound

/-- A long wire through the origin, which is half a step off the middle of the wire. -/
def longWire : Wire ℚ := ⟨0, ⟨-310, -155⟩, ⟨330, 165⟩⟩

/-- An almost horizontal wire from the height of an edge of the resistor to right inside. -/
def almostLevelWire : Wire ℚ := ⟨0, ⟨-20, 5.08⟩, ⟨0, 5.0799999995⟩⟩

/-- An almost vertical wire of this kind. -/
def almostUprightWire : Wire ℚ := ⟨0, ⟨5.08, -20⟩, ⟨5.0799999995, 0⟩⟩

/-- A very short vertical wire of this kind. -/
def shortWire : Wire ℚ := ⟨0, ⟨0, 5.08⟩, ⟨0, 5.0799999995⟩⟩

/-- Wires that enter the box of a resistor without a report: a long one passes right through
it between two ends of steps, and the others are judged by their first ends. -/
theorem wires_not_reported :
    ¬loneResistor.Reports (fun _ => none) #[] [longWire] 0.01 Wire.Enters ∧
      ¬loneResistor.Reports (fun _ => none) #[] [almostLevelWire] 0.01 Wire.Enters ∧
      ¬loneResistor.Reports (fun _ => none) #[] [almostUprightWire] 0.01 Wire.Enters ∧
      ¬loneResistor.Reports (fun _ => none) #[] [shortWire] 0.01 Wire.Enters := by
  have hthrough : Point.complex (⟨0, 0⟩ : Point ℚ) ∈ longWire.points := by
    rw [Wire.points, segment_eq_image_lineMap]
    refine ⟨31 / 64, by constructor <;> norm_num, ?_⟩
    apply Complex.ext <;>
      simp [longWire, Point.complex, AffineMap.lineMap_apply] <;> norm_num
  have hend : ∀ w : Wire ℚ, w.b.complex ∈ w.points := fun w => right_mem_segment ℝ _ _
  refine ⟨?_, ?_, ?_, ?_⟩
  · exact not_reports_of_inLoneResistor hthrough (by decide +kernel) (by decide +kernel)
  · exact not_reports_of_inLoneResistor (hend _) (by decide +kernel) (by decide +kernel)
  · exact not_reports_of_inLoneResistor (hend _) (by decide +kernel) (by decide +kernel)
  · exact not_reports_of_inLoneResistor (hend _) (by decide +kernel) (by decide +kernel)

end Netlist

end Schematic
