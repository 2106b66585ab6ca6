import Schematic.Proofs.Geometry.Plane
import Schematic.Proofs.Routing.Compression

/-!
# Compressed polylines

A path whose steps are horizontal or vertical is drawn as a line of the plane.  Leaving
out repeated points and points on straight runs draws no more than that line, and it
draws all of it unless the path turns back: a point where it does may be left out, and
with it the end of a spur.

Coordinates are read as real numbers, and all that is asked of the tolerance is that it
tells different coordinates of the path apart.  So nothing is said about how they are
subtracted.

## Main definitions

* `trace` — the points that the lines of a path cover.
* `Onward`, `NeverTurnsBack` — paths that never turn back, repeated points apart.
* `Spread` — paths whose coordinates are told apart.
* `Compresses` — what a compressed path has to do with the path.

## Main statements

* `InRow.segment_subset`, `segment_union_segment` — a point of a row, and a point between
  two others.
* `spread_of_exact` — exact coordinates that are equal or far enough apart.
* `trace_compressAfter` — nothing of a path that never turns back is lost.
* `compressPath_compresses` — paths are compressed.
-/

namespace Schematic

open scoped Scalar

/-! ### Rows -/

/-- Two points lie on a vertical or a horizontal line. -/
def SharesAxis (z w : ℂ) : Prop := z.re = w.re ∨ z.im = w.im

/-- Three points lie on a vertical or a horizontal line. -/
def InRow (z w u : ℂ) : Prop := (z.re = w.re ∧ u.re = w.re) ∨ (z.im = w.im ∧ u.im = w.im)

namespace InRow

variable {z w u : ℂ}

theorem sharesAxis (h : InRow z w u) : SharesAxis z u :=
  h.imp (fun h => h.1.trans h.2.symm) fun h => h.1.trans h.2.symm

/-- A line covers no more than the way over any other point of the row. -/
theorem segment_subset (h : InRow z w u) : segment ℝ z u ⊆ segment ℝ z w ∪ segment ℝ w u := by
  rcases h with ⟨hz, hu⟩ | ⟨hz, hu⟩
  · rw [segment_eq_reProdIm (.inr (hz.trans hu.symm)), segment_eq_reProdIm (.inr hz),
      segment_eq_reProdIm (.inr hu.symm), hz, hu]
    intro x hx
    exact (Set.uIcc_subset_uIcc_union_uIcc hx.2).imp (fun h => ⟨hx.1, h⟩) fun h => ⟨hx.1, h⟩
  · rw [segment_eq_reProdIm (.inl (hz.trans hu.symm)), segment_eq_reProdIm (.inl hz),
      segment_eq_reProdIm (.inl hu.symm), hz, hu]
    intro x hx
    exact (Set.uIcc_subset_uIcc_union_uIcc hx.1).imp (fun h => ⟨h, hx.2⟩) fun h => ⟨h, hx.2⟩

theorem collinear (h : InRow z w u) : Collinear ℝ {z, w, u} := by
  have hmem : w ∈ ({z, w, u} : Set ℂ) := by simp
  rw [collinear_iff_of_mem hmem]
  rcases h with ⟨hz, hu⟩ | ⟨hz, hu⟩
  · refine ⟨Complex.I, ?_⟩
    simp only [Set.mem_insert_iff, Set.mem_singleton_iff, forall_eq_or_imp, forall_eq]
    refine ⟨⟨z.im - w.im, ?_⟩, ⟨0, by simp⟩, u.im - w.im, ?_⟩
    · simp [Complex.ext_iff, hz]
    · simp [Complex.ext_iff, hu]
  · refine ⟨1, ?_⟩
    simp only [Set.mem_insert_iff, Set.mem_singleton_iff, forall_eq_or_imp, forall_eq]
    refine ⟨⟨z.re - w.re, ?_⟩, ⟨0, by simp⟩, u.re - w.re, ?_⟩
    · simp [Complex.ext_iff, hz]
    · simp [Complex.ext_iff, hu]

/-- A point of the row is between the others if they do not lie in one direction from it. -/
theorem mem_segment (h : InRow z w u) (hforth : ¬SameRay ℝ (z - w) (u - w)) :
    w ∈ segment ℝ z u := by
  rw [mem_segment_iff_wbtw]
  rcases h.collinear.wbtw_or_wbtw_or_wbtw with hb | hb | hb
  · exact hb
  · exact absurd hb.sameRay_vsub_left.symm hforth
  · exact absurd (wbtw_comm.1 hb).sameRay_vsub_left hforth

/-- The way over a point in between covers what the line does. -/
theorem segment_union (h : InRow z w u) (hw : w ∈ segment ℝ z u) :
    segment ℝ z w ∪ segment ℝ w u = segment ℝ z u := by
  refine Set.Subset.antisymm (Set.union_subset ?_ ?_) h.segment_subset
  · exact (convex_segment z u).segment_subset (left_mem_segment ℝ z u) hw
  · exact (convex_segment z u).segment_subset hw (right_mem_segment ℝ z u)

end InRow

/-! ### Traces -/

/-- The points that the lines of a path cover; a path of one point covers that point. -/
def trace : List ℂ → Set ℂ
  | [] => ∅
  | [z] => {z}
  | z :: w :: rest => segment ℝ z w ∪ trace (w :: rest)

theorem trace_cons_cons (z w : ℂ) (rest : List ℂ) :
    trace (z :: w :: rest) = segment ℝ z w ∪ trace (w :: rest) := rfl

theorem mem_trace_cons (z : ℂ) (rest : List ℂ) : z ∈ trace (z :: rest) := by
  cases rest with
  | nil => exact rfl
  | cons w rest => exact .inl (left_mem_segment ℝ z w)

/-- A path that stands still covers nothing more. -/
theorem trace_cons_self (z : ℂ) (rest : List ℂ) : trace (z :: z :: rest) = trace (z :: rest) := by
  rw [trace_cons_cons, segment_same, Set.union_eq_right, Set.singleton_subset_iff]
  exact mem_trace_cons z rest

/-! ### Paths that never turn back -/

section Onward

open scoped Classical in
/-- A path, repeated points apart. -/
noncomputable def unrepeated (path : List ℂ) : List ℂ := path.destutter (· ≠ ·)

/-- No point of a path has its neighbours in one direction. -/
def Onward (path : List ℂ) : Prop :=
  ∀ a b c, [a, b, c] <:+: path → ¬SameRay ℝ (a - b) (c - b)

/-- The path, repeated points apart, never turns by half a turn. -/
def NeverTurnsBack (path : List ℂ) : Prop := Onward (unrepeated path)

theorem onward_pair (a b : ℂ) : Onward [a, b] := fun _ _ _ h =>
  absurd h.length_le (by simp)

theorem onward_cons_cons_cons {a b c : ℂ} {rest : List ℂ} :
    Onward (a :: b :: c :: rest) ↔ ¬SameRay ℝ (a - b) (c - b) ∧ Onward (b :: c :: rest) := by
  constructor
  · exact fun h => ⟨h a b c ⟨[], rest, rfl⟩, fun x y z hxyz =>
      h x y z (hxyz.trans (List.suffix_cons a _).isInfix)⟩
  · rintro ⟨hfirst, hrest⟩ x y z hxyz
    rcases List.infix_cons_iff.1 hxyz with hprefix | hinfix
    · obtain ⟨rfl, rfl, rfl, -⟩ : x = a ∧ y = b ∧ z = c ∧ [] <+: rest := by
        simpa [List.cons_prefix_cons] using hprefix
      exact hfirst
    · exact hrest x y z hinfix

theorem Onward.tail {z : ℂ} {path : List ℂ} (h : Onward (z :: path)) : Onward path :=
  fun a b c habc => h a b c (habc.trans (List.suffix_cons z path).isInfix)

theorem unrepeated_cons_self (z : ℂ) (rest : List ℂ) :
    unrepeated (z :: z :: rest) = unrepeated (z :: rest) := by
  simp [unrepeated, List.destutter]

theorem unrepeated_cons_of_ne {z w : ℂ} (h : z ≠ w) (rest : List ℂ) :
    unrepeated (z :: w :: rest) = z :: unrepeated (w :: rest) := by
  simp [unrepeated, List.destutter, h]

theorem exists_unrepeated_cons (z : ℂ) (rest : List ℂ) :
    ∃ more, unrepeated (z :: rest) = z :: more := by
  induction rest with
  | nil => exact ⟨[], by simp [unrepeated]⟩
  | cons w rest ih =>
    by_cases h : z = w
    · rw [← h, unrepeated_cons_self]
      exact ih
    · exact ⟨_, unrepeated_cons_of_ne h rest⟩

/-- A path that goes on from `c` after it has come there from `p` by a straight run, and never
turns back. -/
inductive Heading (p c : ℂ) (rest : List ℂ) : Prop
  /-- It has not moved yet. -/
  | still (stands : p = c) (onward : Onward (unrepeated (c :: rest)))
  /-- The last step was one from `b`, which lies where `p` does as seen from `c`. -/
  | run (b : ℂ) (moved : p ≠ c) (stepped : b ≠ c) (back : SameRay ℝ (b - c) (p - c))
      (onward : Onward (b :: unrepeated (c :: rest)))

variable {p c d : ℂ} {rest : List ℂ}

theorem Heading.onward (h : Heading p c rest) : Onward (unrepeated (c :: rest)) := by
  cases h with
  | still stands onward => exact onward
  | run b moved stepped back onward => exact onward.tail

/-- From each point on a path is heading for the next one. -/
theorem heading_of_onward (h : Onward (unrepeated (c :: d :: rest))) : Heading c d rest := by
  by_cases heq : c = d
  · rw [heq, unrepeated_cons_self] at h
    exact .still heq h
  · rw [unrepeated_cons_of_ne heq] at h
    exact .run c heq heq (.refl _) h

/-- A point of a row that the path goes on along is passed, and it goes on heading away from
where the run began. -/
theorem Heading.pass (h : Heading p c (d :: rest)) (hmoved : p ≠ c) (hrow : InRow p c d) :
    c ∈ segment ℝ p d ∧ Heading p d rest := by
  cases h with
  | still stands onward => exact absurd stands hmoved
  | run b moved stepped back onward =>
    by_cases heq : c = d
    · subst heq
      rw [unrepeated_cons_self] at onward
      exact ⟨right_mem_segment ℝ p c, .run b moved stepped back onward⟩
    · rw [unrepeated_cons_of_ne heq] at onward
      obtain ⟨more, hmore⟩ := exists_unrepeated_cons d rest
      have hturn := (onward_cons_cons_cons.1 (hmore ▸ onward)).1
      have hforth : ¬SameRay ℝ (p - c) (d - c) := fun hsame =>
        hturn (back.trans hsame fun hzero => absurd (sub_eq_zero.1 hzero) moved)
      have hbetween := hrow.mem_segment hforth
      have hfar : p ≠ d := by
        rintro rfl
        rw [segment_same, Set.mem_singleton_iff] at hbetween
        exact moved hbetween.symm
      have hback : SameRay ℝ (c - d) (p - d) :=
        (wbtw_comm.1 (mem_segment_iff_wbtw.1 hbetween)).sameRay_vsub_left
      exact ⟨hbetween, .run c hfar heq hback onward.tail⟩

end Onward

/-! ### Points -/

variable {α : Type} [Scalar α] (value : α → ℝ)

/-- A point as a point of the plane, whose coordinates are read as real numbers. -/
def Point.plot (p : Point α) : ℂ := ⟨value p.x, value p.y⟩

/-- Any two coordinates on one axis are equal, or they differ by more than a billionth. -/
structure Spread (line : List (Point α)) : Prop where
  /-- From left to right. -/
  x : ∀ p ∈ line, ∀ q ∈ line, Scalar.abs (p.x - q.x) ≤ 1e-9 ↔ value p.x = value q.x
  /-- From top to bottom. -/
  y : ∀ p ∈ line, ∀ q ∈ line, Scalar.abs (p.y - q.y) ≤ 1e-9 ↔ value p.y = value q.y

/-- Exact coordinates that are equal, or more than a billionth apart, are told apart. -/
theorem spread_of_exact [ExactScalar α] {line : List (Point α)}
    (hx : ∀ p ∈ line, ∀ q ∈ line, p.x = q.x ∨ (1e-9 : α) < Scalar.abs (p.x - q.x))
    (hy : ∀ p ∈ line, ∀ q ∈ line, p.y = q.y ∨ (1e-9 : α) < Scalar.abs (p.y - q.y)) :
    Spread ExactScalar.value line := by
  have haxis : ∀ a b : α, a = b ∨ (1e-9 : α) < Scalar.abs (a - b) →
      (Scalar.abs (a - b) ≤ 1e-9 ↔ ExactScalar.value a = ExactScalar.value b) := by
    intro a b hab
    constructor
    · intro hnear
      refine congrArg _ (hab.resolve_right fun hfar => ?_)
      exact absurd ((ExactScalar.lt_iff _ _).1 hfar) (not_lt.2 ((ExactScalar.le_iff _ _).1 hnear))
    · intro heq
      rw [ExactScalar.le_iff, ExactScalar.value_abs, ExactScalar.value_sub, heq, sub_self, abs_zero]
      simp
  exact ⟨fun p hp q hq => haxis _ _ (hx p hp q hq), fun p hp q hq => haxis _ _ (hy p hp q hq)⟩

section Spread

variable {value} {line : List (Point α)} (h : Spread value line)
include h

theorem Spread.near_iff {p q : Point α} (hp : p ∈ line) (hq : q ∈ line) :
    p.near q 1e-9 = true ↔ p.plot value = q.plot value := by
  rw [Point.near, Bool.and_eq_true, decide_eq_true_eq, decide_eq_true_eq, h.x p hp q hq,
    h.y p hp q hq, Complex.ext_iff]
  rfl

theorem Spread.straight_iff {p c d : Point α} (hp : p ∈ line) (hc : c ∈ line) (hd : d ∈ line) :
    straight p c d = true ↔ InRow (p.plot value) (c.plot value) (d.plot value) := by
  rw [straight, Bool.or_eq_true, Bool.and_eq_true, Bool.and_eq_true, decide_eq_true_eq,
    decide_eq_true_eq, decide_eq_true_eq, decide_eq_true_eq, h.x p hp c hc, h.x d hd c hc,
    h.y p hp c hc, h.y d hd c hc]
  rfl

/-- A compressed path covers what the path covers, if the path never turns back. -/
theorem trace_compressAfter {rest : List (Point α)} {p c : Point α}
    (hmem : ∀ q ∈ p :: c :: rest, q ∈ line)
    (hheading : Heading (p.plot value) (c.plot value) (rest.map (Point.plot value))) :
    trace ((p :: compressAfter p (c :: rest)).map (Point.plot value)) =
      trace ((p :: c :: rest).map (Point.plot value)) := by
  induction rest generalizing p c with
  | nil =>
    rw [compressAfter]
    split
    · next hnear =>
      rw [h.near_iff (hmem c (by simp)) (hmem p (by simp))] at hnear
      simp only [List.map_cons, List.map_nil, hnear, trace_cons_self]
    · rfl
  | cons d rest ih =>
    have hp := hmem p (by simp)
    have hc := hmem c (by simp)
    have hd := hmem d (by simp)
    have hrest : ∀ q ∈ c :: d :: rest, q ∈ line := fun q hq => hmem q (List.mem_cons_of_mem _ hq)
    have hleft : ∀ q ∈ p :: d :: rest, q ∈ line := by
      refine List.forall_mem_cons.2 ⟨hp, fun q hq => hrest q (List.mem_cons_of_mem _ hq)⟩
    rw [compressAfter]
    split
    · next hskip =>
      by_cases hstill : p.plot value = c.plot value
      · -- the point repeats the one that was kept last
        have hnext := heading_of_onward hheading.onward
        rw [← hstill] at hnext
        rw [ih hleft hnext]
        simp only [List.map_cons, ← hstill, trace_cons_self]
      · -- the point is passed by a straight run
        rw [Bool.or_eq_true, h.near_iff hc hp, h.straight_iff hp hc hd] at hskip
        have hrow := hskip.resolve_left (Ne.symm hstill)
        obtain ⟨hbetween, hnext⟩ := hheading.pass hstill hrow
        rw [ih hleft hnext]
        simp only [List.map_cons, trace_cons_cons, ← hrow.segment_union hbetween,
          Set.union_assoc]
    · have hnext := ih hrest (heading_of_onward hheading.onward)
      simp only [List.map_cons, trace_cons_cons] at hnext ⊢
      rw [hnext]

end Spread

/-! ### Compressed paths -/

/-- What a compressed path has to do with the path. -/
structure Compresses (line short : List (Point α)) : Prop where
  /-- Points are left out, and nothing else happens to them. -/
  sublist : short.Sublist line
  /-- The first point is kept. -/
  head : short.head? = line.head?
  /-- It ends at the last point. -/
  last : short.getLast?.map (Point.plot value) = line.getLast?.map (Point.plot value)
  /-- Each step is horizontal or vertical and leads somewhere else. -/
  steps : short.IsChain fun p q => p.plot value ≠ q.plot value ∧
    SharesAxis (p.plot value) (q.plot value)
  /-- It draws no more than the path. -/
  covered : ∀ s ∈ segments short, segment ℝ (s.1.plot value) (s.2.plot value) ⊆
    ⋃ t ∈ segments line, segment ℝ (t.1.plot value) (t.2.plot value)
  /-- It draws all of the path, if that never turns back. -/
  same : NeverTurnsBack (line.map (Point.plot value)) →
    trace (short.map (Point.plot value)) = trace (line.map (Point.plot value))

/-- What holds of the ends of a step, and of the run from the point that was kept last: they are
points of the path, and the line between them is horizontal or vertical and covered. -/
structure Runs (line : List (Point α)) (p q : Point α) : Prop where
  /-- The first point is one of the path. -/
  source : p ∈ line
  /-- So is the second one. -/
  target : q ∈ line
  /-- The line is horizontal or vertical. -/
  aligned : SharesAxis (p.plot value) (q.plot value)
  /-- It is covered by the lines of the path. -/
  covered : segment ℝ (p.plot value) (q.plot value) ⊆
    ⋃ t ∈ segments line, segment ℝ (t.1.plot value) (t.2.plot value)

/-- The run gets longer when a point is left out. -/
theorem Runs.skip {line : List (Point α)} (hspread : Spread value line) {p c d : Point α}
    (hpc : Runs value line p c) (hcd : Runs value line c d)
    (hskip : (c.near p 1e-9 || straight p c d) = true) : Runs value line p d := by
  rw [Bool.or_eq_true, hspread.near_iff hpc.target hpc.source,
    hspread.straight_iff hpc.source hpc.target hcd.target] at hskip
  rcases hskip with hsame | hrow
  · exact ⟨hpc.source, hcd.target, hsame ▸ hcd.aligned, hsame ▸ hcd.covered⟩
  · exact ⟨hpc.source, hcd.target, hrow.sharesAxis,
      hrow.segment_subset.trans (Set.union_subset hpc.covered hcd.covered)⟩

omit [Scalar α] in
/-- The steps of a path are runs. -/
theorem isChain_runs {line : List (Point α)}
    (hsteps : line.IsChain fun p q => SharesAxis (p.plot value) (q.plot value)) :
    line.IsChain (Runs value line) := by
  rw [isChain_iff_forall_segments] at hsteps ⊢
  intro s hs
  have hends : s.1 ∈ line ∧ s.2 ∈ line :=
    ⟨(List.of_mem_zip hs).1, List.mem_of_mem_drop (List.of_mem_zip hs).2⟩
  exact ⟨hends.1, hends.2, hsteps s hs,
    Set.subset_biUnion_of_mem (u := fun t : Point α × Point α =>
      segment ℝ (t.1.plot value) (t.2.plot value)) hs⟩

variable {value}

/-- A path of three points or more whose steps are horizontal or vertical is compressed. -/
theorem compressPath_compresses {line : List (Point α)} (hlength : 3 ≤ line.length)
    (hspread : Spread value line)
    (hsteps : line.IsChain fun p q => SharesAxis (p.plot value) (q.plot value)) :
    Compresses value line (compressPath line) := by
  have hruns := isChain_runs value hsteps
  obtain ⟨p, c, d, rest, rfl⟩ : ∃ p c d rest, line = p :: c :: d :: rest := by
    match line, hlength with
    | p :: c :: d :: rest, _ => exact ⟨p, c, d, rest, rfl⟩
  obtain ⟨hpc, hrest⟩ := List.isChain_cons_cons.1 hruns
  have hshort := isChain_compressAfter (fun _ _ h => h) (fun _ _ _ => Runs.skip value hspread)
    hpc hrest
  constructor
  case sublist => exact compressPath_sublist _
  case head => exact head?_compressPath _
  case last =>
    have hnear : ∀ x ∈ p :: c :: d :: rest, ∀ y ∈ p :: c :: d :: rest,
        x.near y 1e-9 = true → x.plot value = y.plot value := fun x hx y hy =>
      (hspread.near_iff hx hy).1
    rw [List.getLast?_cons_cons (a := p)]
    exact getLast?_compressAfter (Point.plot value) hnear
  case steps =>
    refine hshort.imp fun q r hqr => ⟨fun heq => ?_, hqr.2.aligned⟩
    have hnear := (hspread.near_iff hqr.2.target hqr.2.source).2 heq.symm
    exact Bool.false_ne_true (hqr.1.symm.trans hnear)
  case covered => exact fun s hs => (isChain_iff_forall_segments.1 hshort s hs).2.covered
  case same =>
    intro honward
    exact trace_compressAfter hspread (fun q hq => hq) (heading_of_onward honward)

/-- A path that stands still at its start, and goes right by a straight run and then down. -/
def restingPath : List (Point ℚ) := [⟨0, 0⟩, ⟨0, 0⟩, ⟨1, 0⟩, ⟨2, 0⟩, ⟨2, 3⟩]

/-- Its start, its corner and its end are left, and they draw the same line. -/
theorem compressPath_restingPath :
    3 ≤ restingPath.length ∧ Spread ExactScalar.value restingPath ∧
      (restingPath.IsChain fun p q =>
        SharesAxis (p.plot ExactScalar.value) (q.plot ExactScalar.value)) ∧
      NeverTurnsBack (restingPath.map (Point.plot ExactScalar.value)) ∧
      (compressPath restingPath == [⟨0, 0⟩, ⟨2, 0⟩, ⟨2, 3⟩]) = true ∧
      Compresses ExactScalar.value restingPath (compressPath restingPath) ∧
      trace ((compressPath restingPath).map (Point.plot ExactScalar.value)) =
        trace (restingPath.map (Point.plot ExactScalar.value)) := by
  have hlength : 3 ≤ restingPath.length := by decide
  have hspread : Spread ExactScalar.value restingPath :=
    spread_of_exact (by decide +kernel) (by decide +kernel)
  have hsteps : restingPath.IsChain fun p q =>
      SharesAxis (p.plot ExactScalar.value) (q.plot ExactScalar.value) := by
    simp [restingPath, SharesAxis, Point.plot]
  have honward : NeverTurnsBack (restingPath.map (Point.plot ExactScalar.value)) := by
    have hrun : ¬SameRay ℝ ((0 : ℂ) - 1) (2 - 1) := by
      intro h
      have := h.norm_add
      norm_num at this
    have hcorner : ¬SameRay ℝ ((1 : ℂ) - 2) (⟨2, 3⟩ - 2) := by
      intro h
      obtain ⟨r, s, hr, hs, heq⟩ := h.exists_pos (by norm_num) (by simp [Complex.ext_iff])
      have := congrArg Complex.im heq
      simp [hs.ne'] at this
    have hplot : restingPath.map (Point.plot ExactScalar.value) = [0, 0, 1, 2, ⟨2, 3⟩] := by
      simp [restingPath, Point.plot, ExactScalar.value, Complex.ext_iff]
    have hdistinct : unrepeated [0, 0, 1, 2, ⟨2, 3⟩] = [0, 1, 2, ⟨2, 3⟩] := by
      rw [unrepeated_cons_self, unrepeated_cons_of_ne (by norm_num),
        unrepeated_cons_of_ne (by norm_num), unrepeated_cons_of_ne (by simp [Complex.ext_iff])]
      rfl
    rw [NeverTurnsBack, hplot, hdistinct, onward_cons_cons_cons, onward_cons_cons_cons]
    exact ⟨hrun, hcorner, onward_pair _ _⟩
  have hshort := compressPath_compresses hlength hspread hsteps
  exact ⟨hlength, hspread, hsteps, honward, by decide +kernel, hshort, hshort.same honward⟩

end Schematic
