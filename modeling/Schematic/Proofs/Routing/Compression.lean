import Schematic.Proofs.Routing.Taken
import Schematic.Proofs.Routing.Trail
import Schematic.Routing.Path

/-!
# Compressed paths of grid cells

Leaving out the points on straight runs keeps the drawn line: every segment of a
compressed path is a run of the path it came from.  What such a run inherits from
single steps is proved once, for any relation between its two ends and any path; a path
of cells is one whose points are told apart by their cells.

## Main definitions

* `InLine` — three cells of one line.
* `Covered` — a run passes cells of a path only.

## Main statements

* `compressAfter_sublist` — points are left out, and nothing else happens to them.
* `isChain_compressAfter` — a relation that single steps have, and that goes on when a
  point is left out, holds along a compressed path.
* `getLast?_compressPath` — a compressed path ends where the path ends.
* `segments_compressPath` — a relation that single steps have, and that goes on
  along straight runs, holds between the ends of every segment.
* `axisParallel_of_mem_segments` — the segments of a path of cells are horizontal
  or vertical.
* `mem_of_onRun_segment` — the cells on the segments of a path are cells of the
  path.
-/

namespace Schematic

open scoped Scalar
open ExactScalar

variable {α : Type} [Scalar α]

/-! ### Any path -/

theorem segments_cons_cons {β : Type} (p q : β) (rest : List β) :
    segments (p :: q :: rest) = (p, q) :: segments (q :: rest) := rfl

/-- A relation along a path is a relation between the ends of its segments. -/
theorem isChain_iff_forall_segments {β : Type} {Q : β → β → Prop} {path : List β} :
    path.IsChain Q ↔ ∀ s ∈ segments path, Q s.1 s.2 := by
  induction path with
  | nil => exact iff_of_true .nil fun s hs => absurd hs List.not_mem_nil
  | cons p path ih =>
    cases path with
    | nil => exact iff_of_true (.singleton p) fun s hs => absurd hs List.not_mem_nil
    | cons q rest =>
      rw [List.isChain_cons_cons, segments_cons_cons, List.forall_mem_cons, ih]

/-- Points are left out, and nothing else happens to them. -/
theorem compressAfter_sublist (p : Point α) (line : List (Point α)) :
    (compressAfter p line).Sublist line := by
  fun_induction compressAfter p line with
  | case1 => exact .refl _
  | case2 => exact List.nil_sublist _
  | case3 => exact .refl _
  | case4 p c d rest hskip ih => exact ih.cons c
  | case5 p c d rest hkeep ih => exact ih.cons_cons c

theorem compressPath_sublist (line : List (Point α)) : (compressPath line).Sublist line := by
  match line with
  | [] | [_] | [_, _] => exact .refl _
  | p :: c :: d :: rest => exact (compressAfter_sublist p (c :: d :: rest)).cons_cons p

/-- A compressed path starts where the path starts. -/
theorem head?_compressPath (line : List (Point α)) : (compressPath line).head? = line.head? := by
  match line with
  | [] | [_] | [_, _] | _ :: _ :: _ :: _ => rfl

/-- The last point of a path is kept, or one that it cannot be told from has been kept
before. -/
theorem getLast?_compressAfter {β : Type} (f : Point α → β) {rest : List (Point α)}
    {p c : Point α} (hf : ∀ x ∈ p :: c :: rest, ∀ y ∈ p :: c :: rest,
      x.near y 1e-9 = true → f x = f y) :
    (p :: compressAfter p (c :: rest)).getLast?.map f = (c :: rest).getLast?.map f := by
  induction rest generalizing p c with
  | nil =>
    rw [compressAfter]
    split
    · next hnear => exact congrArg some (hf c (by simp) p (by simp) hnear).symm
    · rfl
  | cons d rest ih =>
    rw [compressAfter, List.getLast?_cons_cons (a := c)]
    split
    · refine ih fun x hx y hy => hf x ?_ y ?_
      · rcases List.mem_cons.1 hx with rfl | hx
        · exact List.mem_cons_self
        · exact List.mem_cons_of_mem _ (List.mem_cons_of_mem _ hx)
      · rcases List.mem_cons.1 hy with rfl | hy
        · exact List.mem_cons_self
        · exact List.mem_cons_of_mem _ (List.mem_cons_of_mem _ hy)
    · rw [List.getLast?_cons_cons]
      exact ih fun x hx y hy => hf x (List.mem_cons_of_mem _ hx) y (List.mem_cons_of_mem _ hy)

/-- Let a relation hold between the point that was kept last and the one before the rest, hold
for single steps and go on when a point is left out.  Then it holds along the compressed
path, the points of which are apart. -/
theorem isChain_compressAfter {R P : Point α → Point α → Prop} (hstep : ∀ c d, R c d → P c d)
    (hskip : ∀ p c d, P p c → R c d → (c.near p 1e-9 || straight p c d) = true → P p d)
    {rest : List (Point α)} {p c : Point α} (hpc : P p c) (hchain : (c :: rest).IsChain R) :
    (p :: compressAfter p (c :: rest)).IsChain fun q s => s.near q 1e-9 = false ∧ P q s := by
  induction rest generalizing p c with
  | nil =>
    rw [compressAfter]
    split
    · exact .singleton p
    · next hfar =>
      exact List.isChain_cons_cons.2 ⟨⟨Bool.eq_false_iff.2 hfar, hpc⟩, .singleton c⟩
  | cons d rest ih =>
    obtain ⟨hcd, hchain⟩ := List.isChain_cons_cons.1 hchain
    rw [compressAfter]
    split
    · -- the point is left out, and the run from the last kept point gets longer
      next hleft => exact ih (hskip p c d hpc hcd hleft) hchain
    · -- the point is kept, and a segment ends there
      next hkeep =>
      rw [Bool.or_eq_true, not_or] at hkeep
      exact List.isChain_cons_cons.2
        ⟨⟨Bool.eq_false_iff.2 hkeep.1, hpc⟩, ih (hstep c d hcd) hchain⟩

/-! ### Cells on the grid -/

variable [ExactScalar α] {pitch : α}

/-- Three cells of one column or one row. -/
def InLine (p c d : Cell) : Prop := p.1 = c.1 ∧ d.1 = c.1 ∨ p.2 = c.2 ∧ d.2 = c.2

theorem tolerance_lt (hpitch : (1e-9 : α) < pitch) :
    0 < value (1e-9 : α) ∧ value (1e-9 : α) < value pitch := by
  refine ⟨?_, (lt_iff _ _).1 hpitch⟩
  rw [value_decimal]
  positivity

theorem pitch_pos (hpitch : (1e-9 : α) < pitch) : 0 < value pitch :=
  (tolerance_lt hpitch).1.trans (tolerance_lt hpitch).2

theorem abs_sub_point_le_iff (hpitch : (1e-9 : α) < pitch) {i j : Int} :
    Scalar.abs ((Scalar.ofInt i : α) * pitch - Scalar.ofInt j * pitch) ≤ (1e-9 : α) ↔ i = j := by
  obtain ⟨htol, hlt⟩ := tolerance_lt hpitch
  have hpos := pitch_pos hpitch
  rw [le_iff, value_abs, value_sub, value_mul, value_mul, value_ofInt, value_ofInt, ← sub_mul,
    abs_mul, abs_of_pos hpos]
  constructor
  · intro h
    by_contra hne
    -- Different grid lines are a whole pitch apart at least.
    have hone : (1 : ℝ) ≤ |(i : ℝ) - j| := by
      rw [← Int.cast_sub, ← Int.cast_abs]
      exact_mod_cast Int.one_le_abs (sub_ne_zero.2 hne)
    have := le_mul_of_one_le_left hpos.le hone
    linarith
  · rintro rfl
    rw [sub_self, abs_zero, zero_mul]
    exact htol.le

theorem near_point_iff (hpitch : (1e-9 : α) < pitch) {c d : Cell} :
    (c.point pitch).near (d.point pitch) 1e-9 = true ↔ c = d := by
  rw [Point.near, Bool.and_eq_true, decide_eq_true_eq, decide_eq_true_eq, Prod.ext_iff]
  exact and_congr (abs_sub_point_le_iff hpitch) (abs_sub_point_le_iff hpitch)

theorem straight_point_iff (hpitch : (1e-9 : α) < pitch) {p c d : Cell} :
    straight (p.point pitch) (c.point pitch) (d.point pitch) = true ↔ InLine p c d := by
  rw [straight, Bool.or_eq_true, Bool.and_eq_true, Bool.and_eq_true, decide_eq_true_eq,
    decide_eq_true_eq, decide_eq_true_eq, decide_eq_true_eq]
  exact or_congr
    (and_congr (abs_sub_point_le_iff hpitch) (abs_sub_point_le_iff hpitch))
    (and_congr (abs_sub_point_le_iff hpitch) (abs_sub_point_le_iff hpitch))

theorem between_point_iff (hpitch : 0 < value pitch) {i j k : Int} :
    Between ((Scalar.ofInt i : α) * pitch) (Scalar.ofInt j * pitch) (Scalar.ofInt k * pitch) ↔
      Between i j k := by
  simp only [Between, le_iff, value_mul, value_ofInt, mul_le_mul_iff_left₀ hpitch, Int.cast_le]

theorem onRun_point_iff (hpitch : 0 < value pitch) {c p q : Cell} :
    (c.point pitch).OnRun (p.point pitch) (q.point pitch) ↔
      Between p.1 c.1 q.1 ∧ Between p.2 c.2 q.2 :=
  and_congr (between_point_iff hpitch) (between_point_iff hpitch)

/-- A compressed path of cells ends where the path ends. -/
theorem getLast?_compressPath (hpitch : (1e-9 : α) < pitch) (cells : List Cell) :
    (compressPath (cells.map (Cell.point pitch))).getLast? =
      (cells.map (Cell.point pitch)).getLast? := by
  match cells with
  | [] | [_] | [_, _] => rfl
  | c :: d :: e :: rest =>
    have hsame : ∀ x ∈ (c :: d :: e :: rest).map (Cell.point pitch),
        ∀ y ∈ (c :: d :: e :: rest).map (Cell.point pitch), x.near y 1e-9 = true → id x = id y := by
      intro x hx y hy hnear
      obtain ⟨i, -, rfl⟩ := List.mem_map.1 hx
      obtain ⟨j, -, rfl⟩ := List.mem_map.1 hy
      rw [(near_point_iff hpitch).1 hnear]
    have hlast := getLast?_compressAfter id hsame
    rw [Option.map_id, id, id] at hlast
    exact hlast.trans List.getLast?_cons_cons.symm

section Relation

variable {R P : Cell → Cell → Prop} (hpitch : (1e-9 : α) < pitch)
  (hne : ∀ c d, R c d → c ≠ d) (hstep : ∀ c d, R c d → P c d)
  (hrun : ∀ p c d, P p c → R c d → InLine p c d → P p d)
include hpitch hne hstep hrun

/-- Let a relation hold between neighbours of a path and go on along straight
runs.  Then it holds between the ends of every segment of the compressed path,
and these are different cells. -/
theorem segments_compressPath {cells : List Cell} (hchain : cells.IsChain R) :
    ∀ s ∈ segments (compressPath (cells.map (Cell.point pitch))),
      ∃ p q : Cell, s = (p.point pitch, q.point pitch) ∧ p ≠ q ∧ P p q := by
  intro s hs
  match cells with
  | [] => exact absurd hs List.not_mem_nil
  | [c] => exact absurd hs List.not_mem_nil
  | [c, d] =>
    have hcd := (List.isChain_cons_cons.1 hchain).1
    exact ⟨c, d, List.mem_singleton.1 hs, hne c d hcd, hstep c d hcd⟩
  | c :: d :: e :: rest =>
    obtain ⟨hcd, hchain⟩ := List.isChain_cons_cons.1 hchain
    let point : Cell → Point α := Cell.point pitch
    have hpoints : ((d :: e :: rest).map point).IsChain (Relation.Map R point point) :=
      (List.isChain_map point).2 (hchain.imp fun c d h => ⟨c, d, h, rfl, rfl⟩)
    have hskip : ∀ x y z, Relation.Map P point point x y → Relation.Map R point point y z →
        (y.near x 1e-9 || straight x y z) = true → Relation.Map P point point x z := by
      rintro _ _ _ ⟨i, j, hij, rfl, rfl⟩ ⟨j', k, hjk, hj, rfl⟩ hleft
      obtain rfl : j' = j := (near_point_iff hpitch).1 (by
        rw [show j'.point pitch = j.point pitch from hj]
        exact (near_point_iff hpitch).2 rfl)
      rw [Bool.or_eq_true, near_point_iff hpitch, straight_point_iff hpitch] at hleft
      rcases hleft with rfl | hline
      · exact ⟨_, k, hstep _ k hjk, rfl, rfl⟩
      · exact ⟨i, k, hrun i j' k hij hjk hline, rfl, rfl⟩
    have hshort := isChain_compressAfter
      (fun _ _ ⟨i, j, hij, hi, hj⟩ => ⟨i, j, hstep i j hij, hi, hj⟩) hskip
      ⟨c, d, hstep c d hcd, rfl, rfl⟩ hpoints
    obtain ⟨hfar, p, q, hpq, hp, hq⟩ := isChain_iff_forall_segments.1 hshort s hs
    refine ⟨p, q, Prod.ext hp.symm hq.symm, fun heq => ?_, hpq⟩
    rw [← hp, ← hq, heq] at hfar
    exact Bool.false_ne_true (hfar.symm.trans ((near_point_iff hpitch).2 rfl))

end Relation

/-- The segments of a path of cells are horizontal or vertical, if each step
stays in a column or a row. -/
theorem axisParallel_of_mem_segments (hpitch : (1e-9 : α) < pitch) {cells : List Cell}
    (hchain : cells.IsChain fun c d => c ≠ d ∧ (c.1 = d.1 ∨ c.2 = d.2)) :
    ∀ s ∈ segments (compressPath (cells.map (Cell.point pitch))), AxisParallel s.1 s.2 := by
  intro s hs
  obtain ⟨p, q, rfl, hne, hline⟩ := segments_compressPath (P := fun p q => p.1 = q.1 ∨ p.2 = q.2)
    hpitch (fun _ _ h => h.1) (fun _ _ h => h.2) (fun p c d _ _ hline =>
      hline.imp (fun h => h.1.trans h.2.symm) fun h => h.1.trans h.2.symm) hchain s hs
  refine ⟨Bool.eq_false_iff.2 fun hnear => hne ((near_point_iff hpitch).1 hnear), ?_⟩
  rcases hline with hx | hy
  · exact .inr (by simp only [Cell.point, hx])
  · exact .inl (by simp only [Cell.point, hy])

/-- All cells on the run between two cells are cells of a path. -/
def Covered (cells : List Cell) (p q : Cell) : Prop :=
  ∀ c : Cell, Between p.1 c.1 q.1 ∧ Between p.2 c.2 q.2 → c ∈ cells

section Covered

variable {cells : List Cell} {p c : Cell} {dir : Direction}

theorem Direction.ne_move (dir : Direction) (c : Cell) : c ≠ dir.move c := by
  intro heq
  cases dir <;> simp only [Direction.move, Prod.ext_iff] at heq <;> omega

/-- Between two neighbours there are only these two. -/
theorem covered_move (hc : c ∈ cells) (hd : dir.move c ∈ cells) : Covered cells c (dir.move c) := by
  rintro e ⟨hx, hy⟩
  have hends : e = c ∨ e = dir.move c := by
    simp only [Between] at hx hy
    cases dir <;> simp only [Direction.move, Prod.ext_iff] at hx hy ⊢ <;> omega
  rcases hends with rfl | rfl
  · exact hc
  · exact hd

/-- One more step along a run adds the cell it leads to. -/
theorem Covered.move (h : Covered cells p c) (hd : dir.move c ∈ cells)
    (hline : InLine p c (dir.move c)) : Covered cells p (dir.move c) := by
  rintro e ⟨hx, hy⟩
  have hlonger : (Between p.1 e.1 c.1 ∧ Between p.2 e.2 c.2) ∨ e = dir.move c := by
    simp only [Between, InLine] at hx hy hline ⊢
    cases dir <;> simp only [Direction.move, Prod.ext_iff] at hx hy hline ⊢ <;> omega
  rcases hlonger with hbetween | rfl
  · exact h e hbetween
  · exact hd

end Covered

/-- The cells on the segments of a path are cells of the path, if each step leads
to one of the four neighbours. -/
theorem mem_of_onRun_segment (hpitch : (1e-9 : α) < pitch) {cells : List Cell}
    (hchain : cells.IsChain fun c d => ∃ dir : Direction, d = dir.move c) :
    ∀ s ∈ segments (compressPath (cells.map (Cell.point pitch))), ∀ c : Cell,
      (c.point pitch).OnRun s.1 s.2 → c ∈ cells := by
  have hmem : cells.IsChain fun c d =>
      (∃ dir : Direction, d = dir.move c) ∧ c ∈ cells ∧ d ∈ cells := by
    rw [List.isChain_iff_getElem] at hchain ⊢
    exact fun i hi => ⟨hchain i hi, List.getElem_mem _, List.getElem_mem _⟩
  intro s hs c hc
  obtain ⟨p, q, rfl, -, hcover⟩ := segments_compressPath (P := Covered cells) hpitch
    (by
      rintro c _ ⟨⟨dir, rfl⟩, -⟩
      exact dir.ne_move c)
    (by
      rintro c _ ⟨⟨dir, rfl⟩, hc, hd⟩
      exact covered_move hc hd)
    (by
      rintro p c _ hcover ⟨⟨dir, rfl⟩, -, hd⟩ hline
      exact hcover.move hd hline)
    hmem s hs
  exact hcover c ((onRun_point_iff (pitch_pos hpitch)).1 hc)

end Schematic
