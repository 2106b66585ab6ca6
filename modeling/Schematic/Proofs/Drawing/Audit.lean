import Schematic.Drawing.Check
import Schematic.Proofs.Circuit.Operation
import Schematic.Proofs.Geometry.Plane

/-!
# What a check without findings means

The check of a drawing compares ends of wires with other wires, and wires with
boxes.  For horizontal and vertical wires these few comparisons decide what the
wires are as sets of points.

## Main definitions

* `Wire.points`, `Wire.inner` — the points of a wire, without its ends.
* `Wire.Crosses` — two wires that meet at right angles inside of both.
* `Netlist.Sound` — what a drawing is that has nothing wrong with it.

## Main statements

* `Wire.disjoint_or_crosses` — wires with no end on each other meet properly or
  not at all.
* `Netlist.sound_of_no_findings` — a drawing in which the check finds nothing is sound.
-/

namespace Schematic

open ExactScalar
open scoped Scalar

variable {α : Type} [Scalar α] [ExactScalar α]

/-! ### Wires as sets of points -/

namespace Wire

variable {v w : Wire α}

/-- The points of a wire. -/
def points (w : Wire α) : Set ℂ := segment ℝ w.a.complex w.b.complex

/-- The points of a wire between its ends. -/
def inner (w : Wire α) : Set ℂ := openSegment ℝ w.a.complex w.b.complex

/-- A horizontal and a vertical wire, in either order, meet in one point, which is an end of
neither. -/
structure Crosses (v w : Wire α) : Prop where
  /-- One is horizontal and the other one vertical. -/
  square : (v.a.y = v.b.y ∧ w.a.x = w.b.x) ∨ (v.a.x = v.b.x ∧ w.a.y = w.b.y)
  /-- They meet in one point, inside of both. -/
  meet : ∃ p, v.points ∩ w.points = {p} ∧ p ∈ v.inner ∧ p ∈ w.inner

theorem Crosses.comm (h : v.Crosses w) : w.Crosses v := by
  obtain ⟨p, hmeet, hv, hw⟩ := h.meet
  refine ⟨h.square.symm.imp And.symm And.symm, p, ?_, hw, hv⟩
  rw [Set.inter_comm, hmeet]

/-- Some end of a wire is on the other one. -/
def Touch (v w : Wire α) : Prop :=
  (v.a.complex ∈ w.points ∨ v.b.complex ∈ w.points) ∨ w.a.complex ∈ v.points ∨ w.b.complex ∈ v.points

/-- Of two intervals that meet one has an end in the other. -/
theorem end_mem_uIcc {a b c d x : ℝ} (h : x ∈ Set.uIcc a b) (h' : x ∈ Set.uIcc c d) :
    (a ∈ Set.uIcc c d ∨ b ∈ Set.uIcc c d) ∨ c ∈ Set.uIcc a b ∨ d ∈ Set.uIcc a b := by
  simp only [Set.mem_uIcc] at *
  by_contra hno
  push Not at hno
  rcases le_total a b with hab | hab <;> rcases le_total c d with hcd | hcd <;>
    rcases h with h | h <;> rcases h' with h' | h' <;>
    obtain ⟨⟨h1, h2⟩, h3, h4⟩ := hno <;> grind

/-- Parallel wires that meet touch. -/
theorem touch_of_parallel (hv : Straight v.a v.b) (hw : Straight w.a w.b)
    (h : (v.a.y = v.b.y ∧ w.a.y = w.b.y) ∨ (v.a.x = v.b.x ∧ w.a.x = w.b.x)) {p : ℂ}
    (hpv : p ∈ v.points) (hpw : p ∈ w.points) : v.Touch w := by
  rw [points, hv.segment_eq] at hpv
  rw [points, hw.segment_eq] at hpw
  obtain ⟨hvx, hvy⟩ := hpv
  obtain ⟨hwx, hwy⟩ := hpw
  rw [Touch, points, points, hv.segment_eq, hw.segment_eq]
  simp only [Complex.mem_reProdIm, Point.complex]
  rcases h with ⟨hy, hy'⟩ | ⟨hx, hx'⟩
  · rw [hy, Set.uIcc_self] at hvy
    rw [hy', Set.uIcc_self] at hwy
    have hlevel : value v.b.y = value w.b.y := hvy.symm.trans hwy
    simp only [hy, hy', hlevel, Set.uIcc_self, Set.mem_singleton, and_true]
    exact end_mem_uIcc hvx hwx
  · rw [hx, Set.uIcc_self] at hvx
    rw [hx', Set.uIcc_self] at hwx
    have hlevel : value v.b.x = value w.b.x := hvx.symm.trans hwx
    simp only [hx, hx', hlevel, Set.uIcc_self, Set.mem_singleton, true_and]
    exact end_mem_uIcc hvy hwy

/-- A horizontal and a vertical wire meet in one point at most. -/
theorem eq_of_square (hv : Straight v.a v.b) (hw : Straight w.a w.b)
    (h : (v.a.y = v.b.y ∧ w.a.x = w.b.x) ∨ (v.a.x = v.b.x ∧ w.a.y = w.b.y)) {p q : ℂ}
    (hp : p ∈ v.points ∩ w.points) (hq : q ∈ v.points ∩ w.points) : p = q := by
  simp only [points, hv.segment_eq, hw.segment_eq, Set.mem_inter_iff, Complex.mem_reProdIm] at hp hq
  rcases h with ⟨hy, hx⟩ | ⟨hx, hy⟩
  · simp only [hy, hx, Set.uIcc_self, Set.mem_singleton_iff] at hp hq
    exact Complex.ext (hp.2.1.trans hq.2.1.symm) (hp.1.2.trans hq.1.2.symm)
  · simp only [hy, hx, Set.uIcc_self, Set.mem_singleton_iff] at hp hq
    exact Complex.ext (hp.1.1.trans hq.1.1.symm) (hp.2.2.trans hq.2.2.symm)

/-- Wires with no end on each other meet at right angles inside of both, or not at all. -/
theorem disjoint_or_crosses (hv : Straight v.a v.b) (hw : Straight w.a w.b) (h : ¬v.Touch w) :
    Disjoint v.points w.points ∨ v.Crosses w := by
  rcases Set.disjoint_or_nonempty_inter v.points w.points with hdisjoint | ⟨p, hpv, hpw⟩
  · exact .inl hdisjoint
  right
  -- a common point is no end, for an end of one wire would be on the other one
  have hinner : p ∈ v.inner ∧ p ∈ w.inner := by
    constructor
    · refine mem_openSegment_of_ne_left_right ?_ ?_ hpv
      · rintro rfl
        exact h (.inl (.inl hpw))
      · rintro rfl
        exact h (.inl (.inr hpw))
    · refine mem_openSegment_of_ne_left_right ?_ ?_ hpw
      · rintro rfl
        exact h (.inr (.inl hpv))
      · rintro rfl
        exact h (.inr (.inr hpv))
  have hsquare : (v.a.y = v.b.y ∧ w.a.x = w.b.x) ∨ (v.a.x = v.b.x ∧ w.a.y = w.b.y) := by
    have hparallel := fun hdir => h (touch_of_parallel hv hw hdir hpv hpw)
    rcases hv with ⟨hvy, -⟩ | ⟨hvx, -⟩ <;> rcases hw with ⟨hwy, -⟩ | ⟨hwx, -⟩
    · exact absurd (.inl ⟨hvy, hwy⟩) hparallel
    · exact .inl ⟨hvy, hwx⟩
    · exact .inr ⟨hvx, hwy⟩
    · exact absurd (.inr ⟨hvx, hwx⟩) hparallel
  refine ⟨hsquare, p, ?_, hinner⟩
  refine Set.eq_singleton_iff_unique_mem.2 ⟨⟨hpv, hpw⟩, ?_⟩
  intro q hq
  exact eq_of_square hv hw hsquare hq ⟨hpv, hpw⟩

end Wire

/-! ### What the check decides -/

namespace Netlist

variable {n : Netlist α} {symbols : SymbolSource α} {terminals : Array (Option (Terminal α))}
  {wires : List (Wire α)} {tolerance : α}

/-- A drawing with nothing wrong with its wires.  What a wire touches is meant within the
tolerance; what it meets and what it enters is meant exactly. -/
structure Sound (n : Netlist α) (symbols : SymbolSource α)
    (terminals : Array (Option (Terminal α))) (wires : List (Wire α)) (tolerance : α) : Prop where
  /-- Wires of different nets do not meet, or they cross. -/
  apart : ∀ v ∈ wires, ∀ w ∈ wires, v.net ≠ w.net → Disjoint v.points w.points ∨ v.Crosses w
  /-- A pin on a wire is on the net of the wire. -/
  own : ∀ w ∈ wires, ∀ t, some t ∈ terminals → t.point.complex ∈ w.points →
    n.netOfPin? t.pin = some w.net
  /-- Some wire of its net touches every pin, unless the net is marked as unconnected. -/
  reached : ∀ t, some t ∈ terminals → ∀ net, n.netOfPin? t.pin = some net →
    n.isNoConnectNet net = false →
      ∃ w ∈ wires, w.net = net ∧ onSegment t.point w.a w.b tolerance = true
  /-- A wire enters the box of a component only if it touches one of its pins. -/
  clear : ∀ w ∈ wires, ∀ id box, (id, box) ∈ (ObstacleMap.ofNetlist n symbols 0).entries →
    (w.points ∩ box.inside).Nonempty →
      ∃ t, some t ∈ terminals ∧ t.component = id ∧ onSegment t.point w.a w.b tolerance = true

omit [Scalar α] [ExactScalar α] in
theorem mem_filterMap_id {t : Terminal α} :
    t ∈ terminals.toList.filterMap id ↔ some t ∈ terminals := by
  simp

/-- A joint of two wires is found when an end of one is on the other. -/
theorem joint?_isSome {v w : Wire α} (hv : Straight v.a v.b) (hw : Straight w.a w.b)
    (htol : 0 ≤ value tolerance) (h : v.Touch w) : (joint? tolerance v w).isSome := by
  have hon : ∀ {x : Wire α} {p : Point α}, Straight x.a x.b → p.complex ∈ x.points →
      onSegment p x.a x.b tolerance = true := fun hx hp => onSegment_of_mem hx htol hp
  simp only [joint?, Option.orElse_eq_or, Option.isSome_or, Bool.or_eq_true, List.find?_isSome,
    List.mem_cons, List.not_mem_nil, or_false, exists_eq_or_imp, exists_eq_left]
  exact h.imp (Or.imp (hon hw) (hon hw)) (Or.imp (hon hv) (hon hv))

/-- A drawing in which the check finds nothing is sound. -/
theorem sound_of_no_findings (htol : (0 : α) ≤ tolerance)
    (hstraight : ∀ w ∈ wires, Straight w.a w.b)
    (h : n.wireFindings symbols terminals wires tolerance = []) :
    n.Sound symbols terminals wires tolerance := by
  have htol' : 0 ≤ value tolerance := by simpa [le_iff] using htol
  simp only [wireFindings, List.append_eq_nil_iff, List.flatMap_eq_nil_iff,
    List.filterMap_eq_nil_iff] at h
  obtain ⟨⟨hwire, hjoint⟩, hreach⟩ := h
  constructor
  case apart =>
    -- a pair with a joint is a finding in whichever order its wires come
    have hpair : ∀ v ∈ wires, ∀ w ∈ wires, v.net ≠ w.net → (v, w) ∈ pairs wires →
        Disjoint v.points w.points ∨ v.Crosses w := by
      intro v hv w hw hnet hmem
      refine Wire.disjoint_or_crosses (hstraight v hv) (hstraight w hw) fun htouch => ?_
      have hnone := hjoint (v, w) hmem
      rw [jointFinding?, if_neg hnet, Option.map_eq_none_iff] at hnone
      have hsome := joint?_isSome (hstraight v hv) (hstraight w hw) htol' htouch
      rw [hnone] at hsome
      cases hsome
    intro v hv w hw hnet
    have hne : v ≠ w := fun heq => hnet (congrArg Wire.net heq)
    rcases mem_pairs_or hv hw hne with hmem | hmem
    · exact hpair v hv w hw hnet hmem
    · exact (hpair w hw v hv (Ne.symm hnet) hmem).imp (fun hdisjoint => hdisjoint.symm)
        Wire.Crosses.comm
  case own =>
    intro w hw t ht hon
    have hnone := (hwire w hw).2
    rw [touchFindings, List.map_eq_nil_iff, List.filter_eq_nil_iff] at hnone
    have htouch : w.touches tolerance t = true := onSegment_of_mem (hstraight w hw) htol' hon
    simpa [htouch] using hnone t (mem_filterMap_id.2 ht)
  case reached =>
    intro t ht net hnet hmarked
    have hnone := hreach t (mem_filterMap_id.2 ht)
    simp only [reachFinding?, hnet, hmarked, Bool.false_or, ite_eq_left_iff, reduceCtorEq,
      imp_false, Bool.not_eq_true, Bool.not_eq_false] at hnone
    obtain ⟨w, hw, hfound⟩ := List.any_eq_true.1 hnone
    rw [Bool.and_eq_true, beq_iff_eq] at hfound
    exact ⟨w, hw, hfound.1, hfound.2⟩
  case clear =>
    rintro w hw id box hbox ⟨p, hp, hinside⟩
    have hnone := (hwire w hw).1
    rw [crossingFindings, List.map_eq_nil_iff, List.filter_eq_nil_iff] at hnone
    have hcrossed : box.crossedBy w.a w.b = true :=
      Rect.crossedBy_of_mem (hstraight w hw) hp hinside
    have htouched := hnone (id, box) hbox
    simp only [hcrossed, Bool.true_and, Bool.not_eq_true', Bool.not_eq_false] at htouched
    obtain ⟨t, ht, hfound⟩ := List.any_eq_true.1 htouched
    rw [Bool.and_eq_true, beq_iff_eq] at hfound
    exact ⟨t, mem_filterMap_id.1 ht, hfound.1, hfound.2⟩

/-- Two resistors side by side, their first pins on a net, and a net without pins. -/
def sideBySide : Netlist ℚ :=
  ((Build.new "side by side" : Build ℚ).run [
    .addComponent { symbol := "Device:R", reference := "R1", position := some ⟨0, 0, 0⟩ },
    .addComponent { symbol := "Device:R", reference := "R2", position := some ⟨20, 0, 0⟩ },
    .addNet none, .addNet none, .connect 0 "1" (.net 0), .connect 1 "1" (.net 0)]).toNetlist

/-- The pins of both resistors, in the middle of them. -/
def sideBySideTerminals : Array (Option (Terminal ℚ)) :=
  #[some ⟨0, 0, ⟨0, 0⟩, ⟨0, -1⟩⟩, some ⟨1, 1, ⟨20, 0⟩, ⟨0, -1⟩⟩]

/-- A wire from pin to pin, and a wire of the other net across it. -/
def acrossWires : List (Wire ℚ) := [⟨0, ⟨0, 0⟩, ⟨20, 0⟩⟩, ⟨1, ⟨10, -10⟩, ⟨10, 10⟩⟩]

/-- The wires of the two nets cross. -/
theorem acrossWires_sound :
    (0 : ℚ) ≤ 0 ∧ (∀ w ∈ acrossWires, Straight w.a w.b) ∧
      sideBySide.wireFindings (fun _ => none) sideBySideTerminals acrossWires 0 = [] ∧
        sideBySide.Sound (fun _ => none) sideBySideTerminals acrossWires 0 := by
  have hstraight : ∀ w ∈ acrossWires, Straight w.a w.b := by
    intro w hw
    rcases List.mem_cons.1 hw with rfl | hw
    · exact .inl (by decide +kernel)
    · rw [List.mem_singleton.1 hw]
      exact .inr (by decide +kernel)
  have hnone : sideBySide.wireFindings (fun _ => none) sideBySideTerminals acrossWires 0 = [] :=
    List.isEmpty_iff.1 (by decide +kernel)
  have htol : (0 : ℚ) ≤ 0 := le_refl 0
  exact ⟨htol, hstraight, hnone, sound_of_no_findings (by decide) hstraight hnone⟩

end Netlist

end Schematic
