import Schematic.Layout.Grid
import Schematic.Circuit.Connection
import Schematic.Proofs.Geometry.Motion
import Schematic.Proofs.Lists
import Schematic.Proofs.Number.Roots

/-!
# Boxes in a grid

A grid has room for its boxes: every box is dealt into a cell of its own, which
is as wide as its column and as high as its line, and columns and lines are apart
by the spacing.  So the boxes are, too, and none of them reaches beyond the left
and the top edge of the grid.

## Main statements

* `gridShape_columns`, `gridShape_lines` — how many columns and lines a grid has.
* `mem_connectivityOrder` — every box is dealt.
* `strips_getElem?`, `strips_pairwise` — strips have room for their members, and
  are apart.
* `gridLayout_gap`, `gridLayout_corner` — so are the boxes, and the grid begins at
  the origin.
* `gridBox_gap`, `gridBox_corner` — the same for a grid that begins elsewhere.
-/

namespace Schematic

/-! ### The shape of the grid -/

theorem one_le_trimColumns {n cols : ℕ} (h : 1 ≤ cols) : 1 ≤ trimColumns n cols := by
  fun_induction trimColumns n cols with
  | case1 => exact h
  | case2 => exact h
  | case3 cols hroom ih => exact ih (by omega)
  | case4 cols hroom => exact h

/-- What is left has room for all boxes if there was room before. -/
theorem le_trimColumns_mul_self {n cols : ℕ} (h : n ≤ cols * cols) :
    n ≤ trimColumns n cols * trimColumns n cols := by
  fun_induction trimColumns n cols with
  | case1 => exact h
  | case2 => exact h
  | case3 cols hroom ih => exact ih hroom
  | case4 cols hroom => exact h

/-- One column less has no room for them. -/
theorem trimColumns_sub_one_mul_self_lt {n : ℕ} (hn : 1 ≤ n) (cols : ℕ) :
    (trimColumns n cols - 1) * (trimColumns n cols - 1) < n := by
  fun_induction trimColumns n cols with
  | case1 => exact hn
  | case2 => exact hn
  | case3 cols hroom ih => exact ih
  | case4 cols hroom => exact not_le.1 hroom

theorem one_le_gridShape {n : ℕ} (h : 1 ≤ n) : 1 ≤ (gridShape n).1 :=
  one_le_trimColumns (one_le_ceilSqrt (by norm_num) h)

theorem gridShape_zero : gridShape 0 = (0, 0) := by
  have hroot : ceilSqrt 53 0 = 0 := by
    simp [ceilSqrt, roundSignificant_of_lt, floorSqrt_eq_sqrt]
  rw [gridShape, hroot, trimColumns]

/-- A grid is no wider than the number of its boxes. -/
theorem gridShape_le (n : ℕ) : (gridShape n).1 ≤ n := by
  rcases Nat.eq_zero_or_pos n with rfl | hn
  · rw [gridShape_zero]
  · have hspare : ((gridShape n).1 - 1) * ((gridShape n).1 - 1) < n :=
      trimColumns_sub_one_mul_self_lt hn _
    have hself := Nat.le_mul_self ((gridShape n).1 - 1)
    omega

/-- As many columns as the root of the number of boxes, rounded up. -/
theorem gridShape_columns {n : ℕ} (h : n < 2 ^ 52) : (gridShape n).1 = ⌈√(n : ℝ)⌉₊ := by
  rcases Nat.eq_zero_or_pos n with rfl | hn
  · simp [gridShape_zero]
  · have hcols := one_le_gridShape hn
    have hroom : n ≤ (gridShape n).1 * (gridShape n).1 :=
      le_trimColumns_mul_self (le_ceilSqrt_mul_self h)
    have hspare : ((gridShape n).1 - 1) * ((gridShape n).1 - 1) < n :=
      trimColumns_sub_one_mul_self_lt hn _
    symm
    rw [Nat.ceil_eq_iff (by omega), Real.lt_sqrt (Nat.cast_nonneg _),
      Real.sqrt_le_left (Nat.cast_nonneg _), sq, sq]
    exact ⟨by exact_mod_cast hspare, by exact_mod_cast hroom⟩

/-- As many lines as are needed for the boxes. -/
theorem gridShape_lines (n : ℕ) : (gridShape n).2 = ⌈(n : ℝ) / (gridShape n).1⌉₊ := by
  rcases Nat.eq_zero_or_pos n with rfl | hn
  · simp [gridShape_zero]
  · have hcols : 0 < (gridShape n).1 := one_le_gridShape hn
    change n ⌈/⌉ (gridShape n).1 = _
    refine eq_of_forall_ge_iff fun k => ?_
    rw [ceilDiv_le_iff_le_mul hcols, Nat.ceil_le, div_le_iff₀' (by exact_mod_cast hcols)]
    exact_mod_cast Iff.rfl

/-- Ten boxes take four columns and three lines. -/
example : gridShape 10 = (4, 3) := by decide +kernel

/-- Every slot of a grid is in one of its columns and in one of its lines. -/
theorem slot_mem_gridShape {n slot : ℕ} (h : slot < n) :
    slot % (gridShape n).1 < (gridShape n).1 ∧ slot / (gridShape n).1 < (gridShape n).2 := by
  have hcols : 1 ≤ (gridShape n).1 := one_le_gridShape (by omega)
  refine ⟨Nat.mod_lt _ hcols, ?_⟩
  change slot / (gridShape n).1 < (n + (gridShape n).1 - 1) / (gridShape n).1
  generalize (gridShape n).1 = cols at hcols ⊢
  have hsum : n + cols - 1 = (n - 1) + cols := by omega
  rw [hsum, Nat.add_div_right _ hcols]
  exact Nat.lt_succ_of_le (Nat.div_le_div_right (by omega))

variable {α : Type} [Scalar α]

/-! ### The order of the boxes -/

theorem lt_of_strongest? {visited : List ℕ} {row : List α} {i : ℕ}
    (h : strongest? visited row = some i) : i < row.length := by
  obtain ⟨best, hbest, rfl⟩ := Option.map_eq_some_iff.1 h
  -- what is kept as the strongest one is one of the candidates
  have hkept : ∀ (cs : List (ℕ × α)) (b : Option (ℕ × α)), cs.foldl stronger b = some best →
      best ∈ cs ∨ b = some best := by
    intro cs
    induction cs with
    | nil => exact fun b hb => .inr hb
    | cons c cs ih =>
      intro b hb
      rcases ih _ hb with h | h
      · exact .inl (List.mem_cons_of_mem _ h)
      · unfold stronger at h
        split at h
        · exact .inr h
        · split at h
          · exact .inl (List.mem_cons.2 (.inl (Option.some.inj h).symm))
          · split at h
            · exact .inl (List.mem_cons.2 (.inl (Option.some.inj h).symm))
            · exact .inr h
  rcases hkept _ _ hbest with h | h
  · obtain ⟨k, hk, hpair⟩ := List.mem_mapIdx.1 (List.mem_filter.1 h).1
    rw [← hpair]
    exact hk
  · cases h

/-- A chain ends when every box was visited.  Otherwise it goes on with a box that was not
visited: the next one, or the first one when there is no next one or it was visited. -/
theorem chainFrom_succ_cases (weights : List (List α)) (fuel : ℕ) (visited : List ℕ)
    (next : Option ℕ) :
    (chainFrom weights (fuel + 1) visited next = [] ∧ ∀ k < weights.length, k ∈ visited) ∨
      ∃ p, p ∉ visited ∧
        chainFrom weights (fuel + 1) visited next =
          p :: chainFrom weights fuel (p :: visited)
            (strongest? (p :: visited) (weights[p]?.getD [])) ∧
        (next = some p ∨ (∀ k, next = some k → k ∈ visited) ∧ p < weights.length ∧
          ∀ k < weights.length, k ∉ visited → p ≤ k) := by
  rw [chainFrom]
  simp only
  split
  · next hpick =>
    simp only [Option.orElse_eq_or, Option.or_eq_none_iff] at hpick
    refine .inl ⟨rfl, fun k hk => ?_⟩
    simpa using List.find?_eq_none.1 hpick.2 k (List.mem_range.2 hk)
  · next p hpick =>
    simp only [Option.orElse_eq_or, Option.or_eq_some_iff] at hpick
    rcases hpick with h | ⟨hnone, h⟩
    · obtain ⟨hnext, hnew⟩ := Option.filter_eq_some_iff.1 h
      exact .inr ⟨p, by simpa using hnew, rfl, .inl hnext⟩
    · obtain ⟨hnew, hp, hbefore⟩ := List.find?_range_eq_some.1 h
      refine .inr ⟨p, by simpa using hnew, rfl, .inr ⟨fun k hk => ?_, List.mem_range.1 hp, ?_⟩⟩
      · rw [hk] at hnone
        simpa using hnone
      · intro k _ hfree
        refine Nat.le_of_not_lt fun hlt => hfree ?_
        simpa using hbefore k hlt

/-- The next box of a chain is one of the boxes. -/
theorem lt_of_strongest?_row {weights : List (List α)}
    (hrows : ∀ row ∈ weights, row.length ≤ weights.length) {visited : List ℕ} {p j : ℕ}
    (h : strongest? visited (weights[p]?.getD []) = some j) : j < weights.length := by
  have hlt := lt_of_strongest? h
  by_cases hp : p < weights.length
  · rw [List.getElem?_eq_getElem hp, Option.getD_some] at hlt
    exact hlt.trans_le (hrows _ (List.getElem_mem hp))
  · rw [List.getElem?_eq_none (not_lt.1 hp)] at hlt
    exact absurd hlt (Nat.not_lt_zero _)

/-- A chain with enough steps visits everything that was not visited before. -/
theorem mem_chainFrom {weights : List (List α)}
    (hrows : ∀ row ∈ weights, row.length ≤ weights.length) {fuel : ℕ} {visited : List ℕ}
    {next : Option ℕ} (hnodup : visited.Nodup) (hvisited : ∀ v ∈ visited, v < weights.length)
    (hnext : ∀ i, next = some i → i < weights.length)
    (hfuel : weights.length ≤ visited.length + fuel) {i : ℕ} (hi : i < weights.length) :
    i ∈ visited ∨ i ∈ chainFrom weights fuel visited next := by
  induction fuel generalizing visited next with
  | zero =>
    -- as many have been visited as there are
    have hsub : visited.toFinset ⊆ Finset.range weights.length := fun v hv =>
      Finset.mem_range.2 (hvisited v (List.mem_toFinset.1 hv))
    have hall : visited.toFinset = Finset.range weights.length := by
      refine Finset.eq_of_subset_of_card_le hsub ?_
      rw [Finset.card_range, List.toFinset_card_of_nodup hnodup]
      exact hfuel
    exact .inl (List.mem_toFinset.1 (hall ▸ Finset.mem_range.2 hi))
  | succ fuel ih =>
    obtain ⟨-, hall⟩ | ⟨p, hnew, hchain, hpick⟩ := chainFrom_succ_cases weights fuel visited next
    · exact .inl (hall i hi)
    · have hp : p < weights.length := by
        rcases hpick with h | ⟨-, h, -⟩
        · exact hnext p h
        · exact h
      rw [hchain]
      rcases ih (List.nodup_cons.2 ⟨hnew, hnodup⟩) (List.forall_mem_cons.2 ⟨hp, hvisited⟩)
        (fun j hj => lt_of_strongest?_row hrows hj) (by simp only [List.length_cons]; omega)
        with h | h
      · rcases List.mem_cons.1 h with rfl | h
        · exact .inr List.mem_cons_self
        · exact .inl h
      · exact .inr (List.mem_cons_of_mem _ h)

/-- Every box has its place in the order of connections. -/
theorem mem_connectivityOrder {weights : List (List α)}
    (hrows : ∀ row ∈ weights, row.length ≤ weights.length) {i : ℕ} (hi : i < weights.length) :
    i ∈ connectivityOrder weights := by
  have hfirst : ∀ j, some 0 = some j → j < weights.length := fun j hj => by cases hj; omega
  have h : i ∈ [] ∨ i ∈ connectivityOrder weights :=
    mem_chainFrom hrows List.nodup_nil (by simp) hfirst (by simp) hi
  exact h.resolve_left List.not_mem_nil

theorem mem_connectivityOrder_weightMatrix {groups : List (List NetId)} {i : ℕ}
    (hi : i < groups.length) : i ∈ connectivityOrder (weightMatrix groups : List (List α)) := by
  have hlength : (weightMatrix groups : List (List α)).length = groups.length := List.length_mapIdx
  refine mem_connectivityOrder (fun row hrow => ?_) (hlength ▸ hi)
  obtain ⟨k, hk, rfl⟩ := List.mem_mapIdx.1 hrow
  rw [List.length_mapIdx, hlength]

/-! ### Strips -/

variable [ExactScalar α]

open ExactScalar
open scoped Scalar

theorem stripStarts_pairwise {gap : α} (hgap : 0 ≤ value gap) {sizes : List α}
    (hsizes : ∀ s ∈ sizes, 0 ≤ value s) (start : α) :
    ((stripStarts gap start sizes).zip sizes).Pairwise
        (fun p q => value p.1 + value p.2 + value gap ≤ value q.1) ∧
      ∀ p ∈ (stripStarts gap start sizes).zip sizes, value start ≤ value p.1 := by
  induction sizes generalizing start with
  | nil => exact ⟨.nil, fun p hp => absurd hp List.not_mem_nil⟩
  | cons size sizes ih =>
    obtain ⟨hsize, hsizes⟩ := List.forall_mem_cons.1 hsizes
    obtain ⟨hpairs, hfrom⟩ := ih hsizes (start + (size + gap))
    simp only [value_add] at hfrom
    refine ⟨.cons (fun q hq => ?_) hpairs, fun p hp => ?_⟩
    · linarith [hfrom q hq]
    · rcases List.mem_cons.1 hp with rfl | hp
      · exact le_rfl
      · linarith [hfrom p hp]

omit [ExactScalar α] in
theorem stripStarts_length (gap start : α) (sizes : List α) :
    (stripStarts gap start sizes).length = sizes.length := by
  induction sizes generalizing start with
  | nil => rfl
  | cons size sizes ih => exact congrArg (· + 1) (ih _)

omit [ExactScalar α] in
/-- The size of a strip is that of the largest of its members. -/
theorem stripSizes_eq (count : ℕ) (slots : List (ℕ × α)) :
    stripSizes count slots = (List.range count).map fun strip =>
      (slots.filter fun s => s.1 = strip).foldl (fun m s => Scalar.max m s.2) 0 := by
  simp [stripSizes, List.foldl_filter]

theorem stripSizes_nonneg (count : ℕ) (slots : List (ℕ × α)) :
    ∀ s ∈ stripSizes count slots, 0 ≤ value s := by
  intro s hs
  rw [stripSizes_eq] at hs
  obtain ⟨strip, -, rfl⟩ := List.mem_map.1 hs
  simpa using (le_foldl_max Prod.snd (slots.filter fun s => s.1 = strip) (0 : α)).1

/-- A strip begins in the grid, and is as large as the largest of its members. -/
theorem strips_getElem? {gap : α} (hgap : 0 ≤ value gap) {count strip : ℕ} (h : strip < count)
    (slots : List (ℕ × α)) :
    ∃ p, (strips gap count slots)[strip]? = some p ∧ 0 ≤ value p.1 ∧
      IsGreatest (insert 0 {w | ∃ s ∈ slots, s.1 = strip ∧ value s.2 = w}) (value p.2) := by
  have hsize : (stripSizes count slots)[strip]? =
      some ((slots.filter fun s => s.1 = strip).foldl (fun m s => Scalar.max m s.2) 0) := by
    rw [stripSizes_eq, List.getElem?_map, List.getElem?_range h, Option.map_some]
  have hlt : strip < (stripStarts gap 0 (stripSizes count slots)).length := by
    rw [stripStarts_length]
    exact (List.getElem?_eq_some_iff.1 hsize).1
  have hstrip : (strips gap count slots)[strip]? =
      some ((stripStarts gap 0 (stripSizes count slots))[strip], _) :=
    List.getElem?_zip_eq_some.2 ⟨List.getElem?_eq_getElem hlt, hsize⟩
  have hzero := (stripStarts_pairwise hgap (stripSizes_nonneg count slots) 0).2 _
    (List.mem_of_getElem? hstrip)
  obtain ⟨hfrom, hmembers⟩ :=
    le_foldl_max Prod.snd (slots.filter fun s => s.1 = strip) (0 : α)
  rw [value_zero] at hzero hfrom
  refine ⟨_, hstrip, hzero, ?_, ?_⟩
  · rcases List.mem_cons.1 (foldl_max_mem Prod.snd (slots.filter fun s => s.1 = strip) (0 : α))
      with hmax | hmax
    · exact .inl (by rw [hmax, value_zero])
    · obtain ⟨s, hs, hmax⟩ := List.mem_map.1 hmax
      obtain ⟨hs, heq⟩ := List.mem_filter.1 hs
      exact .inr ⟨s, hs, of_decide_eq_true heq, congrArg value hmax⟩
  · rintro w (rfl | ⟨s, hs, heq, rfl⟩)
    · exact hfrom
    · exact hmembers s (List.mem_filter.2 ⟨hs, decide_eq_true heq⟩)

/-- Strips are apart. -/
theorem strips_pairwise {gap : α} (hgap : 0 ≤ value gap) (count : ℕ) (slots : List (ℕ × α)) :
    (strips gap count slots).Pairwise
      fun p q => value p.1 + value p.2 + value gap ≤ value q.1 :=
  (stripStarts_pairwise hgap (stripSizes_nonneg count slots) 0).1

theorem strips_before {gap : α} (hgap : 0 ≤ value gap) {count : ℕ} {slots : List (ℕ × α)}
    {i j : ℕ} (hij : i < j) {p q : α × α} (hp : (strips gap count slots)[i]? = some p)
    (hq : (strips gap count slots)[j]? = some q) :
    value p.1 + value p.2 + value gap ≤ value q.1 := by
  obtain ⟨hi, rfl⟩ := List.getElem?_eq_some_iff.1 hp
  obtain ⟨hj, rfl⟩ := List.getElem?_eq_some_iff.1 hq
  exact List.pairwise_iff_getElem.1 (strips_pairwise hgap count slots) i j hi hj hij

/-! ### The boxes -/

/-- The columns of a grid. -/
def gridColumns (boxes : List (Rect α)) (order : List ℕ) (spacing : α) : List (α × α) :=
  strips spacing (gridShape order.length).1
    (order.mapIdx fun slot i => (slot % (gridShape order.length).1, (boxes[i]?.getD .zero).w))

/-- The lines of a grid. -/
def gridLines (boxes : List (Rect α)) (order : List ℕ) (spacing : α) : List (α × α) :=
  strips spacing (gridShape order.length).2
    (order.mapIdx fun slot i => (slot / (gridShape order.length).1, (boxes[i]?.getD .zero).h))

/-- The box lies in a column and in a line. -/
structure InCell (column line : α × α) (r : Rect α) : Prop where
  /-- It begins in the column. -/
  left : value column.1 ≤ value r.x
  /-- It ends in the column. -/
  right : value r.right ≤ value column.1 + value column.2
  /-- It begins in the line. -/
  top : value line.1 ≤ value r.y
  /-- It ends in the line. -/
  bottom : value r.bottom ≤ value line.1 + value line.2

/-- A box that is no larger than a cell and lies in its middle lies in the cell. -/
theorem inCell_centeredOrigin {column line : α × α} {r : Rect α} {p : Point α}
    (hw : value r.w ≤ value column.2) (hh : value r.h ≤ value line.2)
    (hp : p = centeredOrigin r ⟨column.1 + column.2 / 2, line.1 + line.2 / 2⟩) :
    InCell column line (r.translate p.x p.y) := by
  subst hp
  constructor
  all_goals
    simp only [Rect.translate, centeredOrigin, Rect.center, Rect.right, Rect.bottom, value_add,
      value_sub, value_half]
    linarith

theorem exists_slot {order : List ℕ} {i : ℕ} (h : i ∈ order) :
    ∃ slot, ((order.mapIdx fun slot i => (i, slot)).reverse).lookup i = some slot ∧
      order[slot]? = some i := by
  obtain ⟨first, hlt, hget⟩ := List.mem_iff_getElem.1 h
  have hdealt : (i, first) ∈ (order.mapIdx fun slot i => (i, slot)).reverse :=
    List.mem_reverse.2 (List.mem_mapIdx.2 ⟨first, hlt, by rw [hget]⟩)
  obtain ⟨slot, hslot, hmem⟩ := exists_lookup hdealt
  obtain ⟨k, hk, hpair⟩ := List.mem_mapIdx.1 (List.mem_reverse.1 hmem)
  cases hpair
  exact ⟨_, hslot, List.getElem?_eq_getElem hk⟩

omit [ExactScalar α] in
/-- A box is brought to the middle of the cell of its slot. -/
theorem gridLayout_getElem? {boxes : List (Rect α)} {order : List ℕ} {i slot : ℕ}
    (hi : i < boxes.length)
    (h : ((order.mapIdx fun slot i => (i, slot)).reverse).lookup i = some slot) (spacing : α) :
    (gridLayout boxes order spacing)[i]? = some (centeredOrigin boxes[i]
      ⟨stripMiddle (gridColumns boxes order spacing) (slot % (gridShape order.length).1),
        stripMiddle (gridLines boxes order spacing) (slot / (gridShape order.length).1)⟩) := by
  rw [gridLayout]
  simp only [List.getElem?_mapIdx, List.getElem?_eq_getElem hi, Option.map_some, h]
  rfl

/-- Every box that is dealt lies in the cell of its slot. -/
theorem gridLayout_cell {boxes : List (Rect α)} {order : List ℕ} {spacing : α}
    (hspacing : 0 ≤ value spacing) {i : ℕ} (hi : i < boxes.length) (hmem : i ∈ order) :
    ∃ slot column line p, order[slot]? = some i ∧
      (gridColumns boxes order spacing)[slot % (gridShape order.length).1]? = some column ∧
      (gridLines boxes order spacing)[slot / (gridShape order.length).1]? = some line ∧
      0 ≤ value column.1 ∧ 0 ≤ value line.1 ∧
      (gridLayout boxes order spacing)[i]? = some p ∧
      InCell column line (boxes[i].translate p.x p.y) := by
  obtain ⟨slot, hlookup, hslot⟩ := exists_slot hmem
  obtain ⟨hlt, horder⟩ := List.getElem?_eq_some_iff.1 hslot
  obtain ⟨hcolumn, hline⟩ := slot_mem_gridShape hlt
  have hbox : (boxes[i]?.getD .zero) = boxes[i] := by
    rw [List.getElem?_eq_getElem hi, Option.getD_some]
  obtain ⟨column, hc, hc0, hwide⟩ := strips_getElem? hspacing hcolumn
    (order.mapIdx fun slot i => (slot % (gridShape order.length).1, (boxes[i]?.getD .zero).w))
  obtain ⟨line, hl, hl0, hhigh⟩ := strips_getElem? hspacing hline
    (order.mapIdx fun slot i => (slot / (gridShape order.length).1, (boxes[i]?.getD .zero).h))
  have hw : value boxes[i].w ≤ value column.2 := by
    have hdealt : (slot % (gridShape order.length).1, boxes[i].w) ∈
        order.mapIdx fun slot i => (slot % (gridShape order.length).1, (boxes[i]?.getD .zero).w) :=
      List.mem_mapIdx.2 ⟨slot, hlt, by rw [horder, hbox]⟩
    exact hwide.2 (.inr ⟨_, hdealt, rfl, rfl⟩)
  have hh : value boxes[i].h ≤ value line.2 := by
    have hdealt : (slot / (gridShape order.length).1, boxes[i].h) ∈
        order.mapIdx fun slot i => (slot / (gridShape order.length).1, (boxes[i]?.getD .zero).h) :=
      List.mem_mapIdx.2 ⟨slot, hlt, by rw [horder, hbox]⟩
    exact hhigh.2 (.inr ⟨_, hdealt, rfl, rfl⟩)
  refine ⟨slot, column, line, _, hslot, hc, hl, hc0, hl0, gridLayout_getElem? hi hlookup spacing,
    inCell_centeredOrigin hw hh ?_⟩
  simp only [stripMiddle, gridColumns, gridLines, hc, hl]

omit [ExactScalar α] in
theorem length_gridLayout (boxes : List (Rect α)) (order : List ℕ) (spacing : α) :
    (gridLayout boxes order spacing).length = boxes.length := List.length_mapIdx

/-- Boxes in a grid are apart by the spacing. -/
theorem gridLayout_gap {boxes : List (Rect α)} {order : List ℕ} {spacing : α}
    (hspacing : 0 ≤ value spacing) (horder : ∀ i < boxes.length, i ∈ order) :
    (boxes.zip (gridLayout boxes order spacing)).Pairwise fun p q =>
      Gap (value spacing) (p.1.translate p.2.x p.2.y).region
        (q.1.translate q.2.x q.2.y).region := by
  rw [List.pairwise_iff_getElem]
  intro i j hi hj hij
  rw [List.length_zip, length_gridLayout, min_self] at hi hj
  obtain ⟨m, column, line, p, hm, hcolumn, hline, -, -, hp, hin⟩ :=
    gridLayout_cell hspacing hi (horder i hi)
  obtain ⟨m', column', line', p', hm', hcolumn', hline', -, -, hp', hin'⟩ :=
    gridLayout_cell hspacing hj (horder j hj)
  obtain ⟨_, rfl⟩ := List.getElem?_eq_some_iff.1 hp
  obtain ⟨_, rfl⟩ := List.getElem?_eq_some_iff.1 hp'
  simp only [List.getElem_zip]
  -- two boxes are not in one slot, so their columns or their lines differ
  have hne : m ≠ m' := fun heq => by
    rw [heq, hm'] at hm
    exact hij.ne' (Option.some.inj hm)
  by_cases hsame : m % (gridShape order.length).1 = m' % (gridShape order.length).1
  · have hlines : m / (gridShape order.length).1 ≠ m' / (gridShape order.length).1 := fun heq =>
      hne (Nat.ext_div_mod heq hsame)
    rcases Nat.lt_or_gt_of_ne hlines with h | h
    · have hgap := strips_before hspacing h hline hline'
      exact Rect.gap_of_bottom_le (by linarith [hin.bottom, hin'.top])
    · have hgap := strips_before hspacing h hline' hline
      exact (Rect.gap_of_bottom_le (by linarith [hin'.bottom, hin.top])).comm
  · rcases Nat.lt_or_gt_of_ne hsame with h | h
    · have hgap := strips_before hspacing h hcolumn hcolumn'
      exact Rect.gap_of_right_le (by linarith [hin.right, hin'.left])
    · have hgap := strips_before hspacing h hcolumn' hcolumn
      exact (Rect.gap_of_right_le (by linarith [hin'.right, hin.left])).comm

/-- A grid begins at the origin. -/
theorem gridLayout_corner {boxes : List (Rect α)} {order : List ℕ} {spacing : α}
    (hspacing : 0 ≤ value spacing) (horder : ∀ i < boxes.length, i ∈ order) {r : Rect α}
    {p : Point α} (h : (r, p) ∈ boxes.zip (gridLayout boxes order spacing)) :
    0 ≤ value (r.translate p.x p.y).x ∧ 0 ≤ value (r.translate p.x p.y).y := by
  obtain ⟨i, hi, hget⟩ := List.mem_iff_getElem.1 h
  rw [List.length_zip, length_gridLayout, min_self] at hi
  obtain ⟨-, column, line, q, -, -, -, hcolumn, hline, hq, hin⟩ :=
    gridLayout_cell hspacing hi (horder i hi)
  obtain ⟨_, rfl⟩ := List.getElem?_eq_some_iff.1 hq
  rw [List.getElem_zip, Prod.mk.injEq] at hget
  obtain ⟨rfl, rfl⟩ := hget
  exact ⟨hcolumn.trans hin.left, hline.trans hin.top⟩

/-! ### A grid at an anchor -/

section Anchor

variable {β : Type} {box : β → Rect α} {items : List β} {order : List ℕ} {spacing : α}
  {origins : List (Point α)}

/-- The box of a member of a grid that begins at an anchor. -/
def gridBox (box : β → Rect α) (anchor : Point α) (e : β × Point α) : Rect α :=
  ((box e.1).translate e.2.x e.2.y).translate anchor.x anchor.y

/-- The members are apart by the spacing. -/
theorem gridBox_gap (hspacing : 0 ≤ value spacing) (horder : ∀ i < items.length, i ∈ order)
    (horigins : gridLayout (items.map box) order spacing = origins) (anchor : Point α) :
    (items.zip origins).Pairwise fun e e' =>
      Gap (value spacing) (gridBox box anchor e).region (gridBox box anchor e').region := by
  have hall : ∀ i < (items.map box).length, i ∈ order := by simpa using horder
  have hgap := gridLayout_gap hspacing hall
  rw [horigins, List.zip_map_left, List.pairwise_map] at hgap
  refine hgap.imp fun {e e'} h => ?_
  rw [gridBox, gridBox, Rect.region_translate, Rect.region_translate _ anchor.x]
  exact h.move Placement.isQuarter_zero

/-- None of them reaches beyond the edges at the anchor. -/
theorem gridBox_corner (hspacing : 0 ≤ value spacing) (horder : ∀ i < items.length, i ∈ order)
    (horigins : gridLayout (items.map box) order spacing = origins) (anchor : Point α)
    {e : β × Point α} (he : e ∈ items.zip origins) :
    value anchor.x ≤ value (gridBox box anchor e).x ∧
      value anchor.y ≤ value (gridBox box anchor e).y := by
  have hcell : (box e.1, e.2) ∈ (items.map box).zip (gridLayout (items.map box) order spacing) := by
    rw [horigins, List.zip_map_left]
    exact List.mem_map.2 ⟨e, he, rfl⟩
  obtain ⟨hx, hy⟩ := gridLayout_corner hspacing (by simpa using horder) hcell
  rw [gridBox, Rect.translate, value_add, value_add]
  constructor <;> linarith

end Anchor

end Schematic
