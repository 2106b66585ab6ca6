import Schematic.Proofs.Routing.Cheapest
import Schematic.Proofs.Routing.Region

/-!
# When there is no path

Costs are cut off at a bound, and the bound also stands for a state that has not been
reached.  So a router that answers that there is no path has seen that every walk costs
the bound at least.  In a region that is small next to the penalty for a turn no walk
costs that much, and the answer is right; but with a large penalty a walk with enough
turns is missed.

## Main statements

* `Grid.Legal.exists_small` — where there is a walk, there is one without repetition.
* `Grid.search?_eq_none_iff`, `Grid.search?_eq_none_iff_of_small` — when a search finds
  nothing.
* `Router.noPath_iff` — when a router answers that there is no path.
-/

namespace Schematic

/-! ### Walks without repetition -/

namespace Grid

variable {g : Grid} {w : Walk} {states : List GridState}

/-- A walk that starts in the region stays there. -/
theorem IsWalk.contains (h : g.IsWalk w states)
    (hstart : g.contains w.start.1 w.start.2 = true) {s : GridState} (hs : s ∈ states) :
    g.contains s.x s.y = true := by
  rcases h.start_or_contains hs with hcell | hinside
  · rw [GridState.cell] at hcell
    rwa [← hcell] at hstart
  · exact hinside

/-- There is one state at most for each cell and direction. -/
theorem IsWalk.length_le (h : g.IsWalk w states)
    (hstart : g.contains w.start.1 w.start.2 = true) (hnodup : states.Nodup) :
    states.length ≤ g.cols * g.rows * 4 := by
  have hnumbers : (states.map g.stateIndex).Nodup :=
    hnodup.map_on fun s hs t ht =>
      stateIndex_inj (h.contains hstart hs) (h.contains hstart ht)
  have hbound : states.map g.stateIndex ⊆ List.range (g.cols * g.rows * 4) := by
    intro i hi
    obtain ⟨s, hs, rfl⟩ := List.mem_map.1 hi
    exact List.mem_range.2 (stateIndex_lt (h.contains hstart hs))
  have hlength := (List.subperm_of_subset hnumbers hbound).length_le
  rwa [List.length_map, List.length_range] at hlength

/-- Walking through states costs a step and a turn for each of them at most. -/
theorem spent_le (w : Walk) (states : List GridState) :
    w.spent states ≤ states.length * (1 + w.turnPenalty) := by
  induction states with
  | nil => exact Nat.zero_le _
  | cons s states ih =>
    cases states with
    | nil => exact Nat.zero_le _
    | cons t states =>
      have hprice : w.price s t ≤ 1 + w.turnPenalty := by
        unfold Walk.price
        split <;> omega
      rw [Walk.spent_cons_cons, List.length_cons, Nat.succ_mul]
      omega

/-- Where some walk keeps to the rules, one does that has no more steps than the region has
states. -/
theorem Legal.exists_small (hstart : g.contains w.start.1 w.start.2 = true)
    {cells : List (Int × Int)} (h : g.Legal w cells) :
    ∃ short, g.Legal w short ∧ w.cost short ≤ g.cols * g.rows * 4 * (1 + w.turnPenalty) := by
  obtain ⟨states, -, hwalk, -⟩ := h.exists_states
  obtain ⟨states', hsteps, hnodup, hfirst, hlast⟩ := exists_nodup_isChain hwalk.steps
  have hwalk' : g.IsWalk w states' :=
    ⟨by rw [hfirst, hwalk.first], by rw [hlast, hwalk.last], hsteps⟩
  refine ⟨states'.map GridState.cell, hwalk'.legal, ?_⟩
  calc w.cost (states'.map GridState.cell)
      ≤ w.spent states' := cost_le_spent hsteps
    _ ≤ states'.length * (1 + w.turnPenalty) := spent_le w states'
    _ ≤ g.cols * g.rows * 4 * (1 + w.turnPenalty) :=
        Nat.mul_le_mul_right _ (hwalk'.length_le hstart hnodup)

/-! ### Searches that find nothing -/

/-- A search finds nothing exactly if all walks are cut off. -/
theorem search?_eq_none_iff (hstart : g.contains w.start.1 w.start.2 = true) :
    g.search? w = none ↔ ∀ cells, g.Legal w cells → maxCost ≤ w.cost cells := by
  refine ⟨fun h cells => maxCost_le_cost hstart h, fun h => ?_⟩
  cases hfound : g.search? w with
  | none => rfl
  | some cells =>
    obtain ⟨hlegal, hcost, -⟩ := cost_le_cost hstart hfound
    exact absurd (h cells hlegal) (not_le.2 hcost)

/-- In a region that is small next to the penalty, a search finds nothing exactly if there is no
walk. -/
theorem search?_eq_none_iff_of_small (hstart : g.contains w.start.1 w.start.2 = true)
    (hsmall : g.cols * g.rows * 4 * (1 + w.turnPenalty) < maxCost) :
    g.search? w = none ↔ ∀ cells, ¬g.Legal w cells := by
  rw [search?_eq_none_iff hstart]
  refine ⟨fun h cells hlegal => ?_, fun h cells hlegal => absurd hlegal (h cells)⟩
  obtain ⟨short, hshort, hcost⟩ := hlegal.exists_small hstart
  exact absurd (h short hshort) (not_le.2 (hcost.trans_lt hsmall))

end Grid

/-! ### Routers that find nothing -/

namespace Router

variable {α : Type} [Scalar α]

/-- In a region that is not too large, there is no path exactly if the search finds nothing. -/
theorem path_eq_noPath_iff {r : Router α} {start finish : Point α} {obstacles : List (Rect α)}
    {taken : Cell → Axes}
    (hsize : (r.region (r.cellOf start) (r.cellOf finish) obstacles).size ≤ r.maxCells) :
    r.path start finish obstacles taken = .error (.noPath start finish) ↔
      r.cellOf start ≠ r.cellOf finish ∧
        (r.grid start finish obstacles taken).search? (r.walk start finish obstacles) = none := by
  rw [path_eq]
  by_cases hcell : r.cellOf start = r.cellOf finish
  · simp [hcell]
  · simp only [hcell, if_false, not_lt.2 hsize, ne_eq, not_false_eq_true, true_and]
    split
    · next cells h => simp [h]
    · next h => simp [h]

/-- A router answers that there is no path exactly if the ends are in different cells and every
walk that keeps to the rules costs so much that it is cut off.  If the region is small next to the
penalty for a turn, then there is no such walk. -/
theorem noPath_iff (r : Router α) (start finish : Point α) (obstacles : List (Rect α))
    (taken : Cell → Axes)
    (hsize : (r.region (r.cellOf start) (r.cellOf finish) obstacles).size ≤ r.maxCells)
    (hstart : (r.grid start finish obstacles taken).contains
      (r.walk start finish obstacles).start.1 (r.walk start finish obstacles).start.2 = true) :
    (r.path start finish obstacles taken = .error (.noPath start finish) ↔
      r.cellOf start ≠ r.cellOf finish ∧
        ∀ cells,
          (r.grid start finish obstacles taken).Legal (r.walk start finish obstacles) cells →
            maxCost ≤ (r.walk start finish obstacles).cost cells) ∧
    ((r.region (r.cellOf start) (r.cellOf finish) obstacles).size * 4 * (1 + r.turnPenalty) <
        maxCost →
      (r.path start finish obstacles taken = .error (.noPath start finish) ↔
        r.cellOf start ≠ r.cellOf finish ∧
          ∀ cells,
            ¬(r.grid start finish obstacles taken).Legal (r.walk start finish obstacles) cells)) := by
  rw [path_eq_noPath_iff hsize]
  refine ⟨and_congr_right fun _ => Grid.search?_eq_none_iff hstart, fun hsmall => ?_⟩
  refine and_congr_right fun _ => Grid.search?_eq_none_iff_of_small hstart ?_
  -- the number of cells is not cut off
  have hsize : (r.region (r.cellOf start) (r.cellOf finish) obstacles).size =
      (r.region (r.cellOf start) (r.cellOf finish) obstacles).cols *
        (r.region (r.cellOf start) (r.cellOf finish) obstacles).rows := by
    refine min_eq_left (Nat.le_of_lt (lt_of_not_ge fun hlarge => ?_))
    rw [Region.size, min_eq_right hlarge] at hsmall
    have : 1 ≤ 1 + r.turnPenalty := Nat.le_add_right _ _
    have := Nat.mul_le_mul_left (18446744073709551615 * 4) this
    unfold maxCost at hsmall
    omega
  rwa [hsize] at hsmall

/-- The middle column is taken from end to end. -/
def walled (c : Cell) : Axes := if c.1 = 1 then .both else .none

theorem walled_noPath :
    sampleRouter.path ⟨0, 0⟩ ⟨2, 0⟩ [] walled = .error (.noPath ⟨0, 0⟩ ⟨2, 0⟩) ∧
      ∀ cells, ¬(sampleRouter.grid ⟨0, 0⟩ ⟨2, 0⟩ [] walled).Legal
        (sampleRouter.walk ⟨0, 0⟩ ⟨2, 0⟩ []) cells := by
  have hsize : (sampleRouter.region (sampleRouter.cellOf ⟨0, 0⟩) (sampleRouter.cellOf ⟨2, 0⟩)
      []).size ≤ sampleRouter.maxCells := by decide +kernel
  have hpath : sampleRouter.path ⟨0, 0⟩ ⟨2, 0⟩ [] walled = .error (.noPath ⟨0, 0⟩ ⟨2, 0⟩) :=
    (path_eq_noPath_iff hsize).2 (by decide +kernel)
  have hfits : sampleRouter.Fits ⟨0, 0⟩ ⟨2, 0⟩ [] := by decide +kernel
  have hstart : (sampleRouter.grid ⟨0, 0⟩ ⟨2, 0⟩ [] walled).contains
      (sampleRouter.walk ⟨0, 0⟩ ⟨2, 0⟩ []).start.1 (sampleRouter.walk ⟨0, 0⟩ ⟨2, 0⟩ []).start.2 =
        true := hfits.contains_place (by decide) (start_mem_bounds sampleRouter _ _ []).1
  obtain ⟨-, hnone⟩ := noPath_iff sampleRouter ⟨0, 0⟩ ⟨2, 0⟩ [] walled hsize hstart
  exact ⟨hpath, ((hnone (by decide +kernel)).1 hpath).2⟩

/-- A router with the largest penalty for a turn. -/
def steepRouter : Router ℚ := { sampleRouter with turnPenalty := 4294967295 }

/-- A single turn costs so much that the walk around a corner is missed. -/
theorem steepRouter_misses :
    (steepRouter.region (steepRouter.cellOf ⟨0, 0⟩) (steepRouter.cellOf ⟨1, 1⟩) []).size ≤
        steepRouter.maxCells ∧
      steepRouter.route ⟨0, 0⟩ ⟨1, 1⟩ [] = .error (.noPath ⟨0, 0⟩ ⟨1, 1⟩) ∧
      (steepRouter.grid ⟨0, 0⟩ ⟨1, 1⟩ [] fun _ => .none).Legal
        (steepRouter.walk ⟨0, 0⟩ ⟨1, 1⟩ []) [(0, 0), (0, 1), (1, 1)] := by
  have hsize : (steepRouter.region (steepRouter.cellOf ⟨0, 0⟩) (steepRouter.cellOf ⟨1, 1⟩)
      []).size ≤ steepRouter.maxCells := by decide +kernel
  refine ⟨hsize, (path_eq_noPath_iff hsize).2 (by decide +kernel), ?_⟩
  exact {
    first := by decide +kernel
    last := by decide +kernel
    steps := .cons_cons ⟨.down, by decide +kernel⟩ (.cons_cons ⟨.right, by decide +kernel⟩
      (.singleton _))
    straight := fun _ _ _ _ _ htaken => absurd htaken Bool.noConfusion }

end Router

end Schematic
