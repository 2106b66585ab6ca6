import Mathlib.Data.Finset.Card
import Mathlib.Order.Interval.Finset.Nat
import Mathlib.Tactic.Positivity
import Mathlib.Tactic.Ring
import Mathlib.Tactic.Zify
import Schematic.Proofs.Lists
import Schematic.Routing.GridSearch

/-!
# The walk that a search finds

A search remembers, for each state it has reached, the state before it.  The
links lead from state to state by steps that a walk may take, and each one leads
to a state of lower cost; so following them from the last cell ends, and it ends
at the first cell, which is the only one that is reached without a step.

## Main definitions

* `Direction.move`, `GridState.cell` — steps from cell to cell.
* `Grid.Step`, `Grid.IsWalk` — steps and walks that keep to the rules.
* `Search.costAt`, `Search.sourceAt` — what a search knows of a state.
* `Search.Known`, `Search.Traced` — every reached state has a way back.
* `Grid.Seeded` — a search that has only just begun.

## Main statements

* `Search.Traced.improve` — reaching a state keeps the links right.
* `Grid.relax_cases` — what continuing from a state in one direction does.
* `Grid.traced_run` — the links are right when a search ends.
* `Grid.exists_walk_of_trail` — following the links gives a walk.
* `Grid.search?_isWalk` — a search answers with the cells of a walk.
-/

namespace Schematic

/-- The cell next to a cell. -/
def Direction.move (d : Direction) (c : Int × Int) : Int × Int :=
  match d with
  | .up => (c.1, c.2 - 1)
  | .down => (c.1, c.2 + 1)
  | .left => (c.1 - 1, c.2)
  | .right => (c.1 + 1, c.2)

/-- The cell of a state. -/
def GridState.cell (s : GridState) : Int × Int := (s.x, s.y)

namespace Grid

variable {g : Grid} {w : Walk}

/-- A walk may go on from a state into another one: into a neighbouring cell of
the region that may be entered that way, and straight on over a wire. -/
structure Step (g : Grid) (w : Walk) (s t : GridState) : Prop where
  /-- The state is entered from the cell before it. -/
  move : t.cell = t.heading.move s.cell
  /-- The cell belongs to the region. -/
  inside : g.contains t.x t.y = true
  /-- The cell may be entered that way. -/
  enter : g.mayEnter w t.x t.y t.heading = true
  /-- On a wire the direction stays. -/
  straight : g.isCrossing w s = true → s.heading = t.heading

/-- A walk from the first cell to the last one that keeps to the rules. -/
structure IsWalk (g : Grid) (w : Walk) (states : List GridState) : Prop where
  /-- It starts at the first cell. -/
  first : states.head?.map GridState.cell = some w.start
  /-- It ends at the last cell. -/
  last : states.getLast?.map GridState.cell = some w.finish
  /-- It goes from step to step. -/
  steps : states.IsChain (g.Step w)

/-! ### Numbering states -/

theorem contains_iff {x y : Int} :
    g.contains x y = true ↔ (0 ≤ x ∧ x < g.cols) ∧ 0 ≤ y ∧ y < g.rows := by
  simp only [contains, Bool.and_eq_true, decide_eq_true_eq]
  tauto

theorem neighbour?_eq (g : Grid) (s : GridState) (d : Direction) :
    g.neighbour? s.x s.y d =
      if g.contains (d.move s.cell).1 (d.move s.cell).2 then some (d.move s.cell) else none := by
  cases d <;> rfl

/-- A step may enter a cell exactly if the cell is not blocked, and not taken along the step or
the last one. -/
theorem mayEnter_iff {c : Int × Int} {d : Direction} :
    g.mayEnter w c.1 c.2 d = true ↔
      g.isBlocked c.1 c.2 = false ∧ (c = w.finish ∨ d.runsAlong (g.taken c.1 c.2) = false) := by
  simp only [mayEnter, Bool.and_eq_true, Bool.not_eq_true', Bool.or_eq_true, beq_iff_eq]

theorem isCrossing_iff {s : GridState} :
    g.isCrossing w s = true ↔ s.cell ≠ w.start ∧ (g.taken s.x s.y).isEmpty = false := by
  simp only [isCrossing, Bool.and_eq_true, decide_eq_true_eq, Bool.not_eq_true', GridState.cell]

theorem cellIndex_lt {x y : Int} (h : g.contains x y = true) :
    g.cellIndex x y < g.cols * g.rows := by
  obtain ⟨⟨hx, hcols⟩, hy, hrows⟩ := contains_iff.1 h
  have hrow : y * g.cols ≤ (g.rows - 1) * g.cols :=
    Int.mul_le_mul_of_nonneg_right (by omega) (by omega)
  have hall : ((g.rows : Int) - 1) * g.cols + g.cols = g.cols * g.rows := by ring
  unfold cellIndex
  zify
  rw [Int.toNat_of_nonneg (by positivity)]
  omega

theorem stateIndex_lt {s : GridState} (h : g.contains s.x s.y = true) :
    g.stateIndex s < g.cols * g.rows * 4 := by
  have hcell := cellIndex_lt h
  have hdir := s.heading.index_lt
  unfold stateIndex
  omega

/-- Different states of the region have different numbers. -/
theorem stateIndex_inj {s t : GridState} (hs : g.contains s.x s.y = true)
    (ht : g.contains t.x t.y = true) (h : g.stateIndex s = g.stateIndex t) : s = t := by
  obtain ⟨⟨hsx, hsc⟩, hsy, -⟩ := contains_iff.1 hs
  obtain ⟨⟨htx, htc⟩, hty, -⟩ := contains_iff.1 ht
  have hds := s.heading.index_lt
  have hdt := t.heading.index_lt
  unfold stateIndex at h
  have hheading : s.heading.index = t.heading.index := by omega
  have hindex : g.cellIndex s.x s.y = g.cellIndex t.x t.y := by omega
  have hcells : s.y * g.cols + s.x = t.y * g.cols + t.x := by
    unfold cellIndex at hindex
    zify at hindex
    rwa [Int.toNat_of_nonneg (by positivity), Int.toNat_of_nonneg (by positivity)] at hindex
  -- Row and column are the quotient and the remainder of the number of the cell.
  have hcols : (g.cols : Int) ≠ 0 := by omega
  have hrow : ∀ {x y : Int}, 0 ≤ x → x < g.cols → (y * g.cols + x) / g.cols = y := by
    intro x y hx hlt
    rw [Int.add_comm, Int.add_mul_ediv_right _ _ hcols, Int.ediv_eq_zero_of_lt hx hlt, zero_add]
  have hy : s.y = t.y := by
    rw [← hrow (y := s.y) hsx hsc, hcells, hrow htx htc]
  have hx : s.x = t.x := by
    rw [hy] at hcells
    omega
  cases s with
  | mk sx sy sd =>
    cases t with
    | mk tx ty td =>
      simp only at hx hy hheading
      subst hx hy
      have : sd = td := by cases sd <;> cases td <;> first | rfl | cases hheading
      rw [this]

end Grid

/-! ### What a search knows -/

namespace Search

variable {g : Grid} {w : Walk} {s : Search} {b t : GridState}

/-- The least known cost of the state with a number. -/
def costAt (s : Search) (i : Nat) : Nat := s.best[i]?.getD 0

/-- The state before the one with a number. -/
def sourceAt (s : Search) (i : Nat) : Option GridState := s.previous[i]?.join

/-- A state has been reached: it is in the first cell, or it has a state before
it. -/
def Known (s : Search) (g : Grid) (w : Walk) (t : GridState) : Prop :=
  t.cell = w.start ∨ g.contains t.x t.y = true ∧ (s.sourceAt (g.stateIndex t)).isSome

/-- The links of a search lead back to the first cell, by steps of a walk and to
ever lower costs. -/
structure Traced (s : Search) (g : Grid) (w : Walk) : Prop where
  /-- There is a cost for each state. -/
  best_size : s.best.size = g.cols * g.rows * 4
  /-- There is room for a link from each state. -/
  previous_size : s.previous.size = g.cols * g.rows * 4
  /-- No cost is beyond the bound. -/
  le_maxCost : ∀ i, s.costAt i ≤ maxCost
  /-- The first cell costs nothing. -/
  origin : ∀ d, s.costAt (g.stateIndex ⟨w.start.1, w.start.2, d⟩) = 0
  /-- What costs nothing has no link. -/
  sourceAt_of_free : ∀ i, s.costAt i = 0 → s.sourceAt i = none
  /-- A link leads to a state that was reached at a lower cost, from where a walk
  may go on. -/
  link : ∀ b t, g.contains t.x t.y = true → s.sourceAt (g.stateIndex t) = some b →
    g.Step w b t ∧ s.Known g w b ∧ s.costAt (g.stateIndex b) < s.costAt (g.stateIndex t)
  /-- Waiting states have been reached. -/
  queued : ∀ e ∈ s.queue.toList, s.Known g w e.state

theorem Known.mono {s' : Search} (h : s.Known g w t)
    (hsource : ∀ i, (s.sourceAt i).isSome → (s'.sourceAt i).isSome) : s'.Known g w t :=
  h.imp id fun h => ⟨h.1, hsource _ h.2⟩

theorem Traced.costAt_start (h : s.Traced g w) (ht : t.cell = w.start) :
    s.costAt (g.stateIndex t) = 0 := by
  have hcost := h.origin t.heading
  rwa [← ht] at hcost

/-- No link leads from the first cell. -/
theorem Traced.sourceAt_start (h : s.Traced g w) (ht : t.cell = w.start) :
    s.sourceAt (g.stateIndex t) = none :=
  h.sourceAt_of_free _ (h.costAt_start ht)

/-- A state that is taken off the queue has been reached. -/
theorem Traced.pop (h : s.Traced g w) {e : QueueEntry} {rest : Queue QueueEntry}
    (hpop : s.queue.pop? QueueEntry.before = some (e, rest)) :
    ({ s with queue := rest } : Search).Traced g w ∧ s.Known g w e.state := by
  have hmem := fun u => Queue.mem_pop? QueueEntry.before hpop (u := u)
  exact ⟨{ h with queued := fun u hu => h.queued u ((hmem u).2 (.inr hu)) },
    h.queued e ((hmem e).2 (.inl rfl))⟩

/-! ### Reaching a state -/

theorem improve_of_le {i : Nat} {e : QueueEntry} (h : s.costAt i ≤ e.cost) :
    s.improve i b e = s := by
  unfold improve
  split
  · next hi =>
    rw [if_neg]
    simpa [costAt, hi] using h
  · rfl

theorem costAt_improve {i : Nat} {e : QueueEntry} (h : e.cost < s.costAt i) (j : Nat) :
    (s.improve i b e).costAt j = if i = j then e.cost else s.costAt j := by
  have hi : i < s.best.size := by
    by_contra hi
    simp [costAt, hi] at h
  have hlt : e.cost < s.best[i] := by simpa [costAt, hi] using h
  simp only [improve, hi, hlt, costAt, dif_pos, if_pos, Array.getElem?_set]
  split <;> rfl

theorem sourceAt_improve {i : Nat} {e : QueueEntry} (h : e.cost < s.costAt i)
    (hsize : s.previous.size = s.best.size) (j : Nat) :
    (s.improve i b e).sourceAt j = if i = j then some b else s.sourceAt j := by
  have hi : i < s.best.size := by
    by_contra hi
    simp [costAt, hi] at h
  have hlt : e.cost < s.best[i] := by simpa [costAt, hi] using h
  simp only [improve, hi, hlt, sourceAt, dif_pos, if_pos, Array.getElem?_setIfInBounds, hsize]
  split <;> rfl

theorem mem_queue_improve {i : Nat} {e e' : QueueEntry} (h : e' ∈ (s.improve i b e).queue.toList) :
    e' = e ∨ e' ∈ s.queue.toList := by
  unfold improve at h
  split at h
  · split at h
    · exact (Queue.mem_insert _).1 h
    · exact .inr h
  · exact .inr h

theorem size_improve (s : Search) (i : Nat) (b : GridState) (e : QueueEntry) :
    (s.improve i b e).best.size = s.best.size ∧
      (s.improve i b e).previous.size = s.previous.size := by
  unfold improve
  split
  · split <;> simp
  · exact ⟨rfl, rfl⟩

/-- Costs only fall. -/
theorem costAt_improve_le (s : Search) (i : Nat) (b : GridState) (e : QueueEntry) (j : Nat) :
    (s.improve i b e).costAt j ≤ s.costAt j := by
  rcases Nat.lt_or_ge e.cost (s.costAt i) with hlt | hle
  · rw [costAt_improve hlt]
    split
    · next hij => exact hij ▸ hlt.le
    · exact Nat.le_refl _
  · rw [improve_of_le hle]

/-- Where there was a link, there still is one. -/
theorem sourceAt_improve_isSome (hsize : s.previous.size = s.best.size) {i : Nat} {e : QueueEntry}
    {j : Nat} (h : (s.sourceAt j).isSome) : ((s.improve i b e).sourceAt j).isSome := by
  rcases Nat.lt_or_ge e.cost (s.costAt i) with hlt | hle
  · rw [sourceAt_improve hlt hsize]
    split
    · rfl
    · exact h
  · rwa [improve_of_le hle]

theorem Known.improve (hsize : s.previous.size = s.best.size) {i : Nat} {e : QueueEntry}
    (h : s.Known g w t) : (s.improve i b e).Known g w t :=
  h.mono fun _ hj => sourceAt_improve_isSome hsize hj

theorem Traced.sizes_eq (h : s.Traced g w) : s.previous.size = s.best.size :=
  h.previous_size.trans h.best_size.symm

/-- A state reached by a step from one that costs less gets a link to that one. -/
theorem Traced.improve_of_lt (h : s.Traced g w) {e : QueueEntry} (hb : s.Known g w b)
    (hstep : g.Step w b e.state) (hrise : s.costAt (g.stateIndex b) < e.cost)
    (hlt : e.cost < s.costAt (g.stateIndex e.state)) :
    (s.improve (g.stateIndex e.state) b e).Traced g w := by
  have hcostAt := fun j => costAt_improve (b := b) hlt j
  have hsourceAt := fun j => sourceAt_improve (b := b) hlt h.sizes_eq j
  have hfall := costAt_improve_le s (g.stateIndex e.state) b e
  obtain ⟨hbest, hprevious⟩ := size_improve s (g.stateIndex e.state) b e
  constructor
  case best_size => exact hbest.trans h.best_size
  case previous_size => exact hprevious.trans h.previous_size
  case le_maxCost => exact fun j => (hfall j).trans (h.le_maxCost j)
  case origin => exact fun d => Nat.eq_zero_of_le_zero ((hfall _).trans (h.origin d).le)
  case sourceAt_of_free =>
    intro j hj
    rw [hcostAt] at hj
    rw [hsourceAt]
    split at hj
    · omega
    · next hij =>
      rw [if_neg hij]
      exact h.sourceAt_of_free j hj
  case link =>
    intro b' t ht hsource
    rw [hsourceAt] at hsource
    split at hsource
    · -- the new link
      next hindex =>
      obtain rfl : e.state = t := Grid.stateIndex_inj hstep.inside ht hindex
      obtain rfl := Option.some.inj hsource
      refine ⟨hstep, hb.improve h.sizes_eq, ?_⟩
      rw [hcostAt (g.stateIndex e.state), if_pos rfl]
      exact (hfall _).trans_lt hrise
    · -- one that was there, from a state that costs no more than before
      next hindex =>
      obtain ⟨hstep', hknown, hlower⟩ := h.link b' t ht hsource
      refine ⟨hstep', hknown.improve h.sizes_eq, ?_⟩
      rw [hcostAt (g.stateIndex t), if_neg hindex]
      exact (hfall _).trans_lt hlower
  case queued =>
    intro e' he'
    rcases mem_queue_improve he' with rfl | he'
    · refine .inr ⟨hstep.inside, ?_⟩
      rw [hsourceAt, if_pos rfl]
      rfl
    · exact (h.queued e' he').improve h.sizes_eq

/-- Reaching a state by a step from one that costs less keeps the links right,
and does not make that one cheaper. -/
theorem Traced.improve (h : s.Traced g w) {e : QueueEntry} (hb : s.Known g w b)
    (hstep : g.Step w b e.state)
    (hcost : e.cost < maxCost → s.costAt (g.stateIndex b) < e.cost) :
    (s.improve (g.stateIndex e.state) b e).Traced g w ∧
      (s.improve (g.stateIndex e.state) b e).costAt (g.stateIndex b) =
        s.costAt (g.stateIndex b) := by
  rcases Nat.lt_or_ge e.cost (s.costAt (g.stateIndex e.state)) with hlt | hle
  · have hrise : s.costAt (g.stateIndex b) < e.cost :=
      hcost (Nat.lt_of_lt_of_le hlt (h.le_maxCost _))
    have hne : g.stateIndex e.state ≠ g.stateIndex b := by
      intro heq
      rw [heq] at hlt
      omega
    refine ⟨h.improve_of_lt hb hstep hrise hlt, ?_⟩
    rw [costAt_improve hlt, if_neg hne]
  · rw [improve_of_le hle]
    exact ⟨h, rfl⟩

end Search

namespace Grid

variable {g : Grid} {w : Walk} {s s' : Search} {t : GridState}

/-! ### The search -/

theorem lt_stepCost {d : Direction} {cost : Nat} (h : stepCost w t d cost < maxCost) :
    cost < stepCost w t d cost := by
  unfold stepCost addCost at h ⊢
  simp only at h ⊢
  split at h <;> split <;> omega

/-- There is one step at most from a state in a direction. -/
theorem Step.eq {t u : GridState} {b : GridState} (ht : g.Step w b t) (hu : g.Step w b u)
    (h : t.heading = u.heading) : t = u := by
  have hcell : t.cell = u.cell := by rw [ht.move, hu.move, h]
  cases t
  cases u
  simp only [GridState.cell, Prod.mk.injEq] at hcell
  simp only at h
  rw [hcell.1, hcell.2, h]

/-- Continuing from a state in one direction reaches the state that a walk may go on into, if
there is one. -/
theorem relax_cases (g : Grid) (w : Walk) (e : QueueEntry) (s : Search) (d : Direction) :
    (g.relax w e s d = s ∧ ∀ t : GridState, t.heading = d → ¬g.Step w e.state t) ∨
      ∃ n : QueueEntry, n.state.heading = d ∧ g.Step w e.state n.state ∧
        n.cost = stepCost w e.state d e.cost ∧
        n.estimate = addCost n.cost (distanceLeft w n.state.x n.state.y) ∧
        g.relax w e s d = s.improve (g.stateIndex n.state) e.state n := by
  unfold relax
  split
  · next hturn =>
    simp only [Bool.and_eq_true, decide_eq_true_eq] at hturn
    exact .inl ⟨rfl, fun t ht hstep => hturn.2 ((hstep.straight hturn.1).trans ht)⟩
  next hturn =>
  rw [neighbour?_eq]
  by_cases hinside : g.contains (d.move e.state.cell).1 (d.move e.state.cell).2 = true
  · rw [if_pos hinside]
    by_cases henter : g.mayEnter w (d.move e.state.cell).1 (d.move e.state.cell).2 d = true
    · refine .inr ⟨⟨_, _, (d.move e.state.cell).1, (d.move e.state.cell).2, d⟩, rfl, ?_, rfl, rfl,
        if_pos henter⟩
      exact {
        move := rfl
        inside := hinside
        enter := henter
        straight := fun hcrossing => by
          by_contra hne
          exact hturn (by simp [hcrossing, hne]) }
    · refine .inl ⟨if_neg henter, fun t ht hstep => henter ?_⟩
      have hcell := hstep.move
      rw [ht] at hcell
      rw [← hcell, ← ht]
      exact hstep.enter
  · rw [if_neg hinside]
    refine .inl ⟨rfl, fun t ht hstep => hinside ?_⟩
    have hcell := hstep.move
    rw [ht] at hcell
    rw [← hcell]
    exact hstep.inside

/-- Continuing from a state in one direction. -/
theorem traced_relax {e : QueueEntry} (h : s.Traced g w) (hknown : s.Known g w e.state)
    (hcost : s.costAt (g.stateIndex e.state) = e.cost) (d : Direction) :
    (g.relax w e s d).Traced g w ∧
      (g.relax w e s d).costAt (g.stateIndex e.state) = e.cost := by
  rcases relax_cases g w e s d with ⟨hsame, -⟩ | ⟨n, -, hstep, hn, -, hrelax⟩
  · rw [hsame]
    exact ⟨h, hcost⟩
  · have hlower : n.cost < maxCost → s.costAt (g.stateIndex e.state) < n.cost := by
      rw [hn, hcost]
      exact lt_stepCost
    rw [hrelax]
    obtain ⟨htraced, hkeep⟩ := h.improve hknown hstep hlower
    exact ⟨htraced, hkeep.trans hcost⟩

/-- A state that has been reached stays so. -/
theorem known_relax {e : QueueEntry} (h : s.Traced g w) (d : Direction) (hknown : s.Known g w t) :
    (g.relax w e s d).Known g w t := by
  rcases relax_cases g w e s d with ⟨hsame, -⟩ | ⟨n, -, -, -, -, hrelax⟩
  · rwa [hsame]
  · rw [hrelax]
    exact hknown.improve h.sizes_eq

/-- Continuing from a state in every direction. -/
theorem traced_expand {e : QueueEntry} (h : s.Traced g w) (hknown : s.Known g w e.state)
    (hcost : s.costAt (g.stateIndex e.state) = e.cost) : (g.expand w e s).Traced g w := by
  unfold expand
  generalize Direction.all = ds
  induction ds generalizing s with
  | nil => exact h
  | cons d ds ih =>
    obtain ⟨htraced, hkeep⟩ := traced_relax h hknown hcost d
    exact ih htraced (known_relax h d hknown) hkeep

theorem isOutdated_iff {e : QueueEntry} :
    g.isOutdated s e = true ↔ s.costAt (g.stateIndex e.state) ≠ e.cost := by
  simp [isOutdated, Search.costAt]

/-- When a search reaches the last cell its links lead back from there. -/
theorem traced_run (h : s.Traced g w) (hrun : g.run w s = some (t, s')) :
    s'.Traced g w ∧ s'.Known g w t ∧ t.cell = w.finish := by
  fun_induction run g w s with
  | case1 => exact absurd hrun (by simp)
  | case2 s e rest hpop s₁ _ ih => exact ih (h.pop hpop).1 hrun
  | case3 s e rest hpop s₁ _ hfinish =>
    obtain ⟨rfl, rfl⟩ := Prod.mk.inj (Option.some.inj hrun)
    exact ⟨(h.pop hpop).1, (h.pop hpop).2, hfinish⟩
  | case4 s e rest hpop s₁ hfresh _ ih =>
    obtain ⟨htraced, hknown⟩ := h.pop hpop
    have hcost := not_not.1 fun hne => hfresh (isOutdated_iff.2 hne)
    exact ih (traced_expand htraced hknown hcost) hrun

/-- No links have been made yet, and the first cell is reached in some directions. -/
structure Seeded (s : Search) (g : Grid) (w : Walk) (ds : List Direction) : Prop where
  /-- There is a cost for each state. -/
  best_size : s.best.size = g.cols * g.rows * 4
  /-- There are no links. -/
  previous_eq : s.previous = Array.replicate (g.cols * g.rows * 4) none
  /-- No cost is beyond the bound. -/
  le_maxCost : ∀ i, s.costAt i ≤ maxCost
  /-- In these directions the first cell costs nothing. -/
  origin : ∀ d ∈ ds, s.costAt (g.stateIndex ⟨w.start.1, w.start.2, d⟩) = 0
  /-- In no other state a way is known. -/
  unreached : ∀ i < g.cols * g.rows * 4, s.costAt i < maxCost →
    ∃ d ∈ ds, g.stateIndex ⟨w.start.1, w.start.2, d⟩ = i
  /-- Only the first cell waits. -/
  queued : ∀ e ∈ s.queue.toList, e.state.cell = w.start
  /-- Nothing has been spent, and nothing is estimated. -/
  free : ∀ e ∈ s.queue.toList, e.cost = 0 ∧ e.estimate = 0
  /-- In these directions the first cell waits. -/
  waiting : ∀ d ∈ ds, ∃ e ∈ s.queue.toList, e.state = ⟨w.start.1, w.start.2, d⟩

theorem costAt_seed (s : Search) (state : GridState) (i : Nat) :
    (g.seed s state).costAt i = if g.stateIndex state = i then 0 else s.costAt i := by
  simp only [seed, Search.costAt, Array.getElem?_setIfInBounds]
  split
  · split <;> rfl
  · rfl

/-- The first cell is reached in one more direction. -/
theorem Seeded.seed {ds : List Direction} (h : Seeded s g w ds) (d : Direction) :
    Seeded (g.seed s ⟨w.start.1, w.start.2, d⟩) g w (d :: ds) where
  best_size := by rw [Grid.seed, Array.size_setIfInBounds, h.best_size]
  previous_eq := h.previous_eq
  le_maxCost i := by
    rw [costAt_seed]
    split
    · exact Nat.zero_le _
    · exact h.le_maxCost i
  origin d' hd' := by
    rw [costAt_seed]
    split
    · rfl
    · next hne =>
      rcases List.mem_cons.1 hd' with rfl | hd'
      · exact absurd rfl hne
      · exact h.origin d' hd'
  unreached i hi hcost := by
    rw [costAt_seed] at hcost
    split at hcost
    · next heq => exact ⟨d, List.mem_cons_self, heq⟩
    · obtain ⟨d', hd', heq⟩ := h.unreached i hi hcost
      exact ⟨d', List.mem_cons_of_mem _ hd', heq⟩
  queued e he := by
    rcases (Queue.mem_insert _).1 he with rfl | he
    · rfl
    · exact h.queued e he
  free e he := by
    rcases (Queue.mem_insert _).1 he with rfl | he
    · exact ⟨rfl, rfl⟩
    · exact h.free e he
  waiting d' hd' := by
    rcases List.mem_cons.1 hd' with rfl | hd'
    · exact ⟨_, (Queue.mem_insert _).2 (.inl rfl), rfl⟩
    · obtain ⟨e, he, heq⟩ := h.waiting d' hd'
      exact ⟨e, (Queue.mem_insert _).2 (.inr he), heq⟩

/-- At the beginning the first cell is reached in every direction. -/
theorem seeded_begin (g : Grid) (w : Walk) : Seeded (g.begin w) g w Direction.all.reverse := by
  have hfold : ∀ (ds done : List Direction) (s : Search), Seeded s g w done →
      Seeded (ds.foldl (fun s d => g.seed s ⟨w.start.1, w.start.2, d⟩) s) g w
        (ds.reverse ++ done) := by
    intro ds
    induction ds with
    | nil => exact fun done s h => h
    | cons d ds ih =>
      intro done s h
      rw [List.reverse_cons, List.append_assoc, List.singleton_append]
      exact ih (d :: done) _ (h.seed d)
  rw [← List.append_nil Direction.all.reverse]
  refine hfold Direction.all [] _ ?_
  exact {
    best_size := Array.size_replicate
    previous_eq := rfl
    le_maxCost := fun i => by
      simp only [Search.costAt, Array.getElem?_replicate]
      split
      · exact Nat.le_refl _
      · exact Nat.zero_le _
    origin := nofun
    unreached := fun i hi hcost => by
      simp only [Search.costAt, Array.getElem?_replicate, if_pos hi] at hcost
      exact absurd hcost (lt_irrefl maxCost)
    queued := nofun
    free := nofun
    waiting := nofun }

/-- At the beginning of a search there are no links. -/
theorem traced_begin (g : Grid) (w : Walk) : (g.begin w).Traced g w := by
  have h := seeded_begin g w
  have hnone : ∀ i, (g.begin w).sourceAt i = none := by
    intro i
    rw [Search.sourceAt, h.previous_eq, Array.getElem?_replicate]
    split <;> rfl
  exact {
    best_size := h.best_size
    previous_size := by rw [h.previous_eq, Array.size_replicate]
    le_maxCost := h.le_maxCost
    origin := fun d => h.origin d (List.mem_reverse.2 (Direction.mem_all d))
    sourceAt_of_free := fun i _ => hnone i
    link := fun b t _ hsource => absurd ((hnone _).symm.trans hsource) (by simp)
    queued := fun e he => .inl (h.queued e he) }

/-! ### Following the links -/

/-- The number of states that cost less than some cost. -/
def countBelow (s : Search) (cost : Nat) : Nat :=
  ((Finset.range s.best.size).filter fun i => s.costAt i < cost).card

theorem countBelow_lt {i cost : Nat} (hi : i < s.best.size) (h : s.costAt i < cost) :
    countBelow s (s.costAt i) < countBelow s cost := by
  refine Finset.card_lt_card ?_
  rw [Finset.ssubset_iff_of_subset fun j hj => ?_]
  · exact ⟨i, by simp [hi, h], by simp⟩
  · simp only [Finset.mem_filter] at hj ⊢
    exact ⟨hj.1, hj.2.trans h⟩

theorem countBelow_lt_size {i : Nat} (hi : i < s.best.size) :
    countBelow s (s.costAt i) < s.best.size := by
  have hlt : countBelow s (s.costAt i) < (Finset.range s.best.size).card := by
    refine Finset.card_lt_card ?_
    rw [Finset.ssubset_iff_of_subset (Finset.filter_subset _ _)]
    exact ⟨i, by simp [hi], by simp⟩
  rwa [Finset.card_range] at hlt

/-- Following the links from a state gives a walk back to the first cell.  Every
link leads to a state of lower cost, so there are at most as many links as
states that cost less. -/
theorem exists_walk_of_trail (h : s.Traced g w) {fuel : Nat} {t : GridState}
    (ht : s.Known g w t)
    (hfuel : t.cell = w.start ∨ countBelow s (s.costAt (g.stateIndex t)) < fuel) :
    ∃ states : List GridState, g.trail s fuel t = (t :: states).map GridState.cell ∧
      (t :: states).IsChain (fun u b => g.Step w b u ∧ s.sourceAt (g.stateIndex u) = some b) ∧
      (t :: states).getLast?.map GridState.cell = some w.start := by
  induction fuel generalizing t with
  | zero =>
    have hstart : t.cell = w.start := hfuel.resolve_right (Nat.not_lt_zero _)
    exact ⟨[], rfl, .singleton t, congrArg some hstart⟩
  | succ fuel ih =>
    cases hsource : s.sourceAt (g.stateIndex t) with
    | none =>
      -- the only state without a link is in the first cell
      have hstart : t.cell = w.start := by
        rcases ht with hstart | ⟨-, hsome⟩
        · exact hstart
        · rw [hsource] at hsome
          exact absurd hsome (by simp)
      refine ⟨[], ?_, .singleton t, congrArg some hstart⟩
      rw [Search.sourceAt] at hsource
      rw [trail, hsource]
      rfl
    | some b =>
      have hstart : t.cell ≠ w.start := fun hstart => by
        rw [h.sourceAt_start hstart] at hsource
        exact absurd hsource (by simp)
      have hinside : g.contains t.x t.y = true := (ht.resolve_left hstart).1
      obtain ⟨hstep, hb, hlower⟩ := h.link b t hinside hsource
      -- the state before costs less, so that it has fewer states below it
      have hfuel' : b.cell = w.start ∨ countBelow s (s.costAt (g.stateIndex b)) < fuel := by
        refine hb.imp id fun hb => ?_
        have hindex : g.stateIndex b < s.best.size := by
          rw [h.best_size]
          exact stateIndex_lt hb.1
        have hcount := countBelow_lt hindex hlower
        have := hfuel.resolve_left hstart
        omega
      obtain ⟨states, htrail, hchain, hlast⟩ := ih hb hfuel'
      refine ⟨b :: states, ?_, hchain.cons_cons ⟨hstep, hsource⟩, hlast⟩
      rw [Search.sourceAt] at hsource
      rw [trail, hsource]
      simp only [htrail, List.map_cons, GridState.cell]

/-- When a search ends, its links lead back from the last cell to the first one. -/
theorem exists_links_of_run (hrun : g.run w (g.begin w) = some (t, s)) :
    ∃ states : List GridState,
      g.trail s s.best.size t = (t :: states).map GridState.cell ∧
      (t :: states).IsChain (fun u b => g.Step w b u ∧ s.sourceAt (g.stateIndex u) = some b) ∧
      g.IsWalk w (t :: states).reverse := by
  obtain ⟨htraced, hknown, hfinish⟩ := traced_run (traced_begin g w) hrun
  have hfuel : t.cell = w.start ∨ countBelow s (s.costAt (g.stateIndex t)) < s.best.size := by
    refine hknown.imp id fun hknown => countBelow_lt_size ?_
    rw [htraced.best_size]
    exact stateIndex_lt hknown.1
  obtain ⟨states, htrail, hchain, hlast⟩ := exists_walk_of_trail htraced hknown hfuel
  refine ⟨states, htrail, hchain, ?_⟩
  exact {
    first := by rw [List.head?_reverse, hlast]
    last := by rw [List.getLast?_reverse]; exact congrArg some hfinish
    steps := List.isChain_reverse.2 (hchain.imp fun _ _ h => h.1) }

/-- A search answers with the cells of a walk that keeps to the rules. -/
theorem search?_isWalk {cells : List (Int × Int)} (h : g.search? w = some cells) :
    ∃ states, cells = states.map GridState.cell ∧ g.IsWalk w states := by
  obtain ⟨⟨t, s⟩, hrun, rfl⟩ := Option.map_eq_some_iff.1 h
  obtain ⟨states, htrail, -, hwalk⟩ := exists_links_of_run hrun
  exact ⟨(t :: states).reverse, by rw [htrail, List.map_reverse], hwalk⟩

end Grid

end Schematic
