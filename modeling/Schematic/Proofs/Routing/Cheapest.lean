import Mathlib.Algebra.Group.Prod
import Schematic.Proofs.Routing.Frontier
import Schematic.Proofs.Routing.Region

/-!
# Cheapest walks

The rules for walks on a grid are stated for the cells of a walk alone, and so is its
cost: one for each step, and a penalty for each change of direction.  A search goes over
states, which also know the direction of the last step; what it answers with is
nevertheless a cheapest one of all walks of cells.

## Main definitions

* `Grid.Legal` — the cells of a walk that keeps to the rules.
* `turns`, `Walk.cost` — the changes of direction of a walk, and its cost.

## Main statements

* `Grid.Legal.exists_states`, `Grid.IsWalk.legal` — walks of cells and walks of states.
* `Grid.search?_cheapest` — a search from a cell of the region finds a cheapest walk, unless
  all are cut off.
-/

namespace Schematic

/-! ### Walks of cells -/

/-- The cells of a walk from the first cell to the last one that keeps to the rules. -/
structure Grid.Legal (g : Grid) (w : Walk) (cells : List (Int × Int)) : Prop where
  /-- It starts at the first cell. -/
  first : cells.head? = some w.start
  /-- It ends at the last cell. -/
  last : cells.getLast? = some w.finish
  /-- Each step leads to a neighbouring cell of the region that is not blocked, along an axis that
  no wire has taken there; only the last cell may be entered along any axis. -/
  steps : cells.IsChain fun c e => ∃ d : Direction, e = d.move c ∧ g.contains e.1 e.2 = true ∧
    g.isBlocked e.1 e.2 = false ∧ (e = w.finish ∨ d.runsAlong (g.taken e.1 e.2) = false)
  /-- The walk goes straight on over a cell that a wire has taken, the first cell apart. -/
  straight : ∀ b c e, [b, c, e] <:+: cells → c ≠ w.start → (g.taken c.1 c.2).isEmpty = false →
    ∃ d : Direction, c = d.move b ∧ e = d.move c

/-- The number of changes of direction of a walk. -/
def turns : List (Int × Int) → Nat
  | b :: c :: e :: cells => (if c - b = e - c then 0 else 1) + turns (c :: e :: cells)
  | _ => 0

/-- The cost of a walk: that of its steps, and the penalty for each change of direction. -/
def Walk.cost (w : Walk) (cells : List (Int × Int)) : Nat :=
  (cells.length - 1) + w.turnPenalty * turns cells

theorem Direction.move_sub_inj {d d' : Direction} {c c' : Int × Int} :
    d.move c - c = d'.move c' - c' ↔ d = d' := by
  cases d <;> cases d' <;> simp [Direction.move, Prod.ext_iff]

theorem Direction.move_inj {d d' : Direction} {c : Int × Int} (h : d.move c = d'.move c) :
    d = d' :=
  move_sub_inj.1 (congrArg (· - c) h)

namespace Grid

variable {g : Grid} {w : Walk}

/-! ### From states to cells -/

/-- The states after the first one pay for the steps between them and for all turns. -/
theorem spent_eq_turns {s t : GridState} {states : List GridState}
    (h : (s :: t :: states).IsChain (g.Step w)) :
    w.spent (t :: states) =
      states.length + w.turnPenalty * turns ((s :: t :: states).map GridState.cell) := by
  induction states generalizing s t with
  | nil => simp [turns]
  | cons u states ih =>
    obtain ⟨hst, h⟩ := List.isChain_cons_cons.1 h
    have htu := (List.isChain_cons_cons.1 h).1
    have hsame : t.cell - s.cell = u.cell - t.cell ↔ t.heading = u.heading := by
      rw [hst.move, htu.move, hst.move]
      exact Direction.move_sub_inj
    rw [Walk.spent_cons_cons, ih h, Walk.price]
    simp only [List.map_cons, turns, hsame, List.length_cons]
    split <;> ring

/-- Walking through states costs no less than the walk of their cells, which need not turn at the
first cell. -/
theorem cost_le_spent {states : List GridState} (h : states.IsChain (g.Step w)) :
    w.cost (states.map GridState.cell) ≤ w.spent states := by
  match states with
  | [] => simp [Walk.cost, turns, Walk.spent]
  | [s] => simp [Walk.cost, turns]
  | s :: t :: states =>
    have hprice := w.one_le_price s t
    rw [Walk.spent_cons_cons, spent_eq_turns h, Walk.cost]
    simp only [List.length_map, List.length_cons]
    omega

/-- When a walk through states sets out straight, then it costs the same. -/
theorem spent_eq_cost {s t : GridState} {states : List GridState}
    (h : (s :: t :: states).IsChain (g.Step w)) (hheading : s.heading = t.heading) :
    w.spent (s :: t :: states) = w.cost ((s :: t :: states).map GridState.cell) := by
  rw [Walk.spent_cons_cons, spent_eq_turns h, Walk.cost, Walk.price, if_pos hheading]
  simp only [List.length_map, List.length_cons]
  omega

/-- The cells of a walk through states. -/
theorem IsWalk.legal {states : List GridState} (h : g.IsWalk w states) :
    g.Legal w (states.map GridState.cell) where
  first := by rw [List.head?_map, h.first]
  last := by rw [List.getLast?_map, h.last]
  steps := by
    rw [List.isChain_map]
    exact h.steps.imp fun s t hstep =>
      ⟨t.heading, hstep.move, hstep.inside, mayEnter_iff.1 hstep.enter⟩
  straight b c e hinfix hc htaken := by
    obtain ⟨s, t, u, hl, rfl, rfl, rfl⟩ := exists_of_infix_map hinfix
    have hinner := List.IsChain.infix h.steps hl
    obtain ⟨hst, hsteps⟩ := List.isChain_cons_cons.1 hinner
    have htu := (List.isChain_cons_cons.1 hsteps).1
    refine ⟨t.heading, hst.move, ?_⟩
    rw [htu.straight (isCrossing_iff.2 ⟨hc, htaken⟩)]
    exact htu.move

/-! ### From cells to states -/

/-- After a first step, the states of a walk of cells are told by its steps. -/
theorem exists_states_after {cells : List (Int × Int)} {b c : Int × Int} {d : Direction}
    (hd : c = d.move b)
    (hsteps : (c :: cells).IsChain fun c e => ∃ d : Direction, e = d.move c ∧
      g.contains e.1 e.2 = true ∧ g.isBlocked e.1 e.2 = false ∧
      (e = w.finish ∨ d.runsAlong (g.taken e.1 e.2) = false))
    (hstraight : ∀ x y z, [x, y, z] <:+: b :: c :: cells → y ≠ w.start →
      (g.taken y.1 y.2).isEmpty = false → ∃ d : Direction, y = d.move x ∧ z = d.move y) :
    ∃ states : List GridState, states.map GridState.cell = cells ∧
      (⟨c.1, c.2, d⟩ :: states).IsChain (g.Step w) := by
  induction cells generalizing b c d with
  | nil => exact ⟨[], rfl, .singleton _⟩
  | cons e cells ih =>
    obtain ⟨⟨d', he, hinside, henter⟩, hsteps⟩ := List.isChain_cons_cons.1 hsteps
    obtain ⟨states, rfl, hchain⟩ := ih he hsteps fun x y z hinfix =>
      hstraight x y z (List.infix_cons hinfix)
    refine ⟨⟨e.1, e.2, d'⟩ :: states, rfl, hchain.cons_cons ?_⟩
    exact {
      move := he
      inside := hinside
      enter := mayEnter_iff.2 henter
      straight := fun hcrossing => by
        obtain ⟨hc, htaken⟩ := isCrossing_iff.1 hcrossing
        obtain ⟨d'', hb, hc'⟩ := hstraight b c e ⟨[], _, rfl⟩ hc htaken
        have hfirst : d = d'' := Direction.move_inj (hd.symm.trans hb)
        have hsecond : d' = d'' := Direction.move_inj (he.symm.trans hc')
        exact hfirst.trans hsecond.symm }

/-- A walk of cells is one of states that costs the same. -/
theorem Legal.exists_states {cells : List (Int × Int)} (h : g.Legal w cells) :
    ∃ states : List GridState, states.map GridState.cell = cells ∧ g.IsWalk w states ∧
      w.spent states = w.cost cells := by
  have hends : ∀ states : List GridState, states.map GridState.cell = cells →
      states.IsChain (g.Step w) → g.IsWalk w states := by
    rintro states rfl hsteps
    exact ⟨by rw [← List.head?_map, h.first], by rw [← List.getLast?_map, h.last], hsteps⟩
  match cells, h with
  | [], h => exact absurd h.first nofun
  | [c], h => exact ⟨[⟨c.1, c.2, .up⟩], rfl, hends _ rfl (.singleton _), rfl⟩
  | c :: e :: cells, h =>
    obtain ⟨⟨d, he, hinside, henter⟩, hsteps⟩ := List.isChain_cons_cons.1 h.steps
    obtain ⟨states, rfl, hchain⟩ := exists_states_after he hsteps h.straight
    -- the direction before the first step is that of the first step
    have hstep : g.Step w ⟨c.1, c.2, d⟩ ⟨e.1, e.2, d⟩ :=
      { move := he, inside := hinside, enter := mayEnter_iff.2 henter, straight := fun _ => rfl }
    have hsteps := hchain.cons_cons hstep
    exact ⟨_, rfl, hends _ rfl hsteps, spent_eq_cost hsteps rfl⟩

/-! ### What a search answers -/

/-- When a search finds nothing, all walks are cut off. -/
theorem maxCost_le_cost (hstart : g.contains w.start.1 w.start.2 = true)
    (h : g.search? w = none) {cells : List (Int × Int)} (hlegal : g.Legal w cells) :
    maxCost ≤ w.cost cells := by
  obtain ⟨states, -, hwalk, hcost⟩ := hlegal.exists_states
  have hrun := Option.map_eq_none_iff.1 h
  rw [← hcost]
  exact maxCost_le_spent (frontier_begin hstart) (traced_begin g w) hstart hrun hwalk

/-- What a search finds is a walk that is not cut off, and no walk is cheaper. -/
theorem cost_le_cost (hstart : g.contains w.start.1 w.start.2 = true)
    {cells : List (Int × Int)} (h : g.search? w = some cells) :
    g.Legal w cells ∧ w.cost cells < maxCost ∧
      ∀ other, g.Legal w other → w.cost cells ≤ w.cost other := by
  obtain ⟨⟨t, s⟩, hrun, rfl⟩ := Option.map_eq_some_iff.1 h
  obtain ⟨states, htrail, hlinks, hwalk⟩ := exists_links_of_run hrun
  obtain ⟨⟨busy, hfrontier⟩, hmax, hleast⟩ :=
    costAt_le_spent (frontier_begin hstart) (traced_begin g w) hstart hrun
  have hcost : w.cost ((t :: states).reverse.map GridState.cell) ≤ s.costAt (g.stateIndex t) :=
    (cost_le_spent hwalk.steps).trans (spent_reverse_le hfrontier hlinks)
  simp only [htrail, ← List.map_reverse]
  refine ⟨hwalk.legal, hcost.trans_lt hmax, fun other hother => ?_⟩
  obtain ⟨states', -, hwalk', hcost'⟩ := hother.exists_states
  rw [← hcost']
  exact hcost.trans (hleast states' hwalk')

/-- On every grid, a search from a cell of the region finds a walk exactly if some walk that keeps
to the rules is not cut off, and then it finds one that keeps to the rules and costs the least of
all. -/
theorem search?_cheapest (g : Grid) (w : Walk) (hstart : g.contains w.start.1 w.start.2 = true) :
    ((∃ cells, g.search? w = some cells) ↔ ∃ cells, g.Legal w cells ∧ w.cost cells < maxCost) ∧
      ∀ cells, g.search? w = some cells →
        g.Legal w cells ∧ ∀ other, g.Legal w other → w.cost cells ≤ w.cost other := by
  refine ⟨⟨fun ⟨cells, h⟩ => ?_, fun ⟨cells, hlegal, hcost⟩ => ?_⟩, fun cells h => ?_⟩
  · obtain ⟨hlegal, hcost, -⟩ := cost_le_cost hstart h
    exact ⟨cells, hlegal, hcost⟩
  · cases h : g.search? w with
    | some found => exact ⟨found, rfl⟩
    | none => exact absurd (maxCost_le_cost hstart h hlegal) (not_le.2 hcost)
  · obtain ⟨hlegal, -, hleast⟩ := cost_le_cost hstart h
    exact ⟨hlegal, hleast⟩

/-- A wire crosses a small region from top to bottom, and a cell beside it is blocked. -/
def fenced : Grid :=
  { cols := 4
    rows := 3
    blocked := #[false, false, false, false, false, true, false, false, false, false, false, false]
    taken := fun x _ => if x = 2 then .alongY else .none }

/-- A walk from the left of `fenced` to the right. -/
def acrossFence : Walk := { start := (0, 1), finish := (3, 1), turnPenalty := 4 }

/-- The way around the blocked cell crosses the wire straight on, and turns only behind it. -/
theorem fenced_cheapest :
    fenced.contains acrossFence.start.1 acrossFence.start.2 = true ∧
      fenced.search? acrossFence = some [(0, 1), (0, 0), (1, 0), (2, 0), (3, 0), (3, 1)] ∧
      acrossFence.cost [(0, 1), (0, 0), (1, 0), (2, 0), (3, 0), (3, 1)] = 13 ∧
      fenced.Legal acrossFence [(0, 1), (0, 0), (1, 0), (2, 0), (3, 0), (3, 1)] ∧
      ∀ other, fenced.Legal acrossFence other → 13 ≤ acrossFence.cost other := by
  have hstart : fenced.contains acrossFence.start.1 acrossFence.start.2 = true := by decide
  have hfound : fenced.search? acrossFence =
      some [(0, 1), (0, 0), (1, 0), (2, 0), (3, 0), (3, 1)] := by decide +kernel
  obtain ⟨hlegal, hleast⟩ := (search?_cheapest fenced acrossFence hstart).2 _ hfound
  exact ⟨hstart, hfound, by decide, hlegal, hleast⟩

end Grid

namespace Router

/-- A router with a margin that stands for a negative one. -/
def narrowRouter : Router ℚ :=
  { sampleRouter with margin := wrapInt64 18446744073709551615, turnPenalty := 4 }

/-- Two corners that keep the region open to the left. -/
def cornerBoxes : List (Rect ℚ) := [⟨-6, -1, 0, 0⟩, ⟨-6, 3, 0, 0⟩]

/-- A negative margin leaves the first cell out of the region.  Its number is then that of another
cell, through which no walk is found, and the only walk with a single turn leads there. -/
theorem narrowRouter_misses :
    (narrowRouter.grid ⟨0, 0⟩ ⟨-5, 2⟩ cornerBoxes fun _ => .none).search?
        (narrowRouter.walk ⟨0, 0⟩ ⟨-5, 2⟩ cornerBoxes) =
      some [(5, 0), (4, 0), (3, 0), (2, 0), (1, 0), (1, 1), (1, 2), (0, 2)] ∧
    (narrowRouter.grid ⟨0, 0⟩ ⟨-5, 2⟩ cornerBoxes fun _ => .none).Legal
        (narrowRouter.walk ⟨0, 0⟩ ⟨-5, 2⟩ cornerBoxes)
      [(5, 0), (4, 0), (3, 0), (2, 0), (1, 0), (0, 0), (0, 1), (0, 2)] ∧
    (narrowRouter.walk ⟨0, 0⟩ ⟨-5, 2⟩ cornerBoxes).cost
        [(5, 0), (4, 0), (3, 0), (2, 0), (1, 0), (0, 0), (0, 1), (0, 2)] <
      (narrowRouter.walk ⟨0, 0⟩ ⟨-5, 2⟩ cornerBoxes).cost
        [(5, 0), (4, 0), (3, 0), (2, 0), (1, 0), (1, 1), (1, 2), (0, 2)] := by
  refine ⟨by decide +kernel, ?_, by decide +kernel⟩
  exact {
    first := by decide +kernel
    last := by decide +kernel
    steps :=
      .cons_cons ⟨.left, by decide +kernel⟩ <| .cons_cons ⟨.left, by decide +kernel⟩ <|
      .cons_cons ⟨.left, by decide +kernel⟩ <| .cons_cons ⟨.left, by decide +kernel⟩ <|
      .cons_cons ⟨.left, by decide +kernel⟩ <| .cons_cons ⟨.down, by decide +kernel⟩ <|
      .cons_cons ⟨.down, by decide +kernel⟩ <| .singleton _
    straight := fun _ _ _ _ _ htaken => absurd htaken Bool.noConfusion }

end Router

end Schematic
