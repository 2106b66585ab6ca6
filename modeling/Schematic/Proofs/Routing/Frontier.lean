import Schematic.Proofs.Routing.Trail

/-!
# What a search has still to do

A state that a search has reached either waits, or has been explored: then each state
that a walk may go on into from there has been reached at a cost that is no higher than
by this step.  So a walk from the first cell to the last one has a state that waits, and
the estimate of that state is at most the cost of the walk, since the distance to the
last cell is no more than the steps that are left.  The search goes on from the least
estimate of all, and therefore reaches the last cell by a cheapest walk.

Costs are cut off at `maxCost`, and so are estimates.  Both are exact below it, and
what is not below it never waits.

## Main definitions

* `Queue.Ordered` — no member of a queue comes after the ones below it.
* `Walk.price`, `Walk.spent` — the cost of a step, and of all steps of a walk.
* `Walk.distance` — the distance to the last cell, however large.
* `Search.Waits`, `Search.Explored` — what there is still to do about a state.
* `Search.Frontier` — every reached state waits or has been explored.

## Main statements

* `Queue.Ordered.pop?` — a queue hands out a least member.
* `Search.Frontier.improve`, `Search.Frontier.expand` — reaching states keeps the
  frontier.
* `Search.Frontier.exists_waiting` — on every walk some state waits.
* `Grid.maxCost_le_spent`, `Grid.costAt_le_spent` — what it means when a search ends.
-/

namespace Schematic

/-! ### Queues in order -/

namespace Queue

variable {β : Type} {before : β → β → Bool} {key : β → Nat} {a b q : Queue β} {u v : β} {k : Nat}

/-- Each member has a key that is no larger than the keys of those in its branches. -/
def Ordered (key : β → Nat) : Queue β → Prop
  | .empty => True
  | .node _ v l r => (∀ u ∈ l.toList ++ r.toList, key v ≤ key u) ∧ l.Ordered key ∧ r.Ordered key

theorem Ordered.le_of_mem (h : (node k v a b).Ordered key) (hu : u ∈ (node k v a b).toList) :
    key v ≤ key u := by
  rcases List.mem_cons.1 hu with rfl | hu
  · exact Nat.le_refl _
  · exact h.1 u hu

theorem ordered_join (hv : ∀ u ∈ a.toList ++ b.toList, key v ≤ key u) (ha : a.Ordered key)
    (hb : b.Ordered key) : (join v a b).Ordered key := by
  unfold join
  split
  · exact ⟨hv, ha, hb⟩
  · exact ⟨fun u hu => hv u (List.perm_append_comm.mem_iff.1 hu), hb, ha⟩

/-- Members with one key are in order however they are kept. -/
theorem ordered_of_forall_eq (h : ∀ u ∈ q.toList, key u = k) : q.Ordered key := by
  induction q with
  | empty => trivial
  | node r v a b iha ihb =>
    simp only [toList, List.mem_cons, List.mem_append] at h
    refine ⟨fun u hu => ?_, iha fun u hu => h u (.inr (.inl hu)),
      ihb fun u hu => h u (.inr (.inr hu))⟩
    rw [h v (.inl rfl), h u (.inr (List.mem_append.1 hu))]

section Order

variable (hbefore : ∀ u v, before u v = true → key u ≤ key v)
  (hafter : ∀ u v, before u v = false → key v ≤ key u)
include hbefore hafter

/-- The smaller one of two roots stays on top. -/
theorem Ordered.merge (ha : a.Ordered key) (hb : b.Ordered key) :
    (Queue.merge before a b).Ordered key := by
  fun_induction Queue.merge before a b with
  | case1 b => exact hb
  | case2 a => exact ha
  | case3 ra x la xa rb y lb yb hyx ih =>
    refine ordered_join (fun u hu => ?_) hb.2.1 (ih ha hb.2.2)
    rw [List.mem_append, (toList_merge_perm ..).mem_iff, List.mem_append] at hu
    rcases hu with hu | hu | hu
    · exact hb.1 u (List.mem_append_left _ hu)
    · exact (hbefore _ _ hyx).trans (ha.le_of_mem hu)
    · exact hb.1 u (List.mem_append_right _ hu)
  | case4 ra x la xa rb y lb yb hxy ih =>
    refine ordered_join (fun u hu => ?_) ha.2.1 (ih ha.2.2 hb)
    rw [List.mem_append, (toList_merge_perm ..).mem_iff, List.mem_append] at hu
    rcases hu with hu | hu | hu
    · exact ha.1 u (List.mem_append_left _ hu)
    · exact ha.1 u (List.mem_append_right _ hu)
    · exact (hafter _ _ (Bool.eq_false_iff.2 hxy)).trans (hb.le_of_mem hu)

theorem Ordered.insert (h : q.Ordered key) (v : β) : (q.insert before v).Ordered key :=
  Ordered.merge hbefore hafter ⟨nofun, trivial, trivial⟩ h

/-- The member taken out is a least one. -/
theorem Ordered.pop? (h : q.Ordered key) {r : β × Queue β} (hr : q.pop? before = some r) :
    r.2.Ordered key ∧ ∀ u ∈ q.toList, key r.1 ≤ key u := by
  cases q with
  | empty => exact absurd hr nofun
  | node k v a b =>
    obtain rfl := Option.some.inj hr
    exact ⟨Ordered.merge hbefore hafter h.2.1 h.2.2, fun u hu => h.le_of_mem hu⟩

end Order

end Queue

namespace QueueEntry

theorem estimate_le_of_before (a b : QueueEntry) (h : a.before b = true) :
    a.estimate ≤ b.estimate := by
  unfold QueueEntry.before at h
  split at h
  · exact (of_decide_eq_true h).le
  · next heq => exact (not_not.1 heq).le

theorem estimate_le_of_not_before (a b : QueueEntry) (h : a.before b = false) :
    b.estimate ≤ a.estimate := by
  unfold QueueEntry.before at h
  split at h
  · exact not_lt.1 (of_decide_eq_false h)
  · next heq => exact (not_not.1 heq).ge

end QueueEntry

/-! ### The cost of a walk -/

namespace Walk

variable {g : Grid} {w : Walk} {s t : GridState}

/-- The cost of a step from one state into another one. -/
def price (w : Walk) (s t : GridState) : Nat :=
  1 + if s.heading = t.heading then 0 else w.turnPenalty

/-- The cost of all steps of a walk. -/
def spent (w : Walk) : List GridState → Nat
  | s :: t :: states => w.price s t + w.spent (t :: states)
  | _ => 0

/-- The distance from a cell to the last one. -/
def distance (w : Walk) (c : Int × Int) : Nat :=
  (c.1 - w.finish.1).natAbs + (c.2 - w.finish.2).natAbs

@[simp] theorem spent_singleton (w : Walk) (s : GridState) : w.spent [s] = 0 := rfl

@[simp] theorem spent_cons_cons (w : Walk) (s t : GridState) (states : List GridState) :
    w.spent (s :: t :: states) = w.price s t + w.spent (t :: states) := rfl

/-- One more step at the end of a walk. -/
theorem spent_concat (w : Walk) (states : List GridState) (s t : GridState) :
    w.spent (states ++ [s, t]) = w.spent (states ++ [s]) + w.price s t := by
  induction states with
  | nil => simp
  | cons u states ih =>
    cases states with
    | nil => simp
    | cons v states =>
      simp only [List.cons_append, spent_cons_cons] at ih ⊢
      omega

theorem distance_move_le (w : Walk) (d : Direction) (c : Int × Int) :
    w.distance c ≤ w.distance (d.move c) + 1 := by
  cases d <;> simp only [distance, Direction.move] <;> omega

theorem one_le_price (w : Walk) (s t : GridState) : 1 ≤ w.price s t := Nat.le_add_right ..

/-- A walk to the last cell has as many steps as the distance at least. -/
theorem distance_le_spent {states : List GridState} (hsteps : (s :: states).IsChain (g.Step w))
    (hlast : (s :: states).getLast?.map GridState.cell = some w.finish) :
    w.distance s.cell ≤ w.spent (s :: states) := by
  induction states generalizing s with
  | nil =>
    have hfinish : s.cell = w.finish := Option.some.inj hlast
    simp [distance, hfinish]
  | cons t states ih =>
    obtain ⟨hstep, hsteps⟩ := List.isChain_cons_cons.1 hsteps
    have hrest := ih hsteps hlast
    have hmove := w.distance_move_le t.heading s.cell
    rw [← hstep.move] at hmove
    have hprice := w.one_le_price s t
    rw [spent_cons_cons]
    omega

end Walk

namespace Grid

variable {w : Walk}

theorem distanceLeft_le (w : Walk) (c : Int × Int) : distanceLeft w c.1 c.2 ≤ w.distance c :=
  Nat.mod_le ..

/-- Costs are added up exactly, until they are cut off. -/
theorem stepCost_eq (w : Walk) (s t : GridState) (cost : Nat) :
    stepCost w s t.heading cost = min (cost + w.price s t) maxCost := by
  simp only [stepCost, addCost, Walk.price]
  split <;> omega

end Grid

/-! ### Waiting states and explored states -/

namespace Search

variable {g : Grid} {w : Walk} {s : Search} {b t : GridState} {busy : GridState → Prop}

/-- A state waits with the least cost known of it. -/
def Waits (s : Search) (g : Grid) (t : GridState) : Prop :=
  ∃ e ∈ s.queue.toList, e.state = t ∧ e.cost = s.costAt (g.stateIndex t)

/-- A state has been explored in a direction: where the step leads has been reached at a cost that
is no higher than by this step. -/
def Explored (s : Search) (g : Grid) (w : Walk) (t : GridState) (d : Direction) : Prop :=
  ∀ u : GridState, u.heading = d → g.Step w t u →
    s.costAt (g.stateIndex u) ≤ s.costAt (g.stateIndex t) + w.price t u

/-- All states that have been reached wait or have been explored, apart from those that the search
is busy with. -/
structure Frontier (s : Search) (g : Grid) (w : Walk) (busy : GridState → Prop) : Prop where
  /-- Waiting states are handed out in the order of their estimates. -/
  ordered : s.queue.Ordered QueueEntry.estimate
  /-- Waiting states have not been cut off. -/
  cost_lt : ∀ e ∈ s.queue.toList, e.cost < maxCost
  /-- An estimate is the cost at least. -/
  cost_le : ∀ e ∈ s.queue.toList, e.cost ≤ e.estimate
  /-- An estimate does not count more than the distance on top of the cost. -/
  estimate_le : ∀ e ∈ s.queue.toList, e.estimate ≤ e.cost + w.distance e.state.cell
  /-- A state costs no less than the one before it and the step from there. -/
  link_le : ∀ b t : GridState, g.contains t.x t.y = true → s.sourceAt (g.stateIndex t) = some b →
    s.costAt (g.stateIndex b) + w.price b t ≤ s.costAt (g.stateIndex t)
  /-- A reached state waits, or it has been explored, and then it is not in the last cell. -/
  reached : ∀ t : GridState, g.contains t.x t.y = true → s.costAt (g.stateIndex t) < maxCost →
    busy t ∨ s.Waits g t ∨ t.cell ≠ w.finish ∧ ∀ d, s.Explored g w t d

theorem Frontier.mono {busy' : GridState → Prop} (h : s.Frontier g w busy)
    (hbusy : ∀ t, busy t → busy' t ∨ t.cell ≠ w.finish ∧ ∀ d, s.Explored g w t d) :
    s.Frontier g w busy' :=
  { h with
    reached := fun t ht hcost => by
      rcases h.reached t ht hcost with h | h | h
      · exact (hbusy t h).imp id .inr
      · exact .inr (.inl h)
      · exact .inr (.inr h) }

/-! ### Reaching a state -/

theorem costAt_improve_self_le (s : Search) (i : Nat) (b : GridState) (e : QueueEntry) :
    (s.improve i b e).costAt i ≤ e.cost := by
  rcases Nat.lt_or_ge e.cost (s.costAt i) with hlt | hle
  · rw [costAt_improve hlt, if_pos rfl]
  · rwa [improve_of_le hle]

theorem queue_improve {i : Nat} {e : QueueEntry} (h : e.cost < s.costAt i) :
    (s.improve i b e).queue = s.queue.insert QueueEntry.before e := by
  have hi : i < s.best.size := by
    by_contra hi
    simp [costAt, hi] at h
  have hlt : e.cost < s.best[i] := by simpa [costAt, hi] using h
  simp only [improve, hi, hlt, dif_pos, if_pos]

/-- A state that costs what it did before stays explored. -/
theorem Explored.improve {d : Direction} (h : s.Explored g w t d) {i : Nat} {e : QueueEntry}
    (hkeep : (s.improve i b e).costAt (g.stateIndex t) = s.costAt (g.stateIndex t)) :
    (s.improve i b e).Explored g w t d := by
  intro u hu hstep
  rw [hkeep]
  exact (costAt_improve_le ..).trans (h u hu hstep)

/-- Reaching a state more cheaply than before makes it wait. -/
theorem Frontier.improve_of_lt (h : s.Frontier g w busy)
    (hsize : s.previous.size = s.best.size) {e : QueueEntry}
    (hinside : g.contains e.state.x e.state.y = true) (hmax : e.cost < maxCost)
    (hcost : e.cost ≤ e.estimate) (hestimate : e.estimate ≤ e.cost + w.distance e.state.cell)
    (hlink : s.costAt (g.stateIndex b) + w.price b e.state ≤ e.cost)
    (hlt : e.cost < s.costAt (g.stateIndex e.state)) :
    (s.improve (g.stateIndex e.state) b e).Frontier g w busy := by
  have hmem : ∀ e', e' ∈ (s.improve (g.stateIndex e.state) b e).queue.toList ↔
      e' = e ∨ e' ∈ s.queue.toList := fun e' => by
    rw [queue_improve hlt]
    exact Queue.mem_insert _
  have hcostAt := fun j => costAt_improve (b := b) hlt j
  have hfall := costAt_improve_le s (g.stateIndex e.state) b e
  constructor
  case ordered =>
    rw [queue_improve hlt]
    exact Queue.Ordered.insert QueueEntry.estimate_le_of_before
      QueueEntry.estimate_le_of_not_before h.ordered e
  case cost_lt =>
    intro e' he'
    rcases (hmem e').1 he' with rfl | he'
    · exact hmax
    · exact h.cost_lt e' he'
  case cost_le =>
    intro e' he'
    rcases (hmem e').1 he' with rfl | he'
    · exact hcost
    · exact h.cost_le e' he'
  case estimate_le =>
    intro e' he'
    rcases (hmem e').1 he' with rfl | he'
    · exact hestimate
    · exact h.estimate_le e' he'
  case link_le =>
    intro b' t ht hsource
    rw [sourceAt_improve hlt hsize] at hsource
    split at hsource
    · -- the new link
      next hindex =>
      obtain rfl : e.state = t := Grid.stateIndex_inj hinside ht hindex
      obtain rfl := Option.some.inj hsource
      rw [hcostAt (g.stateIndex e.state), if_pos rfl]
      exact (Nat.add_le_add_right (hfall _) _).trans hlink
    · next hindex =>
      rw [hcostAt (g.stateIndex t), if_neg hindex]
      exact (Nat.add_le_add_right (hfall _) _).trans (h.link_le b' t ht hsource)
  case reached =>
    intro t ht htmax
    by_cases hindex : g.stateIndex e.state = g.stateIndex t
    · -- the state that was reached waits
      obtain rfl : e.state = t := Grid.stateIndex_inj hinside ht hindex
      refine .inr (.inl ⟨e, (hmem e).2 (.inl rfl), rfl, ?_⟩)
      rw [hcostAt, if_pos rfl]
    · have hkeep : (s.improve (g.stateIndex e.state) b e).costAt (g.stateIndex t) =
          s.costAt (g.stateIndex t) := by
        rw [hcostAt, if_neg hindex]
      rw [hkeep] at htmax
      rcases h.reached t ht htmax with hbusy | ⟨e', he', hstate, hcost'⟩ | ⟨hfinish, hexplored⟩
      · exact .inl hbusy
      · exact .inr (.inl ⟨e', (hmem e').2 (.inr he'), hstate, hcost'.trans hkeep.symm⟩)
      · exact .inr (.inr ⟨hfinish, fun d => (hexplored d).improve hkeep⟩)

/-- A state reached by a step is reached at the cost of the step at most. -/
theorem Frontier.improve (h : s.Frontier g w busy) (htraced : s.Traced g w) {e : QueueEntry}
    (hinside : g.contains e.state.x e.state.y = true) (hcost : e.cost ≤ e.estimate)
    (hestimate : e.estimate ≤ e.cost + w.distance e.state.cell)
    (hlink : e.cost < maxCost → s.costAt (g.stateIndex b) + w.price b e.state ≤ e.cost) :
    (s.improve (g.stateIndex e.state) b e).Frontier g w busy := by
  rcases Nat.lt_or_ge e.cost (s.costAt (g.stateIndex e.state)) with hlt | hle
  · have hmax := hlt.trans_le (htraced.le_maxCost _)
    exact h.improve_of_lt htraced.sizes_eq hinside hmax hcost hestimate (hlink hmax) hlt
  · rwa [improve_of_le hle]

/-! ### Exploring a state -/

/-- Continuing from a state in one direction explores it that way. -/
theorem Frontier.relax (h : s.Frontier g w busy) (htraced : s.Traced g w) {e : QueueEntry}
    (hknown : s.Known g w e.state) (hcost : s.costAt (g.stateIndex e.state) = e.cost)
    (d : Direction) :
    (g.relax w e s d).Frontier g w busy ∧ (g.relax w e s d).Explored g w e.state d ∧
      ∀ d', s.Explored g w e.state d' → (g.relax w e s d).Explored g w e.state d' := by
  have hkeep := (Grid.traced_relax htraced hknown hcost d).2
  rcases Grid.relax_cases g w e s d with ⟨hsame, hnone⟩ | ⟨n, hn, hstep, hncost, hnest, hrelax⟩
  · rw [hsame]
    exact ⟨h, fun u hu hstep => absurd hstep (hnone u hu), fun _ hexplored => hexplored⟩
  · rw [← hn, Grid.stepCost_eq] at hncost
    have hdistance := Grid.distanceLeft_le w n.state.cell
    simp only [addCost, GridState.cell] at hnest hdistance
    rw [hrelax] at hkeep ⊢
    refine ⟨h.improve htraced hstep.inside ?_ ?_ fun hlt => ?_, fun u hu hother => ?_,
      fun d' hexplored => hexplored.improve (hkeep.trans hcost.symm)⟩
    · omega
    · simp only [GridState.cell]
      omega
    · omega
    · obtain rfl := hstep.eq hother (hn.trans hu.symm)
      have hle := costAt_improve_self_le s (g.stateIndex n.state) e.state n
      omega

/-- Continuing from a state in every direction explores it. -/
theorem Frontier.expand {e : QueueEntry} (h : s.Frontier g w (· = e.state))
    (htraced : s.Traced g w) (hknown : s.Known g w e.state)
    (hcost : s.costAt (g.stateIndex e.state) = e.cost) (hfinish : e.state.cell ≠ w.finish) :
    (g.expand w e s).Frontier g w fun _ => False := by
  have hfold : ∀ (ds done : List Direction) (s : Search), s.Frontier g w (· = e.state) →
      s.Traced g w → s.Known g w e.state → s.costAt (g.stateIndex e.state) = e.cost →
      (∀ d ∈ done, s.Explored g w e.state d) →
      (ds.foldl (g.relax w e) s).Frontier g w (· = e.state) ∧
        ∀ d, d ∈ ds ∨ d ∈ done → (ds.foldl (g.relax w e) s).Explored g w e.state d := by
    intro ds
    induction ds with
    | nil =>
      intro done s h _ _ _ hdone
      exact ⟨h, fun d hd => hdone d (hd.resolve_left List.not_mem_nil)⟩
    | cons d ds ih =>
      intro done s h htraced hknown hcost hdone
      obtain ⟨hfrontier, hnew, hold⟩ := h.relax htraced hknown hcost d
      obtain ⟨htraced', hcost'⟩ := Grid.traced_relax htraced hknown hcost d
      obtain ⟨hlast, hall⟩ := ih (d :: done) _ hfrontier htraced'
        (Grid.known_relax htraced d hknown) hcost' fun d' hd' => by
          rcases List.mem_cons.1 hd' with rfl | hd'
          · exact hnew
          · exact hold d' (hdone d' hd')
      refine ⟨hlast, fun d' hd' => hall d' ?_⟩
      rw [List.mem_cons] at hd' ⊢
      tauto
  obtain ⟨hlast, hall⟩ := hfold Direction.all [] s h htraced hknown hcost nofun
  refine hlast.mono fun t ht => .inr ?_
  rw [ht]
  exact ⟨hfinish, fun d => hall d (.inl (Direction.mem_all d))⟩

/-- After a state has been taken off the queue, the search is busy with it if it waited with the
least cost known of it. -/
theorem Frontier.pop (h : s.Frontier g w fun _ => False) {e : QueueEntry}
    {rest : Queue QueueEntry} (hpop : s.queue.pop? QueueEntry.before = some (e, rest)) :
    ({ s with queue := rest } : Search).Frontier g w
      fun t => t = e.state ∧ s.costAt (g.stateIndex e.state) = e.cost := by
  have hmem := fun u => Queue.mem_pop? QueueEntry.before hpop (u := u)
  exact {
    ordered := (Queue.Ordered.pop? QueueEntry.estimate_le_of_before
      QueueEntry.estimate_le_of_not_before h.ordered hpop).1
    cost_lt := fun u hu => h.cost_lt u ((hmem u).2 (.inr hu))
    cost_le := fun u hu => h.cost_le u ((hmem u).2 (.inr hu))
    estimate_le := fun u hu => h.estimate_le u ((hmem u).2 (.inr hu))
    link_le := h.link_le
    reached := fun t ht hlt => by
      rcases h.reached t ht hlt with hbusy | ⟨u, hu, rfl, hcost⟩ | hexplored
      · exact hbusy.elim
      · rcases (hmem u).1 hu with rfl | hu
        · exact .inl ⟨rfl, hcost.symm⟩
        · exact .inr (.inl ⟨u, hu, rfl, hcost⟩)
      · exact .inr (.inr hexplored) }

/-! ### Walks through the frontier -/

/-- Along every walk to the last cell that is not cut off, some state waits.  Its estimate is no
more than the cost of the walk, whatever has been spent before. -/
theorem Frontier.exists_waiting (h : s.Frontier g w fun _ => False) {states : List GridState}
    (ht : g.contains t.x t.y = true) (hsteps : (t :: states).IsChain (g.Step w))
    (hlast : (t :: states).getLast?.map GridState.cell = some w.finish) {before : Nat}
    (hbefore : s.costAt (g.stateIndex t) ≤ before)
    (hlt : before + w.spent (t :: states) < maxCost) :
    ∃ e ∈ s.queue.toList, e.estimate ≤ before + w.spent (t :: states) := by
  induction states generalizing t before with
  | nil =>
    have hfinish : t.cell = w.finish := Option.some.inj hlast
    rw [Walk.spent_singleton] at hlt ⊢
    rcases h.reached t ht (by omega) with hbusy | ⟨e, he, rfl, hcost⟩ | hexplored
    · exact hbusy.elim
    · have hestimate := h.estimate_le e he
      have hzero : w.distance e.state.cell = 0 := by simp [Walk.distance, hfinish]
      exact ⟨e, he, by omega⟩
    · exact absurd hfinish hexplored.1
  | cons u states ih =>
    have hdistance := Walk.distance_le_spent hsteps hlast
    obtain ⟨hstep, hsteps⟩ := List.isChain_cons_cons.1 hsteps
    rw [Walk.spent_cons_cons] at hlt hdistance ⊢
    rcases h.reached t ht (by omega) with hbusy | ⟨e, he, rfl, hcost⟩ | ⟨-, hexplored⟩
    · exact hbusy.elim
    · have hestimate := h.estimate_le e he
      exact ⟨e, he, by omega⟩
    · -- the walk goes on into a state that costs no more than along the walk
      have hnext := hexplored u.heading u rfl hstep
      have hcost : s.costAt (g.stateIndex u) ≤ before + w.price t u := by omega
      obtain ⟨e, he, hle⟩ := ih hstep.inside hsteps hlast hcost (by omega)
      exact ⟨e, he, by omega⟩

/-- While a search runs, some state of a walk waits that is not cut off. -/
theorem Frontier.exists_waiting_of_isWalk (h : s.Frontier g w fun _ => False)
    (htraced : s.Traced g w) (hstart : g.contains w.start.1 w.start.2 = true)
    {states : List GridState} (hwalk : g.IsWalk w states) (hlt : w.spent states < maxCost) :
    ∃ e ∈ s.queue.toList, e.estimate ≤ w.spent states := by
  cases states with
  | nil => exact absurd hwalk.first nofun
  | cons t states =>
    have ht : t.cell = w.start := Option.some.inj hwalk.first
    rw [← ht] at hstart
    have hfree := htraced.costAt_start ht
    obtain ⟨e, he, hle⟩ := h.exists_waiting hstart hwalk.steps hwalk.last hfree.le
      (by omega)
    exact ⟨e, he, by omega⟩

end Search

namespace Grid

variable {g : Grid} {w : Walk} {s s' : Search} {t : GridState}

/-! ### The end of a search -/

section Next

variable {e : QueueEntry} {rest : Queue QueueEntry} (h : s.Frontier g w fun _ => False)
  (hpop : s.queue.pop? QueueEntry.before = some (e, rest))
include h hpop

/-- Nothing is missing when an outdated state is dropped. -/
theorem frontier_of_outdated (hout : g.isOutdated { s with queue := rest } e = true) :
    ({ s with queue := rest } : Search).Frontier g w fun _ => False :=
  (h.pop hpop).mono fun _ ht => absurd ht.2 (isOutdated_iff.1 hout)

/-- Nothing is missing after a state has been explored. -/
theorem frontier_of_expand (htraced : s.Traced g w)
    (hfresh : ¬g.isOutdated { s with queue := rest } e = true)
    (hfinish : (e.state.x, e.state.y) ≠ w.finish) :
    (g.expand w e { s with queue := rest }).Frontier g w (fun _ => False) ∧
      (g.expand w e { s with queue := rest }).Traced g w := by
  obtain ⟨htraced', hknown⟩ := htraced.pop hpop
  have hcost := not_not.1 fun hne => hfresh (isOutdated_iff.2 hne)
  exact ⟨((h.pop hpop).mono fun _ ht => .inl ht.1).expand htraced' hknown hcost hfinish,
    traced_expand htraced' hknown hcost⟩

end Next

/-- At the beginning the first cell waits, and nothing else has been reached. -/
theorem frontier_begin (hstart : g.contains w.start.1 w.start.2 = true) :
    (g.begin w).Frontier g w fun _ => False := by
  have h := seeded_begin g w
  have htraced := traced_begin g w
  constructor
  case ordered => exact Queue.ordered_of_forall_eq fun e he => (h.free e he).2
  case cost_lt =>
    intro e he
    rw [(h.free e he).1]
    decide
  case cost_le =>
    intro e he
    rw [(h.free e he).1]
    exact Nat.zero_le _
  case estimate_le =>
    intro e he
    rw [(h.free e he).2]
    exact Nat.zero_le _
  case link_le =>
    intro b t _ hsource
    rw [Search.sourceAt, h.previous_eq, Array.getElem?_replicate] at hsource
    split at hsource <;> exact absurd hsource (by simp)
  case reached =>
    intro t ht hcost
    obtain ⟨d, hd, hindex⟩ := h.unreached _ (stateIndex_lt ht) hcost
    obtain rfl := stateIndex_inj hstart ht hindex
    obtain ⟨e, he, hstate⟩ := h.waiting d hd
    refine .inr (.inl ⟨e, he, hstate, ?_⟩)
    rw [(h.free e he).1, htraced.origin d]

/-- A search that ends without an answer leaves no walk that is not cut off. -/
theorem maxCost_le_spent (h : s.Frontier g w fun _ => False) (htraced : s.Traced g w)
    (hstart : g.contains w.start.1 w.start.2 = true) (hrun : g.run w s = none)
    {states : List GridState} (hwalk : g.IsWalk w states) : maxCost ≤ w.spent states := by
  fun_induction run g w s with
  | case1 s hpop =>
    by_contra hlt
    obtain ⟨e, he, -⟩ := h.exists_waiting_of_isWalk htraced hstart hwalk (not_le.1 hlt)
    have hempty : s.queue.toList = [] := by
      cases hq : s.queue with
      | empty => rfl
      | node =>
        rw [hq] at hpop
        cases hpop
    exact absurd (hempty ▸ he) List.not_mem_nil
  | case2 s e rest hpop s₁ hout ih =>
    exact ih (frontier_of_outdated h hpop hout) (htraced.pop hpop).1 hrun
  | case3 => exact absurd hrun (by simp)
  | case4 s e rest hpop s₁ hfresh hfinish ih =>
    obtain ⟨h', htraced'⟩ := frontier_of_expand h hpop htraced hfresh hfinish
    exact ih h' htraced' hrun

/-- A search that ends in the last cell has reached it as cheaply as any walk can. -/
theorem costAt_le_spent (h : s.Frontier g w fun _ => False) (htraced : s.Traced g w)
    (hstart : g.contains w.start.1 w.start.2 = true) (hrun : g.run w s = some (t, s')) :
    (∃ busy, s'.Frontier g w busy) ∧ s'.costAt (g.stateIndex t) < maxCost ∧
      ∀ states, g.IsWalk w states → s'.costAt (g.stateIndex t) ≤ w.spent states := by
  fun_induction run g w s with
  | case1 => exact absurd hrun (by simp)
  | case2 s e rest hpop s₁ hout ih =>
    exact ih (frontier_of_outdated h hpop hout) (htraced.pop hpop).1 hrun
  | case3 s e rest hpop s₁ hfresh hfinish =>
    obtain ⟨rfl, rfl⟩ := Prod.mk.inj (Option.some.inj hrun)
    have hcost := not_not.1 fun hne => hfresh (isOutdated_iff.2 hne)
    have hmem : e ∈ s.queue.toList := (Queue.mem_pop? _ hpop).2 (.inl rfl)
    have hmax := h.cost_lt e hmem
    rw [hcost]
    refine ⟨⟨_, h.pop hpop⟩, hmax, fun states hwalk => ?_⟩
    by_contra hlt
    -- a state of a cheaper walk would have been taken off the queue before this one
    obtain ⟨u, hu, hle⟩ := h.exists_waiting_of_isWalk htraced hstart hwalk (by omega)
    have hleast := (Queue.Ordered.pop? QueueEntry.estimate_le_of_before
      QueueEntry.estimate_le_of_not_before h.ordered hpop).2 u hu
    have hestimate := h.cost_le e hmem
    simp only at hleast
    omega
  | case4 s e rest hpop s₁ hfresh hfinish ih =>
    obtain ⟨h', htraced'⟩ := frontier_of_expand h hpop htraced hfresh hfinish
    exact ih h' htraced' hrun

/-- The cost of a last cell pays for all links that lead back from there. -/
theorem spent_reverse_le {busy : GridState → Prop} (h : s.Frontier g w busy)
    {states : List GridState}
    (hlinks : (t :: states).IsChain fun u b =>
      g.Step w b u ∧ s.sourceAt (g.stateIndex u) = some b) :
    w.spent (t :: states).reverse ≤ s.costAt (g.stateIndex t) := by
  induction states generalizing t with
  | nil => exact Nat.zero_le _
  | cons b states ih =>
    obtain ⟨⟨hstep, hsource⟩, hlinks⟩ := List.isChain_cons_cons.1 hlinks
    have hrest := ih hlinks
    have hlink := h.link_le b t hstep.inside hsource
    rw [List.reverse_cons] at hrest
    rw [List.reverse_cons, List.reverse_cons, List.append_assoc, List.singleton_append,
      Walk.spent_concat]
    omega

end Grid

end Schematic
