import Schematic.Routing.Obstacles

/-!
# Obstacles keep up with positions

While a circuit is placed, boxes of its components are computed, kept and refreshed
in any order.  Boxes that are not stale are those that would be computed right now,
also after a composable has been moved and the components in it with it: boxes can
only differ when some position has been set since they were computed, and then the
epochs differ too.

Epochs are numbers without a bound.

## Main definitions

* `ObstacleCall`, `Obstructed.call`, `Obstructed.run` — positions that are set, and
  boxes that are computed and refreshed.
* `ObstacleEvent`, `movedSince` — what has happened, and whether anything has been
  moved since some boxes were computed.
* `Obstructed.UpToDate` — what holds of all boxes at any time.

## Main statements

* `Obstructed.tracks_run` — epochs tell what has happened.
* `Obstructed.upToDate_run` — boxes that are not stale are right.
-/

namespace Schematic

/-! ### Calls -/

/-- One call on a circuit and the boxes of its components. -/
inductive ObstacleCall (α : Type) where
  /-- Place a component. -/
  | setPosition (id : ComponentId) (position : Placement α)
  /-- Place a composable. -/
  | setComposablePosition (id : ComposableId) (position : Placement α)
  /-- Compute boxes, next to those that are there. -/
  | build
  /-- Refresh the boxes with a number. -/
  | refresh (map : Nat)

/-- What has come of a call. -/
inductive ObstacleEvent where
  /-- A position has been set. -/
  | moved
  /-- The boxes with a number have been computed. -/
  | built (map : Nat)
  deriving DecidableEq, Repr

/-- Whether a position has been set since some boxes were computed, given what has
happened, the latest first. -/
def movedSince (map : Nat) (events : List ObstacleEvent) : Bool :=
  (events.takeWhile (· ≠ .built map)).contains .moved

@[simp] theorem movedSince_moved (map : Nat) (events : List ObstacleEvent) :
    movedSince map (.moved :: events) = true := by
  simp [movedSince]

@[simp] theorem movedSince_built (map : Nat) (events : List ObstacleEvent) :
    movedSince map (.built map :: events) = false := by
  simp [movedSince]

theorem movedSince_built_of_ne {map other : Nat} (h : map ≠ other)
    (events : List ObstacleEvent) :
    movedSince map (.built other :: events) = movedSince map events := by
  simp [movedSince, Ne.symm h]

/-- A circuit with all the boxes that have been computed for it. -/
structure Obstructed (α : Type) where
  /-- The circuit. -/
  netlist : Netlist α
  /-- The boxes, by number. -/
  maps : List (ObstacleMap α) := []
  /-- What has happened, the latest first. -/
  events : List ObstacleEvent := []

variable {α : Type} [Scalar α]

namespace ObstacleMap

theorem refresh_of_isStale {m : ObstacleMap α} {n : Netlist α} {symbols : SymbolSource α}
    (h : m.isStale n = true) : m.refresh n symbols = ofNetlist n symbols m.padding := if_pos h

theorem refresh_of_not_isStale {m : ObstacleMap α} {n : Netlist α} {symbols : SymbolSource α}
    (h : m.isStale n = false) : m.refresh n symbols = m := by
  rw [refresh, h]
  rfl

end ObstacleMap

namespace Obstructed

open ObstacleMap

variable (symbols : SymbolSource α) (padding : α)

/-- Do what a call asks for; nothing when there are no boxes to refresh. -/
def call (w : Obstructed α) : ObstacleCall α → Obstructed α
  | .setPosition id position =>
      { w with netlist := w.netlist.setPosition id position, events := .moved :: w.events }
  | .setComposablePosition id position =>
      { w with
        netlist := w.netlist.setComposablePosition id position
        events := .moved :: w.events }
  | .build =>
      { w with
        maps := w.maps ++ [ofNetlist w.netlist symbols padding]
        events := .built w.maps.length :: w.events }
  | .refresh i =>
      match w.maps[i]? with
      | none => w
      | some m =>
          let (again, m) := m.update w.netlist symbols
          { w with
            maps := w.maps.set i m
            events := if again then .built i :: w.events else w.events }

/-- Do what some calls ask for, one after the other. -/
def run (w : Obstructed α) (calls : List (ObstacleCall α)) : Obstructed α :=
  calls.foldl (call symbols padding) w

/-! ### What epochs tell -/

/-- The epochs tell of each of the boxes whether something has been moved since they were
computed, and if not, then they are those of the circuit as it is. -/
structure Tracks (w : Obstructed α) : Prop where
  /-- All boxes have the same clearance. -/
  padding_eq : ∀ (i : Nat) (m : ObstacleMap α), w.maps[i]? = some m → m.padding = padding
  /-- They were computed at the epoch of the circuit, or before. -/
  epoch_le : ∀ (i : Nat) (m : ObstacleMap α), w.maps[i]? = some m → m.epoch ≤ w.netlist.epoch
  /-- The epoch is an earlier one when something has been moved since. -/
  isStale_eq : ∀ (i : Nat) (m : ObstacleMap α), w.maps[i]? = some m →
    m.isStale w.netlist = movedSince i w.events
  /-- When nothing has been moved since, they would be the same if they were computed now. -/
  current : ∀ (i : Nat) (m : ObstacleMap α), w.maps[i]? = some m → movedSince i w.events = false →
    m = ofNetlist w.netlist symbols padding

variable {symbols padding} {w : Obstructed α}

/-- All boxes are stale once something has been moved. -/
theorem Tracks.moved (h : w.Tracks symbols padding) {n : Netlist α}
    (hn : n.epoch = w.netlist.epoch + 1) :
    Tracks symbols padding { w with netlist := n, events := .moved :: w.events } where
  padding_eq := h.padding_eq
  epoch_le i m hm := by
    rw [hn]
    exact Nat.le_succ_of_le (h.epoch_le i m hm)
  isStale_eq i m hm := by
    rw [movedSince_moved, isStale, bne_iff_ne, hn]
    exact Nat.ne_of_lt (Nat.lt_succ_of_le (h.epoch_le i m hm))
  current i m _ hmoved := by
    rw [movedSince_moved] at hmoved
    cases hmoved

/-- Some of the boxes are computed, for the first time or again. -/
theorem Tracks.built (h : w.Tracks symbols padding) {maps : List (ObstacleMap α)} {k : Nat}
    (hnew : ∀ m, maps[k]? = some m → m = ofNetlist w.netlist symbols padding)
    (hold : ∀ i, i ≠ k → maps[i]? = w.maps[i]?) :
    Tracks symbols padding { w with maps := maps, events := .built k :: w.events } := by
  constructor
  case padding_eq =>
    intro i m hm
    by_cases hi : i = k
    · rw [hnew m (hi ▸ hm)]
      rfl
    · exact h.padding_eq i m (hold i hi ▸ hm)
  case epoch_le =>
    intro i m hm
    by_cases hi : i = k
    · rw [hnew m (hi ▸ hm)]
      exact Nat.le_refl _
    · exact h.epoch_le i m (hold i hi ▸ hm)
  case isStale_eq =>
    intro i m hm
    by_cases hi : i = k
    · rw [hnew m (hi ▸ hm), hi, movedSince_built]
      exact bne_self_eq_false _
    · rw [movedSince_built_of_ne hi]
      exact h.isStale_eq i m (hold i hi ▸ hm)
  case current =>
    intro i m hm hmoved
    by_cases hi : i = k
    · exact hnew m (hi ▸ hm)
    · rw [movedSince_built_of_ne hi] at hmoved
      exact h.current i m (hold i hi ▸ hm) hmoved

theorem Tracks.call (h : w.Tracks symbols padding) (c : ObstacleCall α) :
    (w.call symbols padding c).Tracks symbols padding := by
  cases c with
  | setPosition id position => exact h.moved rfl
  | setComposablePosition id position => exact h.moved rfl
  | build =>
    refine h.built (fun m hm => ?_) fun i hi => ?_
    · rw [List.getElem?_concat_length] at hm
      exact (Option.some.inj hm).symm
    · rw [List.getElem?_append]
      split
      · rfl
      · next hle =>
        have hlt : 1 ≤ i - w.maps.length := by omega
        rw [List.getElem?_eq_none hlt, List.getElem?_eq_none (Nat.le_of_not_lt hle)]
  | refresh i =>
    rw [Obstructed.call]
    split
    · exact h
    next m hm =>
    obtain ⟨hlt, hget⟩ := List.getElem?_eq_some_iff.1 hm
    by_cases hstale : m.isStale w.netlist = true
    · simp only [update, if_pos hstale, refresh_of_isStale hstale, h.padding_eq i m hm]
      refine h.built (fun m' hm' => ?_) fun j hj => List.getElem?_set_ne (Ne.symm hj)
      rw [List.getElem?_set_self hlt] at hm'
      exact (Option.some.inj hm').symm
    · have hsame : w.maps.set i m = w.maps := hget ▸ List.set_getElem_self hlt
      have hkept : m.refresh w.netlist symbols = m :=
        refresh_of_not_isStale (Bool.eq_false_iff.2 hstale)
      simp only [update, if_neg hstale, hkept, hsame]
      exact h

/-- Whatever is called, epochs tell what has happened. -/
theorem tracks_run (n : Netlist α) (calls : List (ObstacleCall α)) :
    (run symbols padding { netlist := n } calls).Tracks symbols padding := by
  have hcalls : ∀ w : Obstructed α, w.Tracks symbols padding →
      (run symbols padding w calls).Tracks symbols padding := by
    induction calls with
    | nil => exact fun w hw => hw
    | cons c calls ih => exact fun w hw => ih _ (hw.call c)
  exact hcalls _ ⟨nofun, nofun, nofun, nofun⟩

/-! ### Boxes that are right -/

variable (symbols padding)

/-- All boxes are right, or known to be stale: they are those of the same components, in the
same order, that would be computed right now. -/
structure UpToDate (w : Obstructed α) : Prop where
  /-- Boxes that are not stale are those that would be computed now. -/
  fresh : ∀ (i : Nat) (m : ObstacleMap α), w.maps[i]? = some m → m.isStale w.netlist = false →
    m.entries = (ofNetlist w.netlist symbols padding).entries
  /-- So are boxes that are refreshed now, and they are not stale. -/
  refreshed : ∀ (i : Nat) (m : ObstacleMap α), w.maps[i]? = some m →
    (m.update w.netlist symbols).2.entries = (ofNetlist w.netlist symbols padding).entries ∧
      (m.update w.netlist symbols).2.isStale w.netlist = false
  /-- Refreshing computes them again exactly when a position has been set since they were
  computed. -/
  again_iff : ∀ (i : Nat) (m : ObstacleMap α), w.maps[i]? = some m →
    ((m.update w.netlist symbols).1 = true ↔ movedSince i w.events = true)

/-- Boxes of a circuit that are not stale, or that have just been refreshed, are those that would
be computed at that moment, whatever was placed, computed and refreshed before. -/
theorem upToDate_run (n : Netlist α) (calls : List (ObstacleCall α)) :
    (run symbols padding { netlist := n } calls).UpToDate symbols padding := by
  have h : (run symbols padding { netlist := n } calls).Tracks symbols padding :=
    tracks_run n calls
  constructor
  case fresh =>
    intro i m hm hstale
    rw [h.current i m hm ((h.isStale_eq i m hm).symm.trans hstale)]
  case refreshed =>
    intro i m hm
    cases hstale : m.isStale (run symbols padding { netlist := n } calls).netlist with
    | true =>
      rw [update, refresh_of_isStale hstale, h.padding_eq i m hm]
      exact ⟨rfl, bne_self_eq_false _⟩
    | false =>
      rw [update, refresh_of_not_isStale hstale]
      have hcurrent := h.current i m hm ((h.isStale_eq i m hm).symm.trans hstale)
      exact ⟨congrArg entries hcurrent, hstale⟩
  case again_iff =>
    intro i m hm
    rw [update, h.isStale_eq i m hm]

end Obstructed

end Schematic
