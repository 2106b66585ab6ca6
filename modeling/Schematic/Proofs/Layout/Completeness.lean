import Schematic.Circuit.NetlistDocument
import Schematic.Drawing.Generation
import Schematic.Proofs.Circuit.Declaration
import Schematic.Proofs.Layout.Overlap

/-!
# Everything is placed, and nothing else changes

Placing a circuit sets positions one after the other.  None of these steps takes
a position away, touches a marker or changes anything besides.  Every composable
and every connected component has a node, and every other component a place in
the rows, so that all of them come up.  A step may leave out what the author has
placed, which has a position already.

None of this depends on where things are put, so that it holds for any settings
and any coordinates.

## Main definitions

* `Build.MarkersUnplaced` — no marker has a position.
* `Netlist.withoutPositions` — what placing leaves alone.
* `Netlist.Repositioned` — a circuit in which positions have been set.
* `Netlist.Completes` — everything but the markers is placed, and nothing else is
  different.

## Main statements

* `Build.markersUnplaced_run` — markers are made without a position.
* `Netlist.Repositioned.foldl_reaches` — what one step of a loop sets stays set.
* `Netlist.document_withoutPositions` — the netlist document shows no positions.
* `Netlist.place_completes` — what placing and drawing leave of a circuit.
-/

namespace Schematic

variable {α : Type}

/-! ### Markers -/

namespace Build

variable {b b' : Build α}

/-- No marker has a position. -/
def MarkersUnplaced (b : Build α) : Prop :=
  EveryEntry (fun c => c.marker = true → c.position = none) b.components

/-- Every elementary change leaves the markers without positions. -/
theorem MarkersUnplaced.grow (h : b.MarkersUnplaced) (g : Growth b b') : b'.MarkersUnplaced := by
  cases g with
  | @component spec known =>
    rw [MarkersUnplaced, putComponent_components]
    exact EveryEntry.push h fun hmarker => nomatch hmarker
  | @marker id bare unplaced =>
    intro i c hc hmarker
    rw [setMarker, Array.getElem?_modify] at hc
    split at hc
    · next heq =>
      subst heq
      obtain ⟨d, hd, rfl⟩ := Option.map_eq_some_iff.1 hc
      exact unplaced d hd
    · exact h i c hc hmarker
  | composable known =>
    rw [MarkersUnplaced, putComposable_components]
    exact h
  | pin known new => exact EveryEntry.modify h _ fun _ hc => hc
  | absorb ne live other room =>
    rw [MarkersUnplaced, absorb_components]
    exact h
  | _ => exact h

/-- After every run no marker has a position. -/
theorem markersUnplaced_run (name : String) (ops : List (Operation α)) :
    ((new name).run ops).MarkersUnplaced :=
  run_induction (fun _ _ _ h => absurd h (by simp [cleared])) (fun _ _ g h => h.grow g) name ops

end Build

/-- A composable without its position. -/
def Composable.unplaced (c : Composable α) : Composable α := { c with position := none }

namespace Netlist

variable {n m m' : Netlist α}

/-! ### What placing leaves alone -/

/-- A circuit without its positions and without the count of how often they were set. -/
def withoutPositions (n : Netlist α) : Netlist α :=
  { n with
    components := n.components.map (·.unplaced)
    composables := n.composables.map (·.unplaced)
    epoch := 0 }

theorem getElem?_withoutPositions (n : Netlist α) (i : ComponentId) :
    n.withoutPositions.components[i]? = (n.components[i]?).map (·.unplaced) :=
  Array.getElem?_map

theorem isMarkerPin_withoutPositions (n : Netlist α) (pin : PinId) :
    n.withoutPositions.isMarkerPin pin = n.isMarkerPin pin := by
  have howner : n.withoutPositions.owner? pin = (n.owner? pin).map (·.unplaced) := by
    rw [owner?, owner?, Option.map_bind]
    simp only [getElem?_withoutPositions]
    rfl
  rw [isMarkerPin, isMarkerPin, howner, Option.any_map]
  rfl

theorem referenceOf_withoutPositions (n : Netlist α) (p : Pin) :
    n.withoutPositions.referenceOf p = n.referenceOf p := by
  rw [referenceOf, referenceOf, getElem?_withoutPositions, Option.map_map]
  rfl

theorem functionalPins_withoutPositions (n : Netlist α) (net : NetId) :
    n.withoutPositions.functionalPins net = n.functionalPins net := by
  simp only [functionalPins, isMarkerPin_withoutPositions]
  rfl

theorem netName_withoutPositions (n : Netlist α) (net : NetId) :
    n.withoutPositions.netName net = n.netName net := by
  have hmark : n.withoutPositions.isNoConnectNet net = n.isNoConnectNet net :=
    congrArg (n.netPins net).any (funext n.isMarkerPin_withoutPositions)
  simp only [netName, functionalPins_withoutPositions, referenceOf_withoutPositions, hmark]
  rfl

theorem componentRecords_withoutPositions (n : Netlist α) :
    (n.withoutPositions.components.toList.filter fun c => !c.marker).map componentRecord =
      (n.components.toList.filter fun c => !c.marker).map componentRecord := by
  rw [withoutPositions, Array.toList_map, List.filter_map, List.map_map]
  rfl

/-- The netlist document shows no positions. -/
theorem document_withoutPositions (n : Netlist α) : n.withoutPositions.document = n.document := by
  have hnode : n.withoutPositions.nodeRecord = n.nodeRecord := by
    funext pin
    simp only [nodeRecord, referenceOf_withoutPositions]
    rfl
  have hnet : n.withoutPositions.netRecord = n.netRecord := by
    funext code net
    simp only [netRecord, netName_withoutPositions, functionalPins_withoutPositions, hnode]
  have hnets : n.withoutPositions.functionalNets = n.functionalNets := by
    simp only [functionalNets, functionalPins_withoutPositions]
    rfl
  simp only [document, componentRecords_withoutPositions, hnets, hnet]
  rfl

/-! ### Setting positions -/

/-- The component with a number has a position. -/
def HasPosition (n : Netlist α) (i : ComponentId) : Prop :=
  ∃ c, n.components[i]? = some c ∧ c.position.isSome = true

/-- The composable with a number has a position. -/
def ComposableHasPosition (n : Netlist α) (i : ComposableId) : Prop :=
  ∃ c, n.composables[i]? = some c ∧ c.position.isSome = true

/-- A circuit in which positions have been set, none of them that of a marker. -/
structure Repositioned (n m : Netlist α) : Prop where
  /-- Nothing but positions is different. -/
  same : m.withoutPositions = n.withoutPositions
  /-- No component loses its position. -/
  placed : ∀ i, n.HasPosition i → m.HasPosition i
  /-- No composable loses its position. -/
  composablePlaced : ∀ i, n.ComposableHasPosition i → m.ComposableHasPosition i
  /-- Markers are as they were. -/
  marker : ∀ (i : ComponentId) c, m.components[i]? = some c → c.marker = true →
    n.components[i]? = some c

theorem Repositioned.refl (n : Netlist α) : Repositioned n n :=
  ⟨rfl, fun _ h => h, fun _ h => h, fun _ _ h _ => h⟩

theorem Repositioned.trans (h : Repositioned n m) (h' : Repositioned m m') : Repositioned n m' where
  same := h'.same.trans h.same
  placed i hi := h'.placed i (h.placed i hi)
  composablePlaced i hi := h'.composablePlaced i (h.composablePlaced i hi)
  marker i c hc hmarker := h.marker i c (h'.marker i c hc hmarker) hmarker

/-- A component is the same up to its position. -/
theorem Repositioned.unplaced_eq (h : Repositioned n m) (i : ComponentId) :
    (m.components[i]?).map (·.unplaced) = (n.components[i]?).map (·.unplaced) := by
  rw [← getElem?_withoutPositions, ← getElem?_withoutPositions, h.same]

/-- So is a composable. -/
theorem Repositioned.composable_unplaced_eq (h : Repositioned n m) (i : ComposableId) :
    (m.composables[i]?).map (·.unplaced) = (n.composables[i]?).map (·.unplaced) := by
  have hget : ∀ w : Netlist α,
      w.withoutPositions.composables[i]? = (w.composables[i]?).map (·.unplaced) := fun _ =>
    Array.getElem?_map
  rw [← hget, ← hget, h.same]

theorem Repositioned.composables_size (h : Repositioned n m) :
    m.composables.size = n.composables.size := by
  have hsize := congrArg (fun w : Netlist α => w.composables.size) h.same
  simpa only [withoutPositions, Array.size_map] using hsize

theorem flags_of_unplaced_eq {c d : Component α} (h : c.unplaced = d.unplaced) :
    c.marker = d.marker ∧ c.fixed = d.fixed := by
  have hmarker : c.unplaced.marker = d.unplaced.marker := by rw [h]
  have hfixed : c.unplaced.fixed = d.unplaced.fixed := by rw [h]
  exact ⟨hmarker, hfixed⟩

theorem Repositioned.exists_before (h : Repositioned n m) {i : ComponentId} {d : Component α}
    (hd : m.components[i]? = some d) :
    ∃ c, n.components[i]? = some c ∧ c.marker = d.marker ∧ c.fixed = d.fixed := by
  obtain ⟨c, hc, hsame⟩ := exists_component (h.unplaced_eq i).symm hd
  exact ⟨c, hc, flags_of_unplaced_eq hsame⟩

theorem Repositioned.exists_after (h : Repositioned n m) {i : ComponentId} {c : Component α}
    (hc : n.components[i]? = some c) :
    ∃ d, m.components[i]? = some d ∧ d.marker = c.marker ∧ d.fixed = c.fixed := by
  obtain ⟨d, hd, hsame⟩ := exists_component (h.unplaced_eq i) hc
  exact ⟨d, hd, flags_of_unplaced_eq hsame⟩

/-- What was no marker is none. -/
theorem Repositioned.not_marker (h : Repositioned n m) {i : ComponentId} {c : Component α}
    (hc : n.components[i]? = some c) (hmarker : c.marker = false) :
    ∃ d, m.components[i]? = some d ∧ d.marker = false := by
  obtain ⟨d, hd, hsame, -⟩ := h.exists_after hc
  exact ⟨d, hd, hsame.trans hmarker⟩

/-- Placing a component that is no marker sets its position. -/
theorem repositioned_setPosition {id : ComponentId} {c : Component α}
    (hc : n.components[id]? = some c) (hmarker : c.marker = false) (position : Placement α) :
    Repositioned n (n.setPosition id position) ∧ (n.setPosition id position).HasPosition id := by
  have hset : (n.setPosition id position).components[id]? =
      some { c with position := some position } := by
    rw [getElem?_setPosition, if_pos rfl, hc]
    rfl
  refine ⟨⟨?_, fun i hi => ?_, fun i hi => hi, fun i d hd hdmarker => ?_⟩, _, hset, rfl⟩
  · let place : Component α → Component α := fun c => { c with position := some position }
    have hsame : (n.components.modify id place).map Component.unplaced =
        n.components.map Component.unplaced := map_modify_of_keeps place (fun _ => rfl) id
    rw [withoutPositions, withoutPositions, setPosition, hsame]
  · obtain ⟨d, hd, hposition⟩ := hi
    by_cases heq : id = i
    · exact heq ▸ ⟨_, hset, rfl⟩
    · exact ⟨d, by rw [getElem?_setPosition, if_neg heq, hd], hposition⟩
  · by_cases heq : id = i
    · subst heq
      rw [hset] at hd
      cases hd
      exact absurd hdmarker (by simp [hmarker])
    · rwa [getElem?_setPosition, if_neg heq] at hd

/-- Placing a composable sets its position. -/
theorem repositioned_setComposablePosition (n : Netlist α) (id : ComposableId)
    (position : Placement α) :
    Repositioned n (n.setComposablePosition id position) ∧
      (id < n.composables.size →
        (n.setComposablePosition id position).ComposableHasPosition id) := by
  have hset : ∀ c : Composable α, n.composables[id]? = some c →
      (n.setComposablePosition id position).ComposableHasPosition id := by
    intro c hc
    refine ⟨{ c with position := some position }, ?_, rfl⟩
    rw [getElem?_setComposablePosition, if_pos rfl, hc]
    rfl
  refine ⟨⟨?_, fun i hi => hi, fun i hi => ?_, fun i c hc _ => hc⟩, fun hid =>
    hset _ (Array.getElem?_eq_getElem hid)⟩
  · let place : Composable α → Composable α := fun c => { c with position := some position }
    have hsame : (n.composables.modify id place).map Composable.unplaced =
        n.composables.map Composable.unplaced := map_modify_of_keeps place (fun _ => rfl) id
    rw [withoutPositions, withoutPositions, setComposablePosition, hsame]
  · obtain ⟨c, hc, hposition⟩ := hi
    by_cases heq : id = i
    · subst heq
      exact hset c hc
    · exact ⟨c, by rw [getElem?_setComposablePosition, if_neg heq, hc], hposition⟩

/-! ### Loops that set positions -/

section Loop

variable {β : Type} {f : Netlist α → β → Netlist α} {xs : List β}

/-- A loop whose steps set positions sets positions. -/
theorem Repositioned.foldl (h : Repositioned n m)
    (hstep : ∀ x ∈ xs, ∀ m, Repositioned n m → Repositioned m (f m x)) :
    Repositioned m (xs.foldl f m) := by
  induction xs generalizing m with
  | nil => exact .refl m
  | cons x xs ih =>
    obtain ⟨hx, hxs⟩ := List.forall_mem_cons.1 hstep
    exact (hx m h).trans (ih (h.trans (hx m h)) hxs)

/-- What the step for one member brings about holds after the loop, if setting positions
keeps it. -/
theorem Repositioned.foldl_reaches (h : Repositioned n m)
    (hstep : ∀ x ∈ xs, ∀ m, Repositioned n m → Repositioned m (f m x))
    {P : Netlist α → Prop} (hP : ∀ m m', Repositioned m m' → P m → P m') {x : β} (hx : x ∈ xs)
    (hreach : ∀ m, Repositioned n m → P (f m x)) : P (xs.foldl f m) := by
  induction xs generalizing m with
  | nil => cases hx
  | cons y xs ih =>
    obtain ⟨hy, hxs⟩ := List.forall_mem_cons.1 hstep
    have hnext := h.trans (hy m h)
    rcases List.mem_cons.1 hx with rfl | hx
    · exact hP _ _ (hnext.foldl hxs) (hreach m h)
    · exact ih hnext hxs hx

end Loop

/-! ### The steps of placing -/

section Steps

variable [Scalar α] {members : List (Component α)} {t : ClusterTree α}

open ClusterTree

/-- Writing the position of a composable's node sets a position at most. -/
theorem repositioned_applyComposable (t : ClusterTree α) (a : Arrangement α) (m : Netlist α)
    (node : NodeId) : Repositioned m (applyComposable t a m node) := by
  rw [applyComposable]
  split
  · split
    · exact .refl m
    · exact (repositioned_setComposablePosition m _ _).1
  · exact .refl m

/-- After the step for its node a composable has a position. -/
theorem composableHasPosition_applyComposable (hnodes : NodesFit n members t.nodes)
    (h : Repositioned n m) (a : Arrangement α) {i : ComposableId} (hi : i < n.composables.size) :
    (applyComposable t a m (i + 1)).ComposableHasPosition i := by
  have hc : n.composables[i]? = some n.composables[i] := Array.getElem?_eq_getElem hi
  have hnode := hnodes.composable_node hc
  have hkind : t.kind (i + 1) = .composable i := by
    rw [kind_of_node hnode, composableNode, kind_placed]
  rw [applyComposable, hkind]
  dsimp only
  split
  · next hkept =>
    -- the author has placed it
    rw [Bool.and_eq_true, isFixed_of_node hnode (by rw [composableNode, kind_placed]; rfl)] at hkept
    obtain ⟨-, p, hp⟩ := position_of_fixed hkept.1
    exact h.composablePlaced i ⟨_, hc, by rw [hp]; rfl⟩
  · exact (repositioned_setComposablePosition m i _).2 (h.composables_size ▸ hi)

/-- Writing the position of a component's node sets a position at most. -/
theorem repositioned_applyPart (hnodes : NodesFit n members t.nodes)
    (hmembers : ∀ c ∈ members, n.components[c.id]? = some c ∧ c.marker = false)
    (h : Repositioned n m) (pitch : α) (a : Arrangement α) (node : NodeId) :
    Repositioned m (applyPart pitch t a m node) := by
  rw [applyPart]
  split
  · next i hkind =>
    obtain ⟨c, -, hc, rfl, -⟩ := hnodes.of_kind_part hkind
    obtain ⟨d, hd, hmarker⟩ := h.not_marker (hmembers c hc).1 (hmembers c hc).2
    split
    · exact .refl m
    · exact (repositioned_setPosition hd hmarker _).1
  · exact .refl m

/-- After the step for its node a component has a position. -/
theorem hasPosition_applyPart (hnodes : NodesFit n members t.nodes)
    (hmembers : ∀ c ∈ members, n.components[c.id]? = some c ∧ c.marker = false)
    (h : Repositioned n m) (pitch : α) (a : Arrangement α) {u : NodeId} {i : ComponentId}
    (hkind : t.kind u = .part i) : (applyPart pitch t a m u).HasPosition i := by
  obtain ⟨c, cluster, hc, rfl, hnode, -⟩ := hnodes.of_kind_part hkind
  obtain ⟨hcomponent, hmarker⟩ := hmembers c hc
  obtain ⟨d, hd, hdmarker⟩ := h.not_marker hcomponent hmarker
  rw [applyPart, hkind]
  dsimp only
  split
  · next hkept =>
    -- the author has placed it
    rw [Bool.and_eq_true, isFixed_of_node hnode (by rw [partNode, kind_placed]; rfl)] at hkept
    obtain ⟨-, p, hp⟩ := position_of_fixed hkept.1
    exact h.placed _ ⟨c, hcomponent, by rw [hp]; rfl⟩
  · exact (repositioned_setPosition hd hdmarker _).2

/-- Writing an arrangement places the composables and the components of the tree. -/
theorem applyArrangement_reaches (hnodes : NodesFit n members t.nodes)
    (hmembers : ∀ c ∈ members, n.components[c.id]? = some c ∧ c.marker = false)
    (pitch : α) (a : Arrangement α) :
    Repositioned n (n.applyArrangement pitch t a) ∧
      (∀ i < n.composables.size, (n.applyArrangement pitch t a).ComposableHasPosition i) ∧
      ∀ c ∈ members, (n.applyArrangement pitch t a).HasPosition c.id := by
  let framed := (List.range t.size).foldl (applyComposable t a) n
  have hframing : ∀ x ∈ List.range t.size, ∀ m, Repositioned n m →
      Repositioned m (applyComposable t a m x) := fun x _ m _ =>
    repositioned_applyComposable t a m x
  have hframed : Repositioned n framed := (Repositioned.refl n).foldl hframing
  have hputting : ∀ x ∈ List.range t.size, ∀ m, Repositioned n m →
      Repositioned m (applyPart pitch t a m x) := fun x _ m h =>
    repositioned_applyPart hnodes hmembers h pitch a x
  have hput : Repositioned framed (n.applyArrangement pitch t a) := hframed.foldl hputting
  refine ⟨hframed.trans hput, fun i hi => hput.composablePlaced i ?_, fun c hc => ?_⟩
  · exact (Repositioned.refl n).foldl_reaches hframing
      (P := fun m => m.ComposableHasPosition i) (fun m m' h => h.composablePlaced i)
      (List.mem_range.2 (Nat.lt_of_le_of_lt hi hnodes.size)) fun m h =>
        composableHasPosition_applyComposable hnodes h a hi
  · obtain ⟨u, hu⟩ := hnodes.exists_part hc
    obtain ⟨node, hnode, -⟩ := exists_node_of_part hu
    exact hframed.foldl_reaches hputting (P := fun m => m.HasPosition c.id)
      (fun m m' h => h.placed c.id) (List.mem_range.2 (Array.getElem?_eq_some_iff.1 hnode).1)
      fun m h => hasPosition_applyPart hnodes hmembers h pitch a hu

/-- The rows place the components that the author has not placed. -/
theorem placeMechanical_reaches (symbols : SymbolSource α) (config : PlacementConfig α)
    (electrical : List ComponentId) {mechanical : List ComponentId}
    (hmechanical : ∀ i ∈ mechanical, ∃ c, n.components[i]? = some c ∧ c.marker = false) :
    Repositioned n (n.placeMechanical symbols config electrical mechanical) ∧
      ∀ i ∈ n.pending mechanical,
        (n.placeMechanical symbols config electrical mechanical).HasPosition i := by
  have hset : ∀ i ∈ n.pending mechanical, ∀ m, Repositioned n m → ∀ p,
      Repositioned m (m.setPosition i p) ∧ (m.setPosition i p).HasPosition i := by
    intro i hi m h p
    obtain ⟨c, hc, hmarker⟩ := hmechanical i (List.mem_of_mem_filter hi)
    obtain ⟨d, hd, hdmarker⟩ := h.not_marker hc hmarker
    exact repositioned_setPosition hd hdmarker p
  rw [placeMechanical]
  dsimp only
  generalize horigins : gridLayout _ _ config.spacing = origins
  have hlength : (n.pending mechanical).length ≤ origins.length := by
    rw [← horigins, length_gridLayout, List.length_map]
    rfl
  refine ⟨(Repositioned.refl n).foldl ?_, fun i hi => ?_⟩
  · exact fun e he m h => (hset e.1 (List.of_mem_zip he).1 m h _).1
  · obtain ⟨e, he, rfl⟩ := List.mem_map.1 (List.map_fst_zip hlength ▸ hi)
    exact (Repositioned.refl n).foldl_reaches
      (fun e he m h => (hset e.1 (List.of_mem_zip he).1 m h _).1)
      (P := fun m => m.HasPosition e.1) (fun m m' h => h.placed e.1) he
      fun m h => (hset e.1 (List.of_mem_zip he).1 m h _).2

end Steps

/-! ### The placed circuit -/

/-- Everything but the markers is placed, and nothing but positions is different, which the
netlist document does not show. -/
structure Completes [Scalar α] (n m : Netlist α) : Prop where
  /-- Every component but the markers has a position. -/
  placed : ∀ c ∈ m.components, c.marker = false → c.position.isSome = true
  /-- No marker has one. -/
  marker : ∀ c ∈ m.components, c.marker = true → c.position = none
  /-- Every composable has a position. -/
  composable : ∀ c ∈ m.composables, c.position.isSome = true
  /-- Apart from positions the circuit is the same. -/
  same : m.withoutPositions = n.withoutPositions
  /-- So is the text of its document. -/
  text : m.documentText = n.documentText

theorem length_electrical_add_length_mechanical (n : Netlist α) :
    n.electrical.length + n.mechanical.length = n.components.toList.countP fun c => !c.marker := by
  have hsplit := List.length_eq_countP_add_countP n.isElectrical
    (l := (n.components.toList.filter fun c => !c.marker).map (·.id))
  simp only [Bool.not_eq_true, Bool.decide_eq_false, List.countP_eq_length_filter,
    List.length_map] at hsplit
  rw [electrical, mechanical, List.countP_eq_length_filter, hsplit]

/-- The components that are placed in clusters are no markers. -/
theorem unmarked_of_mem_electricalParts
    (hnumbered : ∀ (i : ComponentId) c, n.components[i]? = some c → c.id = i) {c : Component α}
    (hc : c ∈ n.electricalParts) : n.components[c.id]? = some c ∧ c.marker = false := by
  obtain ⟨i, hi, hget⟩ := List.mem_filterMap.1 hc
  obtain ⟨d, hd, hmarker, -⟩ := (mem_unmarked_iff hnumbered _).1 hi
  cases hget.symm.trans hd
  exact ⟨by rwa [hnumbered i c hget], hmarker⟩

variable [Scalar α]

/-- Placing a circuit whose fixed components have positions sets positions, those of all
composables and of all components but the markers. -/
theorem place_reaches (hnumbered : ∀ (i : ComponentId) c, n.components[i]? = some c → c.id = i)
    (hfixed : EveryEntry (fun c => c.fixed = c.position.isSome) n.components)
    (symbols : SymbolSource α) (config : PlacementConfig α) :
    Repositioned n (n.place symbols config).1 ∧
      (∀ i < n.composables.size, (n.place symbols config).1.ComposableHasPosition i) ∧
      ∀ (i : ComponentId) c, n.components[i]? = some c → c.marker = false →
        (n.place symbols config).1.HasPosition i := by
  have hunmarked := fun kind i => mem_unmarked_iff hnumbered kind (i := i)
  let t := ClusterTree.ofMembers n n.electrical
  let arranged := n.applyArrangement config.gridSnap t
    (t.arrange (n.layoutContext symbols config) 0)
  obtain ⟨harranged, hcomposables, hparts⟩ : Repositioned n arranged ∧ _ ∧ _ :=
    applyArrangement_reaches (ClusterTree.nodesFit_ofMembers n n.electrical)
      (fun c hc => unmarked_of_mem_electricalParts hnumbered hc) config.gridSnap _
  have hmechanical : ∀ i ∈ n.mechanical, ∃ c, arranged.components[i]? = some c ∧
      c.marker = false := by
    intro i hi
    obtain ⟨c, hc, hmarker, -⟩ := (hunmarked _ i).1 hi
    exact harranged.not_marker hc hmarker
  obtain ⟨hrows, hpending⟩ :=
    placeMechanical_reaches symbols config n.electrical hmechanical
  refine ⟨harranged.trans hrows, fun i hi => hrows.composablePlaced i (hcomposables i hi), ?_⟩
  intro i c hc hmarker
  cases helectrical : n.isElectrical i with
  | true =>
    have hmem := List.mem_filterMap.2 ⟨i, (hunmarked _ i).2 ⟨c, hc, hmarker, helectrical⟩, hc⟩
    exact hrows.placed i (hnumbered i c hc ▸ hparts c hmem)
  | false =>
    have hmem : i ∈ n.mechanical := (hunmarked _ i).2 ⟨c, hc, hmarker, by simp [helectrical]⟩
    obtain ⟨d, hd, -, hdfixed⟩ := harranged.exists_after hc
    -- what is left out of the rows was placed by the author
    cases hcfixed : c.fixed with
    | true => exact (harranged.trans hrows).placed i ⟨c, hc, hfixed i c hc ▸ hcfixed⟩
    | false =>
      refine hpending i (List.mem_filter.2 ⟨hmem, ?_⟩)
      rw [hd, Option.any_some, hdfixed, hcfixed]
      rfl

/-- Placing a circuit that was handed out completes it. -/
theorem place_completed (hwf : n.WellFormed)
    (hfixed : EveryEntry (fun c => c.fixed = c.position.isSome) n.components)
    (hmarkers : EveryEntry (fun c => c.marker = true → c.position = none) n.components)
    (symbols : SymbolSource α) (config : PlacementConfig α) :
    n.Completes (n.place symbols config).1 := by
  obtain ⟨hplace, hcomposables, hcomponents⟩ :=
    place_reaches hwf.circuit.numbered.component hfixed symbols config
  constructor
  case placed =>
    intro c hc hmarker
    obtain ⟨i, hi⟩ := Array.mem_iff_getElem?.1 hc
    obtain ⟨d, hd, hsame, -⟩ := hplace.exists_before hi
    obtain ⟨e, he, hposition⟩ := hcomponents i d hd (hsame.trans hmarker)
    cases hi.symm.trans he
    exact hposition
  case marker =>
    intro c hc hmarker
    obtain ⟨i, hi⟩ := Array.mem_iff_getElem?.1 hc
    exact hmarkers i c (hplace.marker i c hi hmarker) hmarker
  case composable =>
    intro c hc
    obtain ⟨i, hi⟩ := Array.mem_iff_getElem?.1 hc
    have hlt := hplace.composables_size ▸ (Array.getElem?_eq_some_iff.1 hi).1
    obtain ⟨d, hd, hposition⟩ := hcomposables i hlt
    cases hi.symm.trans hd
    exact hposition
  case same => exact hplace.same
  case text =>
    rw [documentText, documentText, ← document_withoutPositions, hplace.same,
      document_withoutPositions]

/-- Placing and drawing a circuit that was built, by any strategy and with any settings, places
everything but the markers and changes nothing but positions.  What is placed in clusters and
what is placed below them are all components but the markers. -/
theorem place_completes (name : String) (ops : List (Operation α)) (symbols : SymbolSource α)
    (config : Config α) :
    ∃ n b, Build.drain ((Build.new name).run ops) = .ok n b ∧
      n.Completes (n.place symbols config.placement).1 ∧
      (n.place symbols config.placement).2.electrical +
        (n.place symbols config.placement).2.mechanical =
          n.components.toList.countP (fun c => !c.marker) ∧
      n.Completes (n.generate symbols config).netlist := by
  have hcompleted := place_completed (Build.toNetlist_wellFormed (Build.wellFormed_run name ops))
    (Build.fixedPlaced_run name ops).component (Build.markersUnplaced_run name ops) symbols
    config.placement
  exact ⟨_, _, rfl, hcompleted, length_electrical_add_length_mechanical _, hcompleted⟩

end Netlist

end Schematic
