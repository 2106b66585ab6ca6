import Schematic.Proofs.Circuit.WellFormed

/-!
# Well-formed netlists

A netlist looks like a circuit under construction that has retired no net, and
keeps to the same rules.  Its queries follow numbers from entry to entry; here
each of them has a strict twin that answers nothing as soon as a number stands
for no entry.  In a well-formed netlist the two never differ, so that no query
about an entry that exists ever looks up one that does not.

## Main definitions

* `Netlist.asBuild` — a netlist as a circuit under construction.
* `Netlist.WellFormed` — all that a netlist keeps to.
* `Netlist.Strict` — the strict queries.
* `Netlist.Answers` — the strict queries answer what the others do.

## Main statements

* `Netlist.WellFormed.answers` — a well-formed netlist answers every query.
-/

namespace Schematic

/-- The nets that a composable stores: those of its ports, and those of its interface once
that has been asked for. -/
def Composable.storedNets {α : Type} (c : Composable α) : List NetId :=
  c.ports.entries.map Prod.snd ++
    (c.interface.map fun i => i.ports.map Prod.snd ++ i.bridged).getD []

namespace Netlist

variable {α : Type}

/-! ### Netlists as circuits -/

/-- A netlist as a circuit under construction, all of whose nets are live. -/
def asBuild (n : Netlist α) : Build α :=
  { name := n.name
    components := n.components
    pins := n.pins
    nets := n.nets.map some
    composables := n.composables }

theorem asBuild_net? (n : Netlist α) (net : NetId) : n.asBuild.net? net = n.nets[net]? := by
  simp only [Build.net?, asBuild, Array.getElem?_map]
  cases n.nets[net]? <;> rfl

/-- All that a netlist keeps to. -/
structure WellFormed (n : Netlist α) : Prop where
  /-- Its entries agree as those of a circuit under construction do. -/
  circuit : n.asBuild.WellFormed
  /-- The nets that composables store exist. -/
  stored : ∀ c ∈ n.composables, ∀ net ∈ c.storedNets, net < n.nets.size

section InRange

variable {n : Netlist α} (h : n.WellFormed)
include h

theorem WellFormed.pin_lt {net : NetId} {x : Net} (hx : n.nets[net]? = some x) {p : PinId}
    (hp : p ∈ x.pins) : p < n.pins.size :=
  h.circuit.inRange.pin net x ((n.asBuild_net? net).trans hx) p hp

theorem WellFormed.component_lt {p : PinId} {x : Pin} (hx : n.pins[p]? = some x) :
    x.component < n.components.size := by
  refine h.circuit.inRange.component p x.component x.key ?_
  change n.pins[p]?.map (fun x => (x.component, x.key)) = _
  rw [hx]
  rfl

theorem WellFormed.key_lt {i : ComponentId} {c : Component α} (hc : n.components[i]? = some c)
    {p : PinId} (hp : p ∈ c.pins.ids) : p < n.pins.size := by
  refine h.circuit.inRange.id i p ?_
  change p ∈ ((n.components[i]?.map Component.pins).getD ∅).ids
  rw [hc]
  exact hp

theorem WellFormed.parent_lt {i : ComponentId} {c : Component α} (hc : n.components[i]? = some c)
    {j : ComposableId} (hj : c.parent = some j) : j < n.composables.size := by
  refine h.circuit.inRange.parent (.component i) j ?_
  change n.components[i]?.map _ = _
  rw [hc, Option.map_some, hj]

/-- The composable around a composable exists and has a smaller number. -/
theorem WellFormed.outer_lt {i : ComposableId} {c : Composable α}
    (hc : n.composables[i]? = some c) {j : ComposableId} (hj : c.parent = some j) :
    j < n.composables.size ∧ j < i := by
  have hparent : n.asBuild.parentOf? (.composable i) = some (some j) := by
    change n.composables[i]?.map _ = _
    rw [hc, Option.map_some, hj]
  exact ⟨h.circuit.inRange.parent _ j hparent, h.circuit.forest.lt i j hparent⟩

theorem WellFormed.owner?_isSome {p : PinId} (hp : p < n.pins.size) :
    ∃ c, n.owner? p = some c := by
  obtain ⟨x, hx⟩ : ∃ x, n.pins[p]? = some x := ⟨_, Array.getElem?_eq_getElem hp⟩
  have hc := h.component_lt hx
  exact ⟨n.components[x.component], by simp [owner?, hx, hc]⟩

end InRange

/-! ### Strict queries -/

namespace Strict

/-- The pins of a net, each with whether it belongs to a marker. -/
def markedPins (n : Netlist α) (net : NetId) : Option (List (PinId × Bool)) := do
  let x ← n.nets[net]?
  x.pins.mapM fun p => (n.owner? p).map fun c => (p, c.marker)

/-- The pins of a net that belong to no marker. -/
def functionalPins (n : Netlist α) (net : NetId) : Option (List PinId) := do
  let pins ← markedPins n net
  some ((pins.filter fun p => !p.2).map Prod.fst)

/-- The name shown for a net. -/
def netName (n : Netlist α) (net : NetId) : Option String := do
  let x ← n.nets[net]?
  let pins ← markedPins n net
  match x.name, pins.find? fun p => !p.2 with
  | some name, _ => some name
  | none, some (first, _) => do
      let p ← n.pins[first]?
      let c ← n.components[p.component]?
      let kind := if pins.any Prod.snd then "unconnected" else "Net"
      some (kind ++ "-(" ++ c.reference ++ "-Pad" ++ p.key ++ ")")
  | none, none => some ("Net-" ++ toString net)

/-- A pin in a message. -/
def pinLabel (n : Netlist α) (pin : PinId) : Option String := do
  let p ← n.pins[pin]?
  let c ← n.components[p.component]?
  some (c.reference ++ "." ++ p.key)

/-- How many different nets the pins of a component are on. -/
def connectedNetCount (n : Netlist α) (id : ComponentId) : Option Nat := do
  let c ← n.components[id]?
  let pins ← c.pins.ids.mapM (n.pins[·]?)
  some (pins.filterMap (·.net)).eraseDups.length

/-- The chain of composables outward from one; none also when the steps do not suffice. -/
def ancestorsFrom (n : Netlist α) :
    Nat → List ComposableId → Option ComposableId → Option (List ComposableId)
  | _, seen, none => some seen.reverse
  | 0, _, some _ => none
  | fuel + 1, seen, some id =>
      if seen.contains id then some seen.reverse
      else do
        let c ← n.composables[id]?
        ancestorsFrom n fuel (id :: seen) c.parent

/-- The composables around something with the given parent, innermost first. -/
def ancestors (n : Netlist α) (parent : Option ComposableId) : Option (List ComposableId) :=
  ancestorsFrom n (n.composables.size + 1) [] parent

variable [Scalar α]

/-- The frame of a composable on the sheet. -/
def composableFrame (n : Netlist α) (id : ComposableId) : Option (Placement α) := do
  let chain ← ancestors n (some id)
  let around ← chain.mapM (n.composables[·]?)
  some (around.reverse.foldl (fun frame c => frame.compose (c.position.getD .origin)) .origin)

/-- Where a component lies on the sheet, once it has a position. -/
def absolute (n : Netlist α) (id : ComponentId) : Option (Option (Placement α)) := do
  let c ← n.components[id]?
  match c.position, c.parent with
  | none, _ => some none
  | some position, none => some (some (Placement.origin.compose position))
  | some position, some parent => do
      let frame ← composableFrame n parent
      some (some (frame.compose position))

end Strict

/-- Every query about entries that exist looks up none but entries that exist. -/
structure Answers [Scalar α] (n : Netlist α) : Prop where
  /-- The name of a net. -/
  netName : ∀ net < n.nets.size, Strict.netName n net = some (n.netName net)
  /-- The functional pins of a net. -/
  functionalPins : ∀ net < n.nets.size,
    Strict.functionalPins n net = some (n.functionalPins net)
  /-- The label of a pin. -/
  pinLabel : ∀ pin < n.pins.size, Strict.pinLabel n pin = some (n.pinLabel pin)
  /-- The number of nets of a component. -/
  connectedNetCount : ∀ id < n.components.size,
    Strict.connectedNetCount n id = some (n.connectedNetCount id)
  /-- The composables around something. -/
  ancestors : ∀ parent : Option ComposableId, (∀ id ∈ parent, id < n.composables.size) →
    Strict.ancestors n parent = some (n.ancestors parent)
  /-- The placement of a component on the sheet. -/
  absolute : ∀ id < n.components.size, Strict.absolute n id = some (n.absolute? id)

/-! ### In well-formed netlists -/

/-- Where every look-up finds something, all of them together do. -/
theorem exists_mapM {β γ : Type} {f : β → Option γ} {xs : List β}
    (h : ∀ x ∈ xs, ∃ y, f x = some y) :
    ∃ ys, xs.mapM f = some ys ∧ xs.map f = ys.map some := by
  induction xs with
  | nil => exact ⟨[], rfl, rfl⟩
  | cons x xs ih =>
    obtain ⟨y, hy⟩ := h x List.mem_cons_self
    obtain ⟨ys, hys, hmap⟩ := ih fun z hz => h z (List.mem_cons_of_mem _ hz)
    refine ⟨y :: ys, ?_, by rw [List.map_cons, List.map_cons, hy, hmap]⟩
    rw [List.mapM_cons, hy, hys]
    rfl

section Answers

variable {n : Netlist α} (h : n.WellFormed)
include h

theorem WellFormed.markedPins_eq {net : NetId} {x : Net} (hx : n.nets[net]? = some x) :
    Strict.markedPins n net = some (x.pins.map fun p => (p, n.isMarkerPin p)) := by
  simp only [Strict.markedPins, hx, Option.bind_eq_bind, Option.bind_some]
  have hmarked : ∀ p ∈ x.pins,
      (n.owner? p).map (fun c => (p, c.marker)) = some (p, n.isMarkerPin p) := by
    intro p hp
    obtain ⟨c, hc⟩ := h.owner?_isSome (h.pin_lt hx hp)
    rw [isMarkerPin, hc]
    rfl
  obtain ⟨ys, hys, hmap⟩ := exists_mapM fun p hp => ⟨_, hmarked p hp⟩
  rw [hys]
  refine congrArg some (List.map_injective_iff.2 (fun _ _ => Option.some.inj) ?_)
  rw [← hmap, List.map_map]
  exact List.map_congr_left hmarked

theorem WellFormed.functionalPins_eq {net : NetId} {x : Net} (hx : n.nets[net]? = some x) :
    Strict.functionalPins n net = some (n.functionalPins net) := by
  rw [Strict.functionalPins, h.markedPins_eq hx, functionalPins, netPins, hx]
  simp [List.filter_map, Function.comp_def]

theorem WellFormed.netName_eq {net : NetId} {x : Net} (hx : n.nets[net]? = some x) :
    Strict.netName n net = some (n.netName net) := by
  simp only [Strict.netName, netName, h.markedPins_eq hx, hx, Option.bind_eq_bind,
    Option.bind_some]
  cases x.name with
  | some name => rfl
  | none =>
    have hfunctional : n.functionalPins net = x.pins.filter fun p => !n.isMarkerPin p := by
      rw [functionalPins, netPins, hx]
      rfl
    have hmarked : n.isNoConnectNet net = x.pins.any n.isMarkerPin := by
      rw [isNoConnectNet, netPins, hx]
      rfl
    rw [hfunctional, hmarked, List.head?_filter, List.find?_map]
    simp only [Function.comp_def, List.any_map]
    cases hfirst : x.pins.find? fun p => !n.isMarkerPin p with
    | none => rfl
    | some first =>
      have hlt := h.pin_lt hx (List.mem_of_find?_eq_some hfirst)
      obtain ⟨p, hp⟩ : ∃ p, n.pins[first]? = some p := ⟨_, Array.getElem?_eq_getElem hlt⟩
      have hc := h.component_lt hp
      simp [hp, hc, referenceOf]

theorem WellFormed.pinLabel_eq {pin : PinId} (hpin : pin < n.pins.size) :
    Strict.pinLabel n pin = some (n.pinLabel pin) := by
  obtain ⟨p, hp⟩ : ∃ p, n.pins[pin]? = some p := ⟨_, Array.getElem?_eq_getElem hpin⟩
  have hc := h.component_lt hp
  simp [Strict.pinLabel, pinLabel, referenceOf, hp, hc]

theorem WellFormed.connectedNetCount_eq {id : ComponentId} (hid : id < n.components.size) :
    Strict.connectedNetCount n id = some (n.connectedNetCount id) := by
  obtain ⟨c, hc⟩ : ∃ c, n.components[id]? = some c := ⟨_, Array.getElem?_eq_getElem hid⟩
  obtain ⟨pins, hpins, hmap⟩ := exists_mapM (f := (n.pins[·]?)) fun p hp =>
    ⟨_, Array.getElem?_eq_getElem (h.key_lt hc hp)⟩
  have hnets : n.netsOfPins c = pins.filterMap (·.net) := by
    calc n.netsOfPins c
        = (c.pins.ids.map (n.pins[·]?)).filterMap fun x => x.bind (·.net) := by
          rw [List.filterMap_map]
          rfl
      _ = pins.filterMap (·.net) := by
          rw [hmap, List.filterMap_map]
          rfl
  simp [Strict.connectedNetCount, connectedNetCount, hc, hpins, hnets]

theorem WellFormed.ancestorsFrom_eq {parent : Option ComposableId} {fuel : Nat}
    (hparent : ∀ id ∈ parent, id < n.composables.size) (hfuel : ∀ id ∈ parent, id < fuel)
    (seen : List ComposableId) :
    Strict.ancestorsFrom n fuel seen parent = some (n.ancestorsFrom fuel seen parent) := by
  -- every composable lies in one with a smaller number, so that the steps suffice
  induction fuel generalizing parent seen with
  | zero =>
    cases parent with
    | none => rfl
    | some id => exact absurd (hfuel id rfl) (Nat.not_lt_zero _)
  | succ fuel ih =>
    cases parent with
    | none => rfl
    | some id =>
      obtain ⟨c, hc⟩ : ∃ c, n.composables[id]? = some c :=
        ⟨_, Array.getElem?_eq_getElem (hparent id rfl)⟩
      rw [Strict.ancestorsFrom, ancestorsFrom, hc]
      split
      · rfl
      · refine ih (fun j hj => (h.outer_lt hc hj).1) (fun j hj => ?_) _
        exact Nat.lt_of_lt_of_le (h.outer_lt hc hj).2 (Nat.le_of_lt_succ (hfuel id rfl))

theorem WellFormed.mem_ancestorsFrom_lt {parent : Option ComposableId} {fuel : Nat}
    {seen : List ComposableId} (hparent : ∀ id ∈ parent, id < n.composables.size)
    (hseen : ∀ id ∈ seen, id < n.composables.size) :
    ∀ id ∈ n.ancestorsFrom fuel seen parent, id < n.composables.size := by
  induction fuel generalizing parent seen with
  | zero => simpa [ancestorsFrom] using hseen
  | succ fuel ih =>
    cases parent with
    | none => simpa [ancestorsFrom] using hseen
    | some id =>
      obtain ⟨c, hc⟩ : ∃ c, n.composables[id]? = some c :=
        ⟨_, Array.getElem?_eq_getElem (hparent id rfl)⟩
      rw [ancestorsFrom, hc]
      split
      · simpa using hseen
      · refine ih (fun j hj => (h.outer_lt hc hj).1) fun j hj => ?_
        rcases List.mem_cons.1 hj with rfl | hj
        · exact hparent _ rfl
        · exact hseen j hj

theorem WellFormed.ancestors_eq {parent : Option ComposableId}
    (hparent : ∀ id ∈ parent, id < n.composables.size) :
    Strict.ancestors n parent = some (n.ancestors parent) :=
  h.ancestorsFrom_eq hparent (fun id hid => Nat.lt_succ_of_lt (hparent id hid)) []

variable [Scalar α]

theorem WellFormed.composableFrame_eq {id : ComposableId} (hid : id < n.composables.size) :
    Strict.composableFrame n id = some (n.composableFrame id) := by
  have hparent : ∀ i ∈ some id, i < n.composables.size := by
    rintro _ ⟨⟩
    exact hid
  have hchain : ∀ i ∈ n.ancestors (some id), i < n.composables.size :=
    h.mem_ancestorsFrom_lt hparent fun _ hi => absurd hi List.not_mem_nil
  obtain ⟨around, haround, hmap⟩ := exists_mapM (f := (n.composables[·]?)) fun i hi =>
    ⟨_, Array.getElem?_eq_getElem (hchain i hi)⟩
  let enter (frame : Placement α) (c : Option (Composable α)) : Placement α :=
    frame.compose ((c.bind (·.position)).getD .origin)
  have hframe : n.composableFrame id =
      around.reverse.foldl (fun frame c => frame.compose (c.position.getD .origin)) .origin := by
    calc n.composableFrame id
        = ((n.ancestors (some id)).map (n.composables[·]?)).reverse.foldl enter .origin := by
          rw [← List.map_reverse, List.foldl_map]
          rfl
      _ = around.reverse.foldl
            (fun frame c => frame.compose (c.position.getD .origin)) .origin := by
          rw [hmap, ← List.map_reverse, List.foldl_map]
          rfl
  rw [Strict.composableFrame, h.ancestors_eq hparent, hframe]
  simp only [Option.bind_eq_bind, Option.bind_some, haround]

theorem WellFormed.absolute_eq {id : ComponentId} (hid : id < n.components.size) :
    Strict.absolute n id = some (n.absolute? id) := by
  obtain ⟨c, hc⟩ : ∃ c, n.components[id]? = some c := ⟨_, Array.getElem?_eq_getElem hid⟩
  simp only [Strict.absolute, absolute?, parentFrame, hc, Option.bind_eq_bind, Option.bind_some]
  cases c.position with
  | none => rfl
  | some position =>
    cases hparent : c.parent with
    | none => rfl
    | some parent =>
      simp only [h.composableFrame_eq (h.parent_lt hc hparent)]
      rfl

/-- A well-formed netlist answers every query about entries that exist without looking up
one that does not. -/
theorem WellFormed.answers : n.Answers where
  netName _ hnet := h.netName_eq (Array.getElem?_eq_getElem hnet)
  functionalPins _ hnet := h.functionalPins_eq (Array.getElem?_eq_getElem hnet)
  pinLabel _ hpin := h.pinLabel_eq hpin
  connectedNetCount _ hid := h.connectedNetCount_eq hid
  ancestors _ hparent := h.ancestors_eq hparent
  absolute _ hid := h.absolute_eq hid

end Answers

end Netlist

end Schematic
