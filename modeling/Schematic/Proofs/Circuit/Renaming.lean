import Schematic.Circuit.Connection
import Schematic.Drawing.PowerNet
import Schematic.Proofs.Lists

/-!
# Circuits without names

Names are for readers.  What a circuit says apart from them is the circuit
without names, in which it is written down for each net whether it is a power
net, since this alone is read off a name.  Two circuits that differ in nothing
but names agree without them; and what is computed from a circuit by its
structure is computed from the circuit without names just as well.

## Main definitions

* `Component.unnamed`, `Net.unnamed`, `Composable.unnamed` — entries without names.
* `Netlist.anonymous` — a circuit without names.
* `Netlist.Renames` — circuits that differ in names alone.

## Main statements

* `Netlist.Renames.anonymous_eq` — such circuits agree without names.
* `Netlist.absolute?_anonymous` — places on the sheet do not depend on names.
* `Netlist.setPosition_anonymous` — names can be left out before or after a position is set.
-/

namespace Schematic

variable {α : Type}

/-- A component without the names that are shown for it. -/
def Component.unnamed (c : Component α) : Component α :=
  { c with reference := "", value := none, footprint := none }

/-- A net without its name. -/
def Net.unnamed (e : Net) : Net := { e with name := none }

/-- A composable without names.  Ports are known by their names, so it has none. -/
def Composable.unnamed (c : Composable α) : Composable α :=
  { c with name := "", ports := ∅, interface := none }

namespace Netlist

/-- A circuit without names, in which the power nets are those that they were by name or by
declaration. -/
def anonymous (n : Netlist α) : Netlist α :=
  { n with
    name := ""
    components := n.components.map Component.unnamed
    nets := n.nets.map fun e => { e.unnamed with power := e.power || e.name.any isPowerName }
    composables := n.composables.map Composable.unnamed }

/-- Two circuits differ in names alone, and the same nets are power nets in both. -/
structure Renames (n m : Netlist α) : Prop where
  /-- The components are the same but for their names. -/
  components : n.components.map Component.unnamed = m.components.map Component.unnamed
  /-- The pins are the same. -/
  pins : n.pins = m.pins
  /-- The nets are the same but for their names. -/
  nets : n.nets.map Net.unnamed = m.nets.map Net.unnamed
  /-- The same nets are power nets. -/
  power : ∀ net, n.isPowerNet net = m.isPowerNet net
  /-- The composables are the same but for their names and ports. -/
  composables : n.composables.map Composable.unnamed = m.composables.map Composable.unnamed
  /-- As many positions have been set. -/
  epoch : n.epoch = m.epoch

/-- Circuits that differ in names alone agree without names. -/
theorem Renames.anonymous_eq {n m : Netlist α} (h : n.Renames m) : n.anonymous = m.anonymous := by
  have hnets : n.anonymous.nets = m.anonymous.nets := by
    refine Array.ext_getElem? fun i => ?_
    have hnet := congrArg (·[i]?) h.nets
    have hpower := h.power i
    simp only [anonymous, isPowerNet, Array.getElem?_map] at hnet hpower ⊢
    cases hn : n.nets[i]? <;> cases hm : m.nets[i]? <;>
      simp only [hn, hm, Option.map_none, Option.map_some, Option.some.injEq, Option.any_some,
        reduceCtorEq] at hnet hpower ⊢
    rw [hnet, hpower]
  have hfields : ∀ {a b : Netlist α}, a.name = b.name → a.components = b.components →
      a.pins = b.pins → a.nets = b.nets → a.composables = b.composables → a.epoch = b.epoch →
        a = b := by
    rintro ⟨⟩ ⟨⟩ rfl rfl rfl rfl rfl rfl
    rfl
  exact hfields rfl h.components h.pins hnets h.composables h.epoch

/-! ### The arenas -/

variable (n : Netlist α)

@[simp] theorem pins_anonymous : n.anonymous.pins = n.pins := rfl

@[simp] theorem components_anonymous :
    n.anonymous.components = n.components.map Component.unnamed := rfl

@[simp] theorem composables_anonymous :
    n.anonymous.composables = n.composables.map Composable.unnamed := rfl

@[simp] theorem size_nets_anonymous : n.anonymous.nets.size = n.nets.size := Array.size_map

/-- What is not named of a component is there without names. -/
theorem bind_component_anonymous {β : Type} {f : Component α → Option β}
    (hf : ∀ c, f c.unnamed = f c) (id : ComponentId) :
    n.anonymous.components[id]?.bind f = n.components[id]?.bind f := by
  rw [components_anonymous, Array.getElem?_map, Option.bind_map]
  exact congrArg n.components[id]?.bind (funext hf)

/-- What is not named of a composable is there without names. -/
theorem bind_composable_anonymous {β : Type} {f : Composable α → Option β}
    (hf : ∀ c, f c.unnamed = f c) (id : ComposableId) :
    n.anonymous.composables[id]?.bind f = n.composables[id]?.bind f := by
  rw [composables_anonymous, Array.getElem?_map, Option.bind_map]
  exact congrArg n.composables[id]?.bind (funext hf)

@[simp] theorem netPins_anonymous (net : NetId) : n.anonymous.netPins net = n.netPins net := by
  simp only [netPins, anonymous, Array.getElem?_map, Option.map_map]
  rfl

/-- The same nets are power nets. -/
@[simp] theorem isPowerNet_anonymous (net : NetId) :
    n.anonymous.isPowerNet net = n.isPowerNet net := by
  simp only [isPowerNet, anonymous, Array.getElem?_map, Option.any_map]
  congr 1
  funext e
  simp [Net.unnamed]

/-! ### Pins -/

@[simp] theorem isMarkerPin_anonymous : n.anonymous.isMarkerPin = n.isMarkerPin := by
  funext pin
  have howner : n.anonymous.owner? pin = (n.owner? pin).map Component.unnamed := by
    rw [owner?, owner?, Option.map_bind]
    simp only [components_anonymous, Array.getElem?_map]
    rfl
  rw [isMarkerPin, isMarkerPin, howner, Option.any_map]
  rfl

@[simp] theorem isNoConnectNet_anonymous (net : NetId) :
    n.anonymous.isNoConnectNet net = n.isNoConnectNet net := by
  simp only [isNoConnectNet, netPins_anonymous, isMarkerPin_anonymous]

@[simp] theorem functionalPins_anonymous (net : NetId) :
    n.anonymous.functionalPins net = n.functionalPins net := by
  simp only [functionalPins, netPins_anonymous, isMarkerPin_anonymous]

@[simp] theorem connectedNetCount_anonymous (id : ComponentId) :
    n.anonymous.connectedNetCount id = n.connectedNetCount id := by
  simp only [connectedNetCount, components_anonymous, Array.getElem?_map]
  cases n.components[id]? <;> rfl

@[simp] theorem isElectrical_anonymous : n.anonymous.isElectrical = n.isElectrical := by
  funext id
  simp only [isElectrical, components_anonymous, Array.getElem?_map, Option.any_map]
  rfl

@[simp] theorem connectionGraph_anonymous :
    ConnectionGraph.ofNetlist n.anonymous = ConnectionGraph.ofNetlist n := by
  have hjoined : ConnectionGraph.joined n.anonymous = ConnectionGraph.joined n := by
    funext net
    simp only [ConnectionGraph.joined, functionalPins_anonymous, pins_anonymous]
  simp only [ConnectionGraph.ofNetlist, hjoined, size_nets_anonymous, components_anonymous,
    Array.size_map]

/-! ### Places on the sheet -/

@[simp] theorem ancestors_anonymous (parent : Option ComposableId) :
    n.anonymous.ancestors parent = n.ancestors parent := by
  have hfrom : ∀ fuel seen parent,
      n.anonymous.ancestorsFrom fuel seen parent = n.ancestorsFrom fuel seen parent := by
    intro fuel
    induction fuel with
    | zero => exact fun _ _ => rfl
    | succ fuel ih =>
      rintro seen (_ | id)
      · rfl
      · rw [ancestorsFrom, ancestorsFrom, n.bind_composable_anonymous fun _ => rfl, ih]
  rw [ancestors, ancestors, hfrom, composables_anonymous, Array.size_map]

variable [Scalar α]

@[simp] theorem composableFrame_anonymous (id : ComposableId) :
    n.anonymous.composableFrame id = n.composableFrame id := by
  have hplacement : n.anonymous.composablePlacement = n.composablePlacement := by
    funext id
    rw [composablePlacement, composablePlacement, n.bind_composable_anonymous fun _ => rfl]
  rw [composableFrame, composableFrame, ancestors_anonymous, hplacement]

@[simp] theorem parentFrame_anonymous (id : ComponentId) :
    n.anonymous.parentFrame id = n.parentFrame id := by
  rw [parentFrame, parentFrame, n.bind_component_anonymous fun _ => rfl]
  simp only [composableFrame_anonymous]

/-- A component lies where it lay. -/
@[simp] theorem absolute?_anonymous (id : ComponentId) :
    n.anonymous.absolute? id = n.absolute? id := by
  rw [absolute?, absolute?, parentFrame_anonymous, n.bind_component_anonymous fun _ => rfl]

omit [Scalar α] in
/-- Names can be left out before or after a component is placed. -/
theorem setPosition_anonymous (id : ComponentId) (position : Placement α) :
    (n.setPosition id position).anonymous = n.anonymous.setPosition id position := by
  let move (c : Component α) : Component α := { c with position := some position }
  have hcomponents : (n.components.modify id move).map Component.unnamed =
      (n.components.map Component.unnamed).modify id move := map_modify (fun _ => by rfl) _ _
  exact congrArg (fun components => { n.anonymous with components, epoch := n.epoch + 1 })
    hcomponents

omit [Scalar α] in
/-- Names can be left out before or after a composable is placed. -/
theorem setComposablePosition_anonymous (id : ComposableId) (position : Placement α) :
    (n.setComposablePosition id position).anonymous =
      n.anonymous.setComposablePosition id position := by
  let move (c : Composable α) : Composable α := { c with position := some position }
  have hcomposables : (n.composables.modify id move).map Composable.unnamed =
      (n.composables.map Composable.unnamed).modify id move := map_modify (fun _ => by rfl) _ _
  exact congrArg (fun composables => { n.anonymous with composables, epoch := n.epoch + 1 })
    hcomposables

end Netlist

end Schematic
