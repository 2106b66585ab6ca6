import Schematic.Circuit.Build

/-!
# What the changes of a circuit under construction do

A circuit under construction is looked at through a few views, each of which
reads one arena or two: the net of a pin, the net in a slot, the place of a pin,
the pin table of a component, the parent and the members of a composable.  For
every change there is one equation for each view it touches; the other views do
not see it.

## Main definitions

* `Build.site?`, `Build.tableOf`, `Build.parentOf?`, `Build.childrenOf` — the
  views that the program itself does not need.
* `Build.attach`, `Build.absorb` — the two changes that put pins on a net.
-/

namespace Schematic

namespace Build

variable {α : Type}

/-! ### Views -/

/-- The component of a pin with the key it has there. -/
def site? (b : Build α) (pin : PinId) : Option (ComponentId × String) :=
  b.pins[pin]?.map fun p => (p.component, p.key)

/-- The pin table of a component, empty when there is no such component. -/
def tableOf (b : Build α) (component : ComponentId) : PinTable :=
  (b.components[component]?.map (·.pins)).getD ∅

/-- Whether a component is a marker of an unconnected pin. -/
def isMarker (b : Build α) (component : ComponentId) : Bool :=
  b.components[component]?.any (·.marker)

/-- Whether a pin is marked as intentionally unconnected. -/
def isNoConnect (b : Build α) (pin : PinId) : Bool := b.pins[pin]?.any (·.noConnect)

/-- The parent that a component or a composable names. -/
def parentOf? (b : Build α) : Child → Option (Option ComposableId)
  | .component id => b.components[id]?.map (·.parent)
  | .composable id => b.composables[id]?.map (·.parent)

/-- The members of a composable, none when there is no such composable. -/
def childrenOf (b : Build α) (composable : ComposableId) : List Child :=
  (b.composables[composable]?.map (·.children)).getD []

/-- The net that a tie brings along: a net itself, or the net a pin is on. -/
def netOfTie? (b : Build α) : Tie → Option NetId
  | .pin pin => b.netOf? pin
  | .net net => some net

/-- Put a pin that is on no net on a net. -/
def attach (b : Build α) (net : NetId) (pin : PinId) : Build α :=
  (b.setNetOf net pin).modifyNet net fun n => { n with pins := n.pins ++ [pin] }

/-- Move the pins of one net to another one and empty its slot. -/
def absorb (b : Build α) (into source : NetId) (retired : Net) : Build α :=
  (retired.pins.foldl (setNetOf · into) (b.retire source)).modifyNet into (·.absorb retired)

/-! ### The views of an entry -/

theorem net?_eq_some {b : Build α} {n : NetId} {net : Net} :
    b.net? n = some net ↔ b.nets[n]? = some (some net) := by
  simp [net?, Option.join_eq_some_iff]

theorem lt_size_of_net? {b : Build α} {n : NetId} {net : Net} (h : b.net? n = some net) :
    n < b.nets.size :=
  (Array.getElem?_eq_some_iff.1 (net?_eq_some.1 h)).1

theorem netOf?_eq_some {b : Build α} {p : PinId} {n : NetId} :
    b.netOf? p = some n ↔ ∃ pin, b.pins[p]? = some pin ∧ pin.net = some n := by
  simp [netOf?, Option.bind_eq_some_iff]

theorem netOf?_of_pin {b : Build α} {p : PinId} {pin : Pin} (h : b.pins[p]? = some pin) :
    b.netOf? p = pin.net := by simp [netOf?, h]

theorem netOf?_of_size_le {b : Build α} {p : PinId} (h : b.pins.size ≤ p) :
    b.netOf? p = none := by simp [netOf?, h]

theorem lt_size_of_netOf? {b : Build α} {p : PinId} {n : NetId} (h : b.netOf? p = some n) :
    p < b.pins.size := by
  obtain ⟨x, hx, -⟩ := netOf?_eq_some.1 h
  exact (Array.getElem?_eq_some_iff.1 hx).1

theorem isMarkerPin_eq (b : Build α) (p : PinId) :
    b.isMarkerPin p = (b.site? p).any fun s => b.isMarker s.1 := by
  simp only [isMarkerPin, site?, isMarker]
  cases b.pins[p]? <;> rfl

/-! ### New entries -/

section Put

variable (b : Build α)

@[simp] theorem addChild_components (parent : Option ComposableId) (child : Child) :
    (b.addChild parent child).components = b.components := by cases parent <;> rfl

@[simp] theorem addChild_pins (parent : Option ComposableId) (child : Child) :
    (b.addChild parent child).pins = b.pins := by cases parent <;> rfl

@[simp] theorem addChild_nets (parent : Option ComposableId) (child : Child) :
    (b.addChild parent child).nets = b.nets := by cases parent <;> rfl

@[simp] theorem addChild_composables_size (parent : Option ComposableId) (child : Child) :
    (b.addChild parent child).composables.size = b.composables.size := by
  cases parent <;> simp [addChild]

@[simp] theorem addChild_parentOf? (parent : Option ComposableId) (child c : Child) :
    (b.addChild parent child).parentOf? c = b.parentOf? c := by
  cases parent with
  | none => rfl
  | some id =>
    cases c with
    | component i => rfl
    | composable i =>
      simp only [addChild, parentOf?, Array.getElem?_modify]
      split <;> simp [Function.comp_def]

theorem addChild_childrenOf {parent : Option ComposableId}
    (known : ∀ p, parent = some p → p < b.composables.size) (child : Child) (i : ComposableId) :
    (b.addChild parent child).childrenOf i =
      if parent = some i then b.childrenOf i ++ [child] else b.childrenOf i := by
  cases parent with
  | none => rfl
  | some id =>
    simp only [addChild, childrenOf, Array.getElem?_modify, Option.some.injEq]
    split
    · next h => subst h; simp [known id rfl]
    · rfl

@[simp] theorem putComponent_components (spec : ComponentSpec α) :
    (b.putComponent spec).components = b.components.push (spec.component b.components.size) := by
  simp [putComponent]

@[simp] theorem putComponent_pins (spec : ComponentSpec α) :
    (b.putComponent spec).pins = b.pins := by simp [putComponent]

@[simp] theorem putComponent_nets (spec : ComponentSpec α) :
    (b.putComponent spec).nets = b.nets := by simp [putComponent]

@[simp] theorem putComponent_composables_size (spec : ComponentSpec α) :
    (b.putComponent spec).composables.size = b.composables.size := by simp [putComponent]

/-- A new component has no pins, as it had none before it was put. -/
@[simp] theorem putComponent_tableOf (spec : ComponentSpec α) (i : ComponentId) :
    (b.putComponent spec).tableOf i = b.tableOf i := by
  simp only [tableOf, putComponent_components, Array.getElem?_push]
  split
  · next h => subst h; simp [ComponentSpec.component]
  · rfl

theorem putComponent_parentOf? (spec : ComponentSpec α) (c : Child) :
    (b.putComponent spec).parentOf? c =
      if c = .component b.components.size then some spec.parent else b.parentOf? c := by
  simp only [putComponent, addChild_parentOf?]
  cases c with
  | composable i => simp [parentOf?]
  | component i =>
    simp only [parentOf?, Array.getElem?_push, Child.component.injEq]
    split <;> rfl

theorem putComponent_childrenOf {spec : ComponentSpec α}
    (known : ∀ p, spec.parent = some p → p < b.composables.size) (i : ComposableId) :
    (b.putComponent spec).childrenOf i =
      if spec.parent = some i then b.childrenOf i ++ [.component b.components.size]
      else b.childrenOf i :=
  addChild_childrenOf { b with components := b.components.push (spec.component _) } known _ i

/-- A new component is no marker. -/
@[simp] theorem putComponent_isMarker (spec : ComponentSpec α) (i : ComponentId) :
    (b.putComponent spec).isMarker i = b.isMarker i := by
  simp only [isMarker, putComponent_components, Array.getElem?_push]
  split
  · next h => subst h; simp [ComponentSpec.component]
  · rfl

variable (name : String) (parent : Option ComposableId) (position : Option (Placement α))

@[simp] theorem putComposable_components :
    (b.putComposable name parent position).components = b.components := by simp [putComposable]

@[simp] theorem putComposable_pins :
    (b.putComposable name parent position).pins = b.pins := by simp [putComposable]

@[simp] theorem putComposable_nets :
    (b.putComposable name parent position).nets = b.nets := by simp [putComposable]

@[simp] theorem putComposable_composables_size :
    (b.putComposable name parent position).composables.size = b.composables.size + 1 := by
  simp [putComposable]

theorem putComposable_parentOf? (c : Child) :
    (b.putComposable name parent position).parentOf? c =
      if c = .composable b.composables.size then some parent else b.parentOf? c := by
  simp only [putComposable, addChild_parentOf?]
  cases c with
  | component i => simp [parentOf?]
  | composable i =>
    simp only [parentOf?, Array.getElem?_push, Child.composable.injEq]
    split <;> rfl

theorem putComposable_childrenOf {parent : Option ComposableId}
    (known : ∀ p, parent = some p → p < b.composables.size) (i : ComposableId) :
    (b.putComposable name parent position).childrenOf i =
      if parent = some i then b.childrenOf i ++ [.composable b.composables.size]
      else b.childrenOf i := by
  have hpush : ∀ c : Composable α, c.children = [] →
      ({ b with composables := b.composables.push c } : Build α).childrenOf i =
        b.childrenOf i := by
    intro c hc
    simp only [childrenOf, Array.getElem?_push]
    split
    · next h => subst h; simp [hc]
    · rfl
  have hknown : ∀ p, parent = some p → p < b.composables.size + 1 :=
    fun p hp => Nat.lt_succ_of_lt (known p hp)
  rw [putComposable, addChild_childrenOf _ (by simpa using hknown), hpush _ rfl]

theorem putNet_net? (name : Option String) (n : NetId) :
    (b.putNet name).net? n =
      if n = b.nets.size then some { id := n, name, pins := [], power := false }
      else b.net? n := by
  simp only [net?, putNet, Array.getElem?_push]
  split
  · next h => subst h; rfl
  · rfl

end Put

/-! ### New pins -/

section Pins

variable (b : Build α)

@[simp] theorem putPin_pins_size (component : ComponentId) (key : String) :
    (b.putPin component key).pins.size = b.pins.size + 1 := by simp [putPin]

theorem putPin_tableOf {component : ComponentId} (known : component < b.components.size)
    (key : String) (i : ComponentId) :
    (b.putPin component key).tableOf i =
      if component = i then (b.tableOf i).push key b.pins.size else b.tableOf i := by
  simp only [tableOf, putPin, Array.getElem?_modify]
  split
  · next h => subst h; simp [known]
  · rfl

theorem putPin_site? (component : ComponentId) (key : String) (p : PinId) :
    (b.putPin component key).site? p =
      if p = b.pins.size then some (component, key) else b.site? p := by
  simp only [site?, putPin, Array.getElem?_push]
  split <;> rfl

@[simp] theorem putPin_parentOf? (component : ComponentId) (key : String) (c : Child) :
    (b.putPin component key).parentOf? c = b.parentOf? c := by
  cases c with
  | composable i => rfl
  | component i =>
    simp only [parentOf?, putPin, Array.getElem?_modify]
    split <;> simp [Function.comp_def]

@[simp] theorem putPin_isMarker (component : ComponentId) (key : String) (i : ComponentId) :
    (b.putPin component key).isMarker i = b.isMarker i := by
  simp only [isMarker, putPin, Array.getElem?_modify]
  split <;> cases b.components[i]? <;> rfl

/-- A new pin is on no net. -/
@[simp] theorem putPin_netOf? (component : ComponentId) (key : String) (p : PinId) :
    (b.putPin component key).netOf? p = b.netOf? p := by
  simp only [netOf?, putPin, Array.getElem?_push]
  split
  · next h => subst h; simp
  · rfl

@[simp] theorem putPin_isNoConnect (component : ComponentId) (key : String) (p : PinId) :
    (b.putPin component key).isNoConnect p = b.isNoConnect p := by
  simp only [isNoConnect, putPin, Array.getElem?_push]
  split
  · next h => subst h; simp
  · rfl

end Pins

/-! ### Changed entries -/

section Change

variable (b : Build α)

@[simp] theorem setMarker_tableOf (component i : ComponentId) :
    (b.setMarker component).tableOf i = b.tableOf i := by
  simp only [tableOf, setMarker, Array.getElem?_modify]
  split <;> simp [Function.comp_def]

@[simp] theorem setMarker_parentOf? (component : ComponentId) (c : Child) :
    (b.setMarker component).parentOf? c = b.parentOf? c := by
  cases c with
  | composable i => rfl
  | component i =>
    simp only [parentOf?, setMarker, Array.getElem?_modify]
    split <;> simp [Function.comp_def]

theorem setMarker_isMarker (component i : ComponentId) :
    (b.setMarker component).isMarker i =
      if component = i then b.components[i]?.isSome else b.isMarker i := by
  simp only [isMarker, setMarker, Array.getElem?_modify]
  split <;> cases b.components[i]? <;> simp

theorem modifyNet_net? (net : NetId) (f : Net → Net) (n : NetId) :
    (b.modifyNet net f).net? n = if net = n then (b.net? n).map f else b.net? n := by
  simp only [net?, modifyNet, Array.getElem?_modify]
  split
  · rcases b.nets[n]? with _ | _ | _ <;> rfl
  · rfl

theorem retire_net? (net n : NetId) :
    (b.retire net).net? n = if net = n then none else b.net? n := by
  simp only [net?, retire, Array.getElem?_setIfInBounds]
  split
  · next h => subst h; split <;> rfl
  · rfl

theorem setNetOf_pins (net : NetId) (pin p : PinId) :
    (b.setNetOf net pin).pins[p]? =
      if pin = p then b.pins[p]?.map fun x => { x with net := some net } else b.pins[p]? := by
  simp only [setNetOf, Array.getElem?_modify]

/-- The pins of a list are all moved, however often they occur in it. -/
theorem foldl_setNetOf_pins (net : NetId) (pins : List PinId) (p : PinId) :
    (pins.foldl (setNetOf · net) b).pins[p]? =
      if p ∈ pins then b.pins[p]?.map fun x => { x with net := some net } else b.pins[p]? := by
  induction pins generalizing b with
  | nil => rfl
  | cons q qs ih =>
    simp only [List.foldl_cons, ih, setNetOf_pins, List.mem_cons]
    by_cases hq : q = p <;> by_cases hp : p ∈ qs <;>
      simp [hq, hp, eq_comm (a := p), Function.comp_def]

theorem foldl_setNetOf (net : NetId) (pins : List PinId) :
    pins.foldl (setNetOf · net) b = { b with pins := (pins.foldl (setNetOf · net) b).pins } := by
  induction pins generalizing b with
  | nil => rfl
  | cons q qs ih => exact ih (b.setNetOf net q)

@[simp] theorem foldl_setNetOf_net? (net : NetId) (pins : List PinId) (n : NetId) :
    (pins.foldl (setNetOf · net) b).net? n = b.net? n := by
  rw [foldl_setNetOf]
  rfl

theorem setNoConnect_pins (pin p : PinId) :
    (b.setNoConnect pin).pins[p]? =
      if pin = p then b.pins[p]?.map fun x => { x with noConnect := true } else b.pins[p]? := by
  simp only [setNoConnect, Array.getElem?_modify]

@[simp] theorem setNoConnect_site? (pin p : PinId) :
    (b.setNoConnect pin).site? p = b.site? p := by
  simp only [site?, setNoConnect_pins]
  split <;> simp [Function.comp_def]

@[simp] theorem setNoConnect_isMarkerPin (pin p : PinId) :
    (b.setNoConnect pin).isMarkerPin p = b.isMarkerPin p := by
  rw [isMarkerPin_eq, isMarkerPin_eq, setNoConnect_site?]
  rfl

@[simp] theorem setNoConnect_netOf? (pin p : PinId) :
    (b.setNoConnect pin).netOf? p = b.netOf? p := by
  simp only [netOf?, setNoConnect_pins]
  split <;> cases b.pins[p]? <;> rfl

theorem setNoConnect_isNoConnect (pin p : PinId) :
    (b.setNoConnect pin).isNoConnect p =
      if pin = p then b.pins[p]?.isSome else b.isNoConnect p := by
  simp only [isNoConnect, setNoConnect_pins]
  split <;> cases b.pins[p]? <;> simp

@[simp] theorem setPort_parentOf? (composable : ComposableId) (name : String) (net : NetId)
    (c : Child) : (b.setPort composable name net).parentOf? c = b.parentOf? c := by
  cases c with
  | component i => rfl
  | composable i =>
    simp only [parentOf?, setPort, Array.getElem?_modify]
    split <;> simp [Function.comp_def]

@[simp] theorem setPort_childrenOf (composable : ComposableId) (name : String) (net : NetId)
    (i : ComposableId) : (b.setPort composable name net).childrenOf i = b.childrenOf i := by
  simp only [childrenOf, setPort, Array.getElem?_modify]
  split <;> simp [Function.comp_def]

@[simp] theorem setInterface_parentOf? (composable : ComposableId) (x : Interface) (c : Child) :
    (b.setInterface composable x).parentOf? c = b.parentOf? c := by
  cases c with
  | component i => rfl
  | composable i =>
    simp only [parentOf?, setInterface, Array.getElem?_modify]
    split <;> simp [Function.comp_def]

@[simp] theorem setInterface_childrenOf (composable : ComposableId) (x : Interface)
    (i : ComposableId) : (b.setInterface composable x).childrenOf i = b.childrenOf i := by
  simp only [childrenOf, setInterface, Array.getElem?_modify]
  split <;> simp [Function.comp_def]

end Change

/-! ### Pins on nets -/

section Nets

variable (b : Build α)

theorem attach_net? (net : NetId) (pin : PinId) (n : NetId) :
    (b.attach net pin).net? n =
      if net = n then (b.net? n).map fun x => { x with pins := x.pins ++ [pin] }
      else b.net? n := modifyNet_net? ..

@[simp] theorem attach_pins_size (net : NetId) (pin : PinId) :
    (b.attach net pin).pins.size = b.pins.size := by simp [attach, modifyNet, setNetOf]

@[simp] theorem attach_nets_size (net : NetId) (pin : PinId) :
    (b.attach net pin).nets.size = b.nets.size := by simp [attach, modifyNet, setNetOf]

theorem attach_pins (net : NetId) (pin p : PinId) :
    (b.attach net pin).pins[p]? =
      if pin = p then b.pins[p]?.map fun x => { x with net := some net } else b.pins[p]? :=
  setNetOf_pins ..

theorem attach_netOf? (net : NetId) (pin p : PinId) :
    (b.attach net pin).netOf? p =
      if pin = p then b.pins[p]?.map fun _ => net else b.netOf? p := by
  simp only [netOf?, attach_pins]
  split <;> cases b.pins[p]? <;> rfl

@[simp] theorem attach_site? (net : NetId) (pin p : PinId) :
    (b.attach net pin).site? p = b.site? p := by
  simp only [site?, attach_pins]
  split <;> simp [Function.comp_def]

@[simp] theorem attach_isNoConnect (net : NetId) (pin p : PinId) :
    (b.attach net pin).isNoConnect p = b.isNoConnect p := by
  simp only [isNoConnect, attach_pins]
  split <;> cases b.pins[p]? <;> rfl

@[simp] theorem attach_isMarkerPin (net : NetId) (pin p : PinId) :
    (b.attach net pin).isMarkerPin p = b.isMarkerPin p := by
  rw [isMarkerPin_eq, isMarkerPin_eq, attach_site?]
  rfl

theorem absorb_eq (into source : NetId) (retired : Net) :
    b.absorb into source retired =
      { (b.retire source).modifyNet into (·.absorb retired) with
        pins := (retired.pins.foldl (setNetOf · into) (b.retire source)).pins } := by
  rw [absorb, foldl_setNetOf]
  rfl

@[simp] theorem absorb_components (into source : NetId) (retired : Net) :
    (b.absorb into source retired).components = b.components := by rw [absorb_eq]; rfl

@[simp] theorem absorb_composables (into source : NetId) (retired : Net) :
    (b.absorb into source retired).composables = b.composables := by rw [absorb_eq]; rfl

theorem absorb_net? {into source : NetId} (h : into ≠ source) (retired : Net) (n : NetId) :
    (b.absorb into source retired).net? n =
      if source = n then none
      else if into = n then (b.net? n).map (·.absorb retired) else b.net? n := by
  rw [absorb, modifyNet_net?, foldl_setNetOf_net?, retire_net?]
  by_cases hs : source = n
  · subst hs; simp [h]
  · simp [hs]

@[simp] theorem absorb_pins_size (into source : NetId) (retired : Net) :
    (b.absorb into source retired).pins.size = b.pins.size := by
  have h : ∀ (ps : List PinId) (c : Build α),
      (ps.foldl (setNetOf · into) c).pins.size = c.pins.size := by
    intro ps
    induction ps with
    | nil => exact fun _ => rfl
    | cons p ps ih => exact fun c => (ih _).trans (by simp [setNetOf])
  rw [absorb_eq]
  exact h retired.pins (b.retire source)

@[simp] theorem absorb_nets_size (into source : NetId) (retired : Net) :
    (b.absorb into source retired).nets.size = b.nets.size := by
  simp [absorb_eq, modifyNet, retire]

theorem absorb_pins (into source : NetId) (retired : Net) (p : PinId) :
    (b.absorb into source retired).pins[p]? =
      if p ∈ retired.pins then b.pins[p]?.map fun x => { x with net := some into }
      else b.pins[p]? := by
  rw [absorb_eq]
  exact foldl_setNetOf_pins (b.retire source) into retired.pins p

theorem absorb_netOf? (into source : NetId) (retired : Net) (p : PinId) :
    (b.absorb into source retired).netOf? p =
      if p ∈ retired.pins then b.pins[p]?.map fun _ => into else b.netOf? p := by
  simp only [netOf?, absorb_pins]
  split <;> cases b.pins[p]? <;> rfl

@[simp] theorem absorb_site? (into source : NetId) (retired : Net) (p : PinId) :
    (b.absorb into source retired).site? p = b.site? p := by
  simp only [site?, absorb_pins]
  split <;> simp [Function.comp_def]

@[simp] theorem absorb_isMarkerPin (into source : NetId) (retired : Net) (p : PinId) :
    (b.absorb into source retired).isMarkerPin p = b.isMarkerPin p := by
  simp only [isMarkerPin_eq, absorb_site?, isMarker, absorb_components]

@[simp] theorem absorb_isNoConnect (into source : NetId) (retired : Net) (p : PinId) :
    (b.absorb into source retired).isNoConnect p = b.isNoConnect p := by
  simp only [isNoConnect, absorb_pins]
  split <;> cases b.pins[p]? <;> rfl

end Nets

end Build

end Schematic
