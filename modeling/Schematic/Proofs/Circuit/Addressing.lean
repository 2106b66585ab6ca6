import Schematic.Proofs.Circuit.Declaration
import Schematic.Proofs.Circuit.Connectivity
import Schematic.Proofs.Circuit.NoConnect

/-!
# Pins that a definition addresses

The second half of playing a definition asks for pins by reference and ties them.
Whatever it does, the declared components stay as they are, apart from the pins
they get, and a reference addresses the same key of the same component from the
beginning to the end.

## Main definitions

* `CircuitDef.siteOf?` — the component and the key that a pin reference addresses.
* `CircuitDef.refAt?` — the reference of the pin at a place.
* `Build.Asked` — what asking for the pin at a place does.
* `Build.Connects` — pins, nets, ports and markers are added and nothing else.

## Main statements

* `CircuitDef.resolvePin_ok` — resolving a reference asks for the pin that it addresses.
* `CircuitDef.siteOf?_eq` — a reference addresses the same place throughout.
-/

namespace Schematic

open Relation (ReflTransGen)

variable {α : Type}

/-- The component and the key that a pin reference addresses, the key in the form that the
component keeps it in. -/
def CircuitDef.siteOf? (numbering : PinNumbering) (refs : Names) (b : Build α) (text : String) :
    Option (ComponentId × String) := do
  let r ← PinRef.parse? text
  let i ← refs.lookup r.reference
  let c ← b.components[i]?
  some (i, b.canonicalKey c ((numbering c.symbol r.key).getD r.key))

/-- A component as it is without its pins. -/
def Component.bare (c : Component α) : Component α := { c with pins := ∅ }

namespace Build

variable {a b b' b'' : Build α}

/-! ### Asking for a pin -/

/-- Asking for the pin at a place finds it, or makes it. -/
inductive Asked (b : Build α) (s : ComponentId × String) : PinId → Build α → Prop
  /-- The pin is there. -/
  | found {p : PinId} (site : b.site? p = some s) : Asked b s p b
  /-- There is no such pin yet. -/
  | made (known : s.1 < b.components.size) (new : (b.tableOf s.1).find? s.2 = none) :
      Asked b s b.pins.size (b.putPin s.1 s.2)

theorem asked_of_pin (hpins : b.PinsOwned) {i : ComponentId} {c : Component α} {key : String}
    {p : PinId} (hc : b.components[i]? = some c) (h : pin i key b = .ok p b') :
    b.Asked (i, b.canonicalKey c key) p b' := by
  have htable : b.tableOf i = c.pins := by simp [tableOf, hc]
  obtain ⟨c', hc', hcases⟩ := pin_ok_iff.1 h
  rw [hc] at hc'
  cases hc'
  rcases hcases with ⟨hfind, rfl⟩ | ⟨hfind, rfl, rfl⟩
  · refine .found ((hpins.key_iff i _ p).1 ?_)
    rw [htable]
    exact Table.mem_of_find?_eq_some hfind
  · exact .made (Array.getElem?_eq_some_iff.1 hc).1 (by rw [htable]; exact hfind)

section Asked

variable {s : ComponentId × String} {p : PinId} (h : b.Asked s p b')
include h

theorem Asked.site : b'.site? p = some s := by
  cases h with
  | found site => exact site
  | made known new => rw [putPin_site?, if_pos rfl]

theorem Asked.site?_eq_some {q : PinId} {t : ComponentId × String} :
    b'.site? q = some t ↔ b.site? q = some t ∨ q = p ∧ t = s := by
  cases h with
  | found site =>
    refine ⟨.inl, ?_⟩
    rintro (hq | ⟨rfl, rfl⟩)
    · exact hq
    · exact site
  | made known new =>
    rw [putPin_site?]
    by_cases hq : q = b.pins.size
    · subst hq
      have hnone : b.site? b.pins.size ≠ some t := fun hsome =>
        Nat.lt_irrefl _ (lt_size_of_site? hsome)
      rw [if_pos rfl, Option.some.injEq]
      exact ⟨fun heq => .inr ⟨rfl, heq.symm⟩, fun hor => (hor.resolve_left hnone).2.symm⟩
    · simp [hq]

theorem Asked.sameNets : SameNets b b' := by
  cases h with
  | found site => exact ⟨rfl, fun _ => rfl, fun _ => rfl⟩
  | made known new => exact sameNets_putPin ..

theorem Asked.nets_eq : b'.nets = b.nets := by
  cases h <;> rfl

end Asked

/-! ### Pins keep their places -/

/-- No elementary change moves a pin to another place. -/
theorem site?_of_growth (g : Growth b b') {p : PinId} {s : ComponentId × String}
    (hp : b.site? p = some s) : b'.site? p = some s := by
  cases g with
  | component known => rwa [site?, putComponent_pins]
  | marker bare => exact hp
  | composable known => rwa [site?, putComposable_pins]
  | net => exact hp
  | power => exact hp
  | numbering => exact hp
  | pin known new => rwa [putPin_site?, if_neg (Nat.ne_of_lt (lt_size_of_site? hp))]
  | attach live known free room => rwa [attach_site?]
  | absorb ne live other room => rwa [absorb_site?]
  | noConnect on beside isMarker => rwa [setNoConnect_site?]
  | port live => exact hp
  | interface => exact hp

theorem site?_of_chain (c : ReflTransGen Growth b b') {p : PinId} {s : ComponentId × String}
    (hp : b.site? p = some s) : b'.site? p = some s :=
  growth_chain (P := fun b => b.site? p = some s) (fun _ _ g h => site?_of_growth g h) c hp

/-! ### Connecting pins -/

/-- Pins, nets, ports and markers are added, and nothing else is done. -/
structure Connects (b b' : Build α) : Prop where
  /-- The circuit only grows. -/
  chain : ReflTransGen Growth b b'
  /-- The components stay as they are without their pins, and markers come after them. -/
  components : ∃ ms : List (Component α),
    b'.components.map Component.bare = b.components.map Component.bare ++ ms.toArray ∧
      ∀ m ∈ ms, m.marker = true
  /-- Pin keys are given the same form. -/
  numbering_eq : b'.numbering = b.numbering
  /-- There are composables of the same names. -/
  names_eq : b'.composableNames = b.composableNames

theorem Connects.of_eq (chain : ReflTransGen Growth b b')
    (hcomponents : b'.components.map Component.bare = b.components.map Component.bare)
    (hnumbering : b'.numbering = b.numbering) (hnames : b'.composableNames = b.composableNames) :
    Connects b b' :=
  ⟨chain, ⟨[], by simpa using hcomponents, by simp⟩, hnumbering, hnames⟩

theorem Connects.refl (b : Build α) : Connects b b := .of_eq .refl rfl rfl rfl

theorem Connects.trans (h : Connects b b') (h' : Connects b' b'') : Connects b b'' := by
  obtain ⟨ms, hms, hmarkers⟩ := h.components
  obtain ⟨ms', hms', hmarkers'⟩ := h'.components
  exact {
    chain := h.chain.trans h'.chain
    components := by
      refine ⟨ms ++ ms', by simp [hms', hms], fun m hm => ?_⟩
      exact (List.mem_append.1 hm).elim (hmarkers m) (hmarkers' m)
    numbering_eq := h'.numbering_eq.trans h.numbering_eq
    names_eq := h'.names_eq.trans h.names_eq }

instance : Trans (Connects (α := α)) (Connects (α := α)) (Connects (α := α)) := ⟨.trans⟩

theorem Asked.connects {s : ComponentId × String} {p : PinId} (h : b.Asked s p b') :
    Connects b b' := by
  cases h with
  | found site => exact .refl b
  | made known new =>
    exact .of_eq (.single (.pin known new))
      (map_modify_of_keeps (fun c : Component α => { c with pins := c.pins.push _ _ })
        (fun _ => rfl) _) rfl rfl

theorem Tied.connects {net : NetId} {target : Tie} (t : Tied b net target b') :
    Connects b b' := by
  have chain := growth_of_tied t
  cases t with
  | same live on => exact .refl b
  | attach live known free unmarked room => exact .of_eq chain rfl rfl rfl
  | absorb live on ne unmarked other room =>
    exact .of_eq chain (by rw [absorb_components]) (by rw [absorb_eq]; rfl)
      (by rw [composableNames, absorb_composables, composableNames])

theorem connects_putNet (name : Option String) : Connects b (b.putNet name) :=
  .of_eq (.single .net) rfl rfl rfl

theorem connects_power (net : NetId) (power : Bool) :
    Connects b (b.modifyNet net fun n => { n with power }) := .of_eq (.single .power) rfl rfl rfl

theorem connects_setPort {composable : ComposableId} {name : String} {net : NetId} {n : Net}
    (live : b.net? net = some n) : Connects b (b.setPort composable name net) :=
  .of_eq (.single (.port live)) rfl rfl
    (map_modify_of_keeps (fun c : Composable α => { c with ports := c.ports.insert name net })
      (fun _ => rfl) _)

theorem connects_tiePins {first second : PinId} {net : NetId}
    (h : tiePins first second b = .ok net b') : Connects b b' := by
  cases tiePins_ok h with
  | first on tied => exact tied.connects
  | second free on tied => exact tied.connects
  | fresh new one two => exact ((connects_putNet none).trans one.connects).trans two.connects

/-- The marker of a pin comes after the components there are. -/
theorem connects_withMarker (p : Pin) (reason : Option String) :
    Connects b (b.withMarker p reason) where
  chain := growth_withMarker p reason
  components := by
    rw [withMarker_components, Array.map_push]
    exact ⟨[_], Array.push_eq_append, by simp [Component.bare]⟩
  numbering_eq := rfl
  names_eq := rfl

theorem MarkerTied.connects {target markerPin : PinId} {p : Pin} {net : NetId}
    (h : MarkerTied b target markerPin p net b') : Connects b b' := by
  cases h with
  | beside on tied => exact tied.connects
  | together free tied => exact connects_tiePins tied

theorem connects_markNoConnect {target : PinId} {reason : Option String} {marker : ComponentId}
    (h : markNoConnect target reason b = .ok marker b') : Connects b b' := by
  obtain ⟨p, b₁, net, hp, -, -, rfl, htied⟩ := markNoConnect_ok h
  obtain ⟨htarget, hmarker, hisMarker⟩ := htied.ends hp
  calc Connects b (b.withMarker p reason) := connects_withMarker p reason
    Connects _ b₁ := htied.connects
    Connects _ (b₁.setNoConnect target) :=
      .of_eq (.single (.noConnect htarget hmarker hisMarker)) rfl rfl rfl

/-- A component stays as it is without its pins. -/
theorem Connects.component (h : Connects b b') {i : ComponentId} {c : Component α}
    (hc : b.components[i]? = some c) : ∃ c', b'.components[i]? = some c' ∧ c'.bare = c.bare := by
  obtain ⟨ms, hms, -⟩ := h.components
  have hlt : i < b.components.size := (Array.getElem?_eq_some_iff.1 hc).1
  have hbare : (b'.components.map Component.bare)[i]? = some c.bare := by
    rw [hms, Array.getElem?_append_left (by simpa using hlt), Array.getElem?_map, hc]
    rfl
  rw [Array.getElem?_map] at hbare
  exact Option.map_eq_some_iff.1 hbare

/-- A component that is no marker was there before. -/
theorem Connects.exists_of_unmarked (h : Connects b b') {i : ComponentId} {c' : Component α}
    (hc : b'.components[i]? = some c') (hmarker : c'.marker = false) :
    ∃ c, b.components[i]? = some c ∧ c'.bare = c.bare := by
  obtain ⟨ms, hms, hmarkers⟩ := h.components
  have hbare : (b'.components.map Component.bare)[i]? = some c'.bare := by
    rw [Array.getElem?_map, hc]
    rfl
  rw [hms, Array.getElem?_append] at hbare
  split at hbare
  · rw [Array.getElem?_map] at hbare
    obtain ⟨c, hc, heq⟩ := Option.map_eq_some_iff.1 hbare
    exact ⟨c, hc, heq.symm⟩
  · have htrue := hmarkers _ (List.mem_toArray.1 (Array.mem_of_getElem? hbare))
    rw [show c'.bare.marker = c'.marker from rfl, hmarker] at htrue
    cases htrue

theorem Connects.isMarker_eq (h : Connects b b') {i : ComponentId}
    (hi : i < b.components.size) : b'.isMarker i = b.isMarker i := by
  obtain ⟨c', hc', hbare⟩ := h.component (Array.getElem?_eq_getElem hi)
  have hmarker : c'.marker = b.components[i].marker := by
    simpa [Component.bare] using congrArg Component.marker hbare
  simp [isMarker, hc', hi, hmarker]

end Build

namespace CircuitDef

open Build

variable {numbering : PinNumbering} {refs : Names} {a b b' : Build α} {text : String}

theorem siteOf?_eq_some {s : ComponentId × String} :
    siteOf? numbering refs b text = some s ↔ ∃ r i c, PinRef.parse? text = some r ∧
      refs.lookup r.reference = some i ∧ b.components[i]? = some c ∧
        (i, b.canonicalKey c ((numbering c.symbol r.key).getD r.key)) = s := by
  simp only [siteOf?, Option.bind_eq_bind, Option.bind_eq_some_iff, Option.some.injEq]
  constructor
  · rintro ⟨r, hr, i, hi, c, hc, hs⟩
    exact ⟨r, i, c, hr, hi, hc, hs⟩
  · rintro ⟨r, i, c, hr, hi, hc, hs⟩
    exact ⟨r, hr, i, hi, c, hc, hs⟩

/-- A reference addresses the same place when pins have been connected. -/
theorem siteOf?_eq (hrefs : Refers refs a) (h : Connects a b) :
    siteOf? numbering refs b text = siteOf? numbering refs a text := by
  simp only [siteOf?]
  cases PinRef.parse? text with
  | none => rfl
  | some r =>
    cases hi : refs.lookup r.reference with
    | none => simp [hi]
    | some i =>
      obtain ⟨c, hc, -⟩ := (hrefs _ i).1 hi
      obtain ⟨c', hc', hbare⟩ := h.component hc
      have hsymbol : c'.symbol = c.symbol := by
        simpa [Component.bare] using congrArg Component.symbol hbare
      simp [hi, hc, hc', canonicalKey, hsymbol, h.numbering_eq]

/-- The reference of the pin at a place. -/
def refAt? (a : Build α) (s : ComponentId × String) : Option PinRef :=
  a.components[s.1]?.map fun c => ⟨c.reference, s.2⟩

theorem refAt?_eq_some {s : ComponentId × String} {r : PinRef} :
    refAt? a s = some r ↔ ∃ c, a.components[s.1]? = some c ∧ ⟨c.reference, s.2⟩ = r :=
  Option.map_eq_some_iff

/-- Different places have different references. -/
theorem Refers.eq_of_refAt? (h : Refers refs a) {s t : ComponentId × String} {r : PinRef}
    (hs : refAt? a s = some r) (ht : refAt? a t = some r) : s = t := by
  obtain ⟨c, hc, rfl⟩ := refAt?_eq_some.1 hs
  obtain ⟨d, hd, heq⟩ := refAt?_eq_some.1 ht
  obtain ⟨hreference, hkey⟩ := PinRef.mk.inj heq
  have hindex := (h c.reference s.1).2 ⟨c, hc, rfl⟩
  rw [(h c.reference t.1).2 ⟨d, hd, hreference⟩] at hindex
  exact Prod.ext (Option.some.inj hindex).symm hkey.symm

/-- Every place that is addressed has a reference. -/
theorem exists_refAt? {text : String} {s : ComponentId × String}
    (hs : siteOf? numbering refs a text = some s) : ∃ r, refAt? a s = some r := by
  obtain ⟨ref, i, c, -, -, hc, rfl⟩ := siteOf?_eq_some.1 hs
  exact ⟨_, refAt?_eq_some.2 ⟨c, hc, rfl⟩⟩

/-- Resolving a reference asks for the pin that it addresses. -/
theorem resolvePin_ok (hpins : b.PinsOwned) {p : PinId}
    (h : resolvePin numbering refs text b = .ok p b') :
    ∃ s, siteOf? numbering refs b text = some s ∧ b.Asked s p b' := by
  rw [resolvePin] at h
  cases hr : PinRef.parse? text with
  | none => simp [hr] at h
  | some r =>
    cases hi : refs.lookup r.reference with
    | none => simp [hr, hi] at h
    | some i =>
      simp only [hr, hi, ReplayM.get_bind_apply, ReplayM.ofBuild_ok_iff] at h
      obtain ⟨c, hc, -⟩ := pin_ok_iff.1 h
      refine ⟨_, siteOf?_eq_some.2 ⟨r, i, c, hr, hi, hc, rfl⟩, ?_⟩
      rw [hc] at h
      exact asked_of_pin hpins hc h

end CircuitDef

end Schematic
