import Schematic.Number.Binary64.Coordinate
import Schematic.Proofs.Circuit.Compaction
import Schematic.Proofs.Circuit.Remainder
import Schematic.Proofs.Lists
import Schematic.Proofs.Symbol.PinKeys

/-!
# The netlist of a definition

The netlist that is handed out after a definition has been played is the one that
the definition declares: its pins are those that some reference mentions, and two
of them are on one net exactly when a chain of entries links them.  Neither the
order of the entries nor that of the pins in an entry shows in that.

## Main definitions

* `PinNumbering.form` — the form in which a key is kept.
* `CircuitDef.Addresses`, `CircuitDef.Lists`, `CircuitDef.Mentions` — the pins that
  a definition speaks of.
* `Netlist.StandsFor` — a pin of a netlist has a reference.
* `CircuitDef.Realizes` — a netlist is the one that a definition declares.
* `CircuitDef.SameEntries` — two definitions that differ in order only.

## Main statements

* `CircuitDef.Plays.realizes` — playing a definition realizes it.
* `CircuitDef.replay_realizes` — the same for the netlist that is handed out, whatever
  the order of the entries.
-/

namespace Schematic

open Relation (ReflTransGen)

variable {α : Type}

/-! ### Keys -/

namespace PinNumbering

/-- The form in which a circuit keeps a key: the numbering brings it into the definition's
form, and that of the circuit, if it has one, into its own. -/
def form (numbering : PinNumbering) (kept : Option PinNumbering) (symbol key : String) : String :=
  let written := (numbering symbol key).getD key
  (kept.bind fun number => number symbol written).getD written

/-- Both keep keys as they are written, or both ask one source of symbols. -/
inductive Agrees (α : Type) : PinNumbering → Option PinNumbering → Prop
  /-- The circuit has no numbering. -/
  | unnumbered : Agrees α CircuitDef.literalPins none
  /-- The numbering of the circuit knows no pins. -/
  | literal : Agrees α CircuitDef.literalPins (some CircuitDef.literalPins)
  /-- Both ask one source. -/
  | symbols (source : SymbolSource α) : Agrees α source.pinNumber? (some source.pinNumber?)

end PinNumbering

/-- The number of a pin addresses a pin of that number. -/
theorem Symbol.findPin?_number {s : Symbol α} {key : String} {p : SymbolPin α}
    (h : s.findPin? key = some p) : ∃ q, s.findPin? p.number = some q ∧ q.number = p.number := by
  have hmem : p ∈ s.pins := mem_pins_of_findPin? h
  obtain ⟨q, hq⟩ : ∃ q, s.pins.find? (·.number == p.number) = some q := by
    rw [← Option.isSome_iff_exists, List.find?_isSome]
    exact ⟨p, hmem, by simp⟩
  exact ⟨q, by rw [findPin?, hq]; rfl, by simpa using List.find?_some hq⟩

/-- When both sides agree, a key that has been brought into its form stays as it is. -/
theorem PinNumbering.Agrees.form_eq {numbering : PinNumbering} {kept : Option PinNumbering}
    (h : numbering.Agrees α kept) (symbol key : String) :
    numbering.form kept symbol key = (numbering symbol key).getD key := by
  cases h with
  | unnumbered => rfl
  | literal => rfl
  | symbols source =>
    rw [form]
    cases hkey : source.pinNumber? symbol key with
    | none => simp [hkey]
    | some number =>
      obtain ⟨p, hp, rfl⟩ := Option.map_eq_some_iff.1 hkey
      obtain ⟨s, hs, hfind⟩ := Option.bind_eq_some_iff.1 hp
      obtain ⟨q, hq, hnumber⟩ := Symbol.findPin?_number hfind
      have hagain : source.pinNumber? symbol p.number = some p.number := by
        simp [SymbolSource.pinNumber?, hs, hq, hnumber]
      simp [hagain]

/-! ### What a definition declares -/

/-- The pin with a number has a reference: the component it belongs to is no marker, and has
the designator, and the key is that of the pin. -/
def Netlist.StandsFor (n : Netlist α) (p : PinId) (r : PinRef) : Prop :=
  ∃ x c, n.pins[p]? = some x ∧ n.components[x.component]? = some c ∧ c.marker = false ∧
    ⟨c.reference, x.key⟩ = r

/-- The first composable with a name. -/
def Netlist.findComposable? (n : Netlist α) (name : String) : Option ComposableId :=
  n.composables.toList.findIdx? (·.name == name)

namespace CircuitDef

variable (circuit : CircuitDef α) (form : String → String → String)

/-- A text addresses a pin of a declared component, by the key in the form in which it is
kept. -/
def Addresses (text : String) (pin : PinRef) : Prop :=
  ∃ r d, PinRef.parse? text = some r ∧ d ∈ circuit.components ∧ d.reference = r.reference ∧
    ⟨d.reference, form d.symbol r.key⟩ = pin

/-- An entry of the nets lists a pin, under some text that addresses it. -/
def Lists (i : Nat) (pin : PinRef) : Prop :=
  ∃ d text, circuit.nets[i]? = some d ∧ text ∈ d.pins ∧ circuit.Addresses form text pin

variable {circuit form} in
theorem lt_length_of_lists {i : Nat} {pin : PinRef} (h : circuit.Lists form i pin) :
    i < circuit.nets.length := by
  obtain ⟨d, _, hd, -⟩ := h
  exact (List.getElem?_eq_some_iff.1 hd).1

/-- The references to pins in nets, in ports and in the list of unconnected pins. -/
def pinTexts : List String :=
  circuit.nets.flatMap (·.pins) ++
    ((circuit.composables.flatMap fun d => d.ports.entries.map Prod.snd) ++
      circuit.noConnects.map (·.pin))

/-- Some reference addresses a pin. -/
def Mentions (pin : PinRef) : Prop := ∃ text ∈ circuit.pinTexts, circuit.Addresses form text pin

/-- The nets of a netlist to which the entries of a definition have come. -/
structure EntriesAt (n : Netlist α) (home : Nat → NetId) : Prop where
  /-- An entry is a net. -/
  exists_net : ∀ i < circuit.nets.length, ∃ net, n.nets[home i]? = some net
  /-- The pins of an entry are on its net. -/
  on_net : ∀ i p r, n.StandsFor p r → circuit.Lists form i r →
    n.asBuild.netOf? p = some (home i)
  /-- Two entries are one net when a chain of shared pins links them. -/
  same_iff : ∀ i j, i < circuit.nets.length → j < circuit.nets.length →
    (home i = home j ↔ Linked (fun r i => circuit.Lists form i r) i j)
  /-- A net is a power net exactly when one of its entries says so. -/
  power_iff : ∀ m net, n.nets[m]? = some net →
    (net.power = true ↔ ∃ i d, circuit.nets[i]? = some d ∧ d.power = true ∧ home i = m)

/-- A netlist is the one that a definition declares. -/
structure Realizes [Scalar α] (n : Netlist α) : Prop where
  /-- The pins of components are those that are mentioned. -/
  pin_iff : ∀ r, (∃ p, n.StandsFor p r) ↔ circuit.Mentions form r
  /-- Each of them is there once. -/
  pin_unique : ∀ p q r, n.StandsFor p r → n.StandsFor q r → p = q
  /-- Two pins are on one net exactly when a chain of entries links them. -/
  same_net_iff : ∀ p q r s, n.StandsFor p r → n.StandsFor q s → r ≠ s →
    (n.asBuild.SameNet p q ↔ Linked (circuit.Lists form) r s)
  /-- The power nets are those of which an entry says so. -/
  entries : ∃ home, circuit.EntriesAt form n home
  /-- The composables are those that are declared. -/
  composables : (n.composables.toList.map (·.name)).Perm (circuit.composables.map (·.name))
  /-- The components other than markers are those that are declared, in order, each in the
  composable that it names as its parent. -/
  components : List.Forall₂ (ComponentDef.Declares n.findComposable?) circuit.components
    (n.components.toList.filter fun c => !c.marker)

/-- Two definitions with the same components, and with the same entries in another order,
each with its pins in another order. -/
def SameEntries (circuit other : CircuitDef α) : Prop :=
  other.components = circuit.components ∧
    ∃ nets : List NetDef, nets.Perm other.nets ∧
      List.Forall₂ (fun d e => d.pins.Perm e.pins) circuit.nets nets

/-! ### Playing a definition -/

open Build

section Play

variable [Scalar α] {circuit} {numbering : PinNumbering} {kept : Option PinNumbering}
  {composables refs : Names} {a b c : Build α} {home : NetId → NetId}

/-- The composables and the components of a definition are there, and nothing else. -/
structure Prepares (circuit : CircuitDef α) (kept : Option PinNumbering)
    (composables refs : Names) (a : Build α) : Prop extends Declared refs a where
  /-- The composables are found by name. -/
  named : Named composables a
  /-- The composables are those that are declared. -/
  names_perm : a.composableNames.toList.Perm (circuit.composables.map (·.name))
  /-- The components are as they are declared. -/
  components : List.Forall₂ (ComponentDef.Declares fun name => composables.lookup name)
    circuit.components a.components.toList
  /-- Pin keys get the form that the circuit gave them from the beginning. -/
  numbering_eq : a.numbering = kept

theorem prepares_of_ok {name : String} {b₁ : Build α}
    (hregister : circuit.registerComposables { name, numbering := kept } = .ok composables b₁)
    (hadd : addComponents composables [] circuit.components b₁ = .ok refs a) :
    circuit.Prepares kept composables refs a := by
  obtain ⟨hnamed, done, hregisters, hperm⟩ := registerComposables_ok rfl hregister
  have hnone : Refers [] b₁ := by
    intro reference i
    simp [hregisters.components_eq]
  obtain ⟨hrefers, hadds⟩ := addComponents_ok hnone hadd
  obtain ⟨cs, hcs, hdeclares, hbare⟩ := hadds.components
  have hcomponents : a.components = cs.toArray := by simp [hcs, hregisters.components_eq]
  have hbare' : ∀ x ∈ cs, x.bare = x := fun x hx => by
    rw [Component.bare, ← hbare x hx]
  exact {
    grown := ⟨{ name, numbering := kept }, hregisters.chain.trans hadds.chain⟩
    refers := hrefers
    bare := by
      rw [hcomponents, List.map_toArray, List.map_congr_left hbare', List.map_id']
    unmarked := by
      intro x hx
      rw [hcomponents, List.mem_toArray] at hx
      obtain ⟨d, -, hd⟩ := exists_of_mem_forall₂ hdeclares.flip hx
      exact hd.not_marker
    pins_eq := hadds.pins_eq.trans hregisters.pins_eq
    nets_eq := hadds.nets_eq.trans hregisters.nets_eq
    named := by
      constructor <;> rw [hadds.names_eq]
      · exact hnamed.stands
      · exact hnamed.found
    names_perm := by
      rw [hadds.names_eq, hregisters.names_eq]
      simpa [composableNames] using hperm
    components := by rwa [hcomponents]
    numbering_eq := hadds.numbering_eq.trans hregisters.numbering_eq }

/-- A definition is played: first its nets are laid, then ports and unconnected pins keep
them as they are. -/
structure Plays (circuit : CircuitDef α) (numbering : PinNumbering) (kept : Option PinNumbering)
    (composables refs : Names) (a c b : Build α) (home : NetId → NetId) : Prop
    extends circuit.Prepares kept composables refs a where
  /-- The nets come after the components. -/
  connects : Connects a c
  /-- The entries have come to nets. -/
  settled : c.Settled (circuit.nets.map (·.power))
    (listing (siteOf? numbering refs a) 0 circuit.nets) home
  /-- These nets are kept to the end. -/
  rest : Kept c b
    (((circuit.composables.flatMap fun d => d.ports.entries.map Prod.snd) ++
      circuit.noConnects.map (·.pin)).filterMap (siteOf? numbering refs a))

/-- What the steps of playing a definition come to. -/
theorem plays_of_steps {name : String} {u : Unit}
    (ok : circuit.replay numbering { name, numbering := kept } = .ok u b) :
    ∃ composables refs a c e home, circuit.Plays numbering kept composables refs a c b home ∧
      addNets numbering refs circuit.nets a = .ok ⟨⟩ c ∧
      exposeAll numbering refs composables circuit.composables c = .ok ⟨⟩ e ∧
      markAll numbering refs circuit.noConnects e = .ok ⟨⟩ b := by
  simp only [replay, ReplayM.bind_ok_iff] at ok
  obtain ⟨composables, _, hregister, refs, a, hadd, _, c, hnets, _, e, hports, hmarks⟩ := ok
  have hprepares := prepares_of_ok hregister hadd
  have ha := hprepares.toDeclared
  obtain ⟨hac, made, home, hlaid⟩ := addNets_laid ha (.refl a) ⟨_, _, ha.laid⟩ hnets
  have hfound : ∀ d ∈ circuit.composables, (composables.lookup d.name).isSome = true := by
    intro d hd
    refine hprepares.named.found d.name ?_
    rw [← Array.mem_toList_iff, hprepares.names_perm.mem_iff]
    exact List.mem_map_of_mem hd
  have he := exposeAll_kept ha hac hfound (.refl c) hports
  have hb := markAll_kept ha hac he hmarks
  refine ⟨composables, refs, a, c, e, home, { hprepares with
    connects := hac
    settled := by simpa using hlaid.settled (ha.owned_of hac)
    rest := by simpa using hb }, hnets, hports, hmarks⟩

theorem plays_of_ok {name : String} {u : Unit}
    (ok : circuit.replay numbering { name, numbering := kept } = .ok u b) :
    ∃ composables refs a c home, circuit.Plays numbering kept composables refs a c b home := by
  obtain ⟨composables, refs, a, c, e, home, h, -⟩ := plays_of_steps ok
  exact ⟨composables, refs, a, c, home, h⟩

/-! ### Places and references -/

/-- The component that has the designator of a declaration is as it is declared. -/
theorem Prepares.declares_of_reference (h : circuit.Prepares kept composables refs a)
    {d : ComponentDef α} (hd : d ∈ circuit.components) {i : ComponentId} {x : Component α}
    (hx : a.components[i]? = some x) (hreference : x.reference = d.reference) :
    d.Declares (fun name => composables.lookup name) x := by
  obtain ⟨y, hy, hdy⟩ := exists_of_mem_forall₂ h.components hd
  obtain ⟨j, hj⟩ := Array.mem_iff_getElem?.1 (Array.mem_toList_iff.1 hy)
  -- no other component has the designator
  have hindex := (h.refers d.reference i).2 ⟨x, hx, hreference⟩
  rw [(h.refers d.reference j).2 ⟨y, hj, hdy.reference_eq⟩] at hindex
  cases hindex
  rw [hj] at hx
  cases hx
  exact hdy

/-- A text addresses a pin when the place that it addresses has the reference of the pin. -/
theorem Prepares.addresses_iff (h : circuit.Prepares kept composables refs a) {text : String}
    {r : PinRef} : circuit.Addresses (numbering.form kept) text r ↔
      ∃ s, siteOf? numbering refs a text = some s ∧ refAt? a s = some r := by
  have hform : ∀ (c : Component α) key, a.canonicalKey c ((numbering c.symbol key).getD key) =
      numbering.form kept c.symbol key := fun c key => by
    rw [canonicalKey, h.numbering_eq]
    rfl
  constructor
  · rintro ⟨ref, d, hparse, hd, hreference, rfl⟩
    obtain ⟨c, hc, hdc⟩ := exists_of_mem_forall₂ h.components hd
    obtain ⟨i, hi⟩ := Array.mem_iff_getElem?.1 (Array.mem_toList_iff.1 hc)
    refine ⟨_, siteOf?_eq_some.2 ⟨ref, i, c, hparse, ?_, hi, rfl⟩,
      refAt?_eq_some.2 ⟨c, hi, ?_⟩⟩
    · exact (h.refers _ i).2 ⟨c, hi, hdc.reference_eq.trans hreference⟩
    · rw [hform, hdc.reference_eq, hdc.symbol_eq]
  · rintro ⟨s, hs, hr⟩
    obtain ⟨ref, i, c, hparse, hi, hc, rfl⟩ := siteOf?_eq_some.1 hs
    obtain ⟨c', hc', rfl⟩ := refAt?_eq_some.1 hr
    rw [hc] at hc'
    cases hc'
    obtain ⟨d, hd, hdc⟩ := exists_of_mem_forall₂ h.components.flip
      (Array.mem_toList_iff.2 (Array.mem_of_getElem? hc))
    obtain ⟨x, hx, hreference⟩ := (h.refers _ i).1 hi
    rw [hc] at hx
    cases hx
    exact ⟨ref, d, hparse, hd, hdc.reference_eq.symm.trans hreference,
      by rw [hform, hdc.reference_eq, hdc.symbol_eq]⟩

theorem Prepares.lists_iff (h : circuit.Prepares kept composables refs a) {i : Nat} {r : PinRef} :
    circuit.Lists (numbering.form kept) i r ↔
      ∃ s, (s, i) ∈ listing (siteOf? numbering refs a) 0 circuit.nets ∧ refAt? a s = some r := by
  simp only [Lists, h.addresses_iff, mem_listing, Nat.zero_add]
  constructor
  · rintro ⟨d, text, hd, htext, s, hs, hr⟩
    exact ⟨s, ⟨i, d, text, hd, rfl, htext, hs⟩, hr⟩
  · rintro ⟨s, ⟨_, d, text, hd, rfl, htext, hs⟩, hr⟩
    exact ⟨d, text, hd, htext, s, hs, hr⟩

/-- Entries share pins when they share places. -/
theorem Prepares.linked_iff (h : circuit.Prepares kept composables refs a) {i j : Nat} :
    Linked (fun r i => circuit.Lists (numbering.form kept) i r) i j ↔
      Linked (fun s k => (s, k) ∈ listing (siteOf? numbering refs a) 0 circuit.nets) i j := by
  have hshare : ∀ i j : Nat, (∃ r, circuit.Lists (numbering.form kept) i r ∧
      circuit.Lists (numbering.form kept) j r) ↔
      ∃ s, (s, i) ∈ listing (siteOf? numbering refs a) 0 circuit.nets ∧
        (s, j) ∈ listing (siteOf? numbering refs a) 0 circuit.nets := by
    intro i j
    simp only [h.lists_iff]
    constructor
    · rintro ⟨r, ⟨s, hs, hr⟩, t, ht, hr'⟩
      obtain rfl := h.refers.eq_of_refAt? hr hr'
      exact ⟨s, hs, ht⟩
    · rintro ⟨s, hs, hs'⟩
      obtain ⟨_, _, _, -, -, -, hsite⟩ := mem_listing.1 hs
      obtain ⟨r, hr⟩ := exists_refAt? hsite
      exact ⟨r, ⟨s, hs, hr⟩, s, hs', hr⟩
  simp only [Linked, hshare]

theorem Prepares.isMarker_of_refAt? (h : circuit.Prepares kept composables refs a)
    {s : ComponentId × String} {r : PinRef} (hr : refAt? a s = some r) (hab : Connects a b) :
    b.isMarker s.1 = false := by
  obtain ⟨c, hc, -⟩ := refAt?_eq_some.1 hr
  rw [hab.isMarker_eq (Array.getElem?_eq_some_iff.1 hc).1]
  simp [isMarker, hc, h.unmarked c (Array.mem_of_getElem? hc)]

/-! ### The netlist -/

section Netlist

variable (h : circuit.Plays numbering kept composables refs a c b home)
include h

theorem Plays.connects_all : Connects a b := h.connects.trans h.rest.connects

theorem Plays.agree_all : b.NetsAgree := h.agree_of h.connects_all

theorem Plays.owned_all : b.PinsOwned := h.owned_of h.connects_all

/-- A pin of the netlist has the reference of its place. -/
theorem Plays.standsFor_iff {p : PinId} {r : PinRef} : b.toNetlist.StandsFor p r ↔
    ∃ s, b.site? p = some s ∧ refAt? a s = some r := by
  rw [Netlist.StandsFor, toNetlist_pins h.agree_all, site?]
  constructor
  · rintro ⟨x, c', hx, hc', hmarker, rfl⟩
    obtain ⟨y, hy, rfl⟩ := Option.map_eq_some_iff.1 hx
    obtain ⟨c₀, hc₀, hbare⟩ := h.connects_all.exists_of_unmarked hc' hmarker
    have hreference : c'.reference = c₀.reference := by
      simpa [Component.bare] using congrArg Component.reference hbare
    exact ⟨_, by rw [hy]; rfl, refAt?_eq_some.2 ⟨c₀, hc₀, by rw [hreference]⟩⟩
  · rintro ⟨s, hs, hr⟩
    obtain ⟨y, hy, rfl⟩ := Option.map_eq_some_iff.1 hs
    obtain ⟨c₀, hc₀, rfl⟩ := refAt?_eq_some.1 hr
    obtain ⟨c', hc', hbare⟩ := h.connects_all.component hc₀
    have hreference : c'.reference = c₀.reference := by
      simpa [Component.bare] using congrArg Component.reference hbare
    have hmarker : c'.marker = c₀.marker := by
      simpa [Component.bare] using congrArg Component.marker hbare
    refine ⟨{ y with net := y.net.map b.compactNumber }, c', by rw [hy]; rfl, hc', ?_,
      by rw [hreference]⟩
    rw [hmarker, h.unmarked c₀ (Array.mem_of_getElem? hc₀)]

/-- There is a pin at a place when a reference addresses it. -/
theorem Plays.exists_site_iff {s : ComponentId × String} {r : PinRef}
    (hr : refAt? a s = some r) : (∃ p, b.site? p = some s) ↔
      ∃ text ∈ circuit.pinTexts, siteOf? numbering refs a text = some s := by
  have hb := h.isMarker_of_refAt? hr h.connects_all
  have hc := h.isMarker_of_refAt? hr h.connects
  have hsites := h.rest.sites s
  simp only [hb, hc, and_true, h.settled.listed] at hsites
  simp only [hsites, pinTexts, List.mem_append (s := circuit.nets.flatMap _), or_and_right,
    exists_or]
  refine or_congr ?_ (List.mem_filterMap)
  simp only [mem_listing, List.mem_flatMap]
  constructor
  · rintro ⟨_, i, d, text, hd, -, htext, hs⟩
    exact ⟨text, ⟨d, List.mem_of_getElem? hd, htext⟩, hs⟩
  · rintro ⟨text, ⟨d, hd, htext⟩, hs⟩
    obtain ⟨i, hi⟩ := List.mem_iff_getElem?.1 hd
    exact ⟨_, i, d, text, hi, rfl, htext, hs⟩

theorem Plays.pin_iff (r : PinRef) : (∃ p, b.toNetlist.StandsFor p r) ↔
    circuit.Mentions (numbering.form kept) r := by
  simp only [h.standsFor_iff, Mentions, h.addresses_iff]
  constructor
  · rintro ⟨p, s, hs, hr⟩
    obtain ⟨text, htext, hsite⟩ := (h.exists_site_iff hr).1 ⟨p, hs⟩
    exact ⟨text, htext, s, hsite, hr⟩
  · rintro ⟨text, htext, s, hsite, hr⟩
    obtain ⟨p, hp⟩ := (h.exists_site_iff hr).2 ⟨text, htext, hsite⟩
    exact ⟨p, s, hp, hr⟩

theorem Plays.pin_unique {p q : PinId} {r : PinRef} (hp : b.toNetlist.StandsFor p r)
    (hq : b.toNetlist.StandsFor q r) : p = q := by
  obtain ⟨s, hs, hr⟩ := h.standsFor_iff.1 hp
  obtain ⟨t, ht, hr'⟩ := h.standsFor_iff.1 hq
  obtain rfl := h.refers.eq_of_refAt? hr hr'
  exact h.owned_all.eq_of_site? hs ht

theorem Plays.isMarkerPin_eq {p : PinId} {r : PinRef} (hp : b.toNetlist.StandsFor p r) :
    b.isMarkerPin p = false := by
  obtain ⟨s, hs, hr⟩ := h.standsFor_iff.1 hp
  rw [Build.isMarkerPin_eq, hs]
  exact h.isMarker_of_refAt? hr h.connects_all

/-- A pin that an entry lists is on the net to which the entry has come. -/
theorem Plays.netOf?_eq {p : PinId} {r : PinRef} {i : Nat} (hp : b.toNetlist.StandsFor p r)
    (hlists : circuit.Lists (numbering.form kept) i r) : b.netOf? p = some (home i) := by
  obtain ⟨s, hs, hr⟩ := h.standsFor_iff.1 hp
  obtain ⟨t, ht, hr'⟩ := h.lists_iff.1 hlists
  obtain rfl := h.refers.eq_of_refAt? hr hr'
  obtain ⟨q, hq⟩ := (h.settled.listed s).2 ⟨i, ht⟩
  obtain rfl := h.owned_all.eq_of_site? hs (site?_of_chain h.rest.connects.chain hq)
  exact h.rest.apart.netOf?_eq _ _ (h.settled.pin _ s i hq ht)

/-- A pin that was there when the nets were laid is listed by an entry. -/
theorem Plays.exists_lists {p : PinId} {r : PinRef} (hp : b.toNetlist.StandsFor p r)
    (hold : p < c.pins.size) : ∃ i, circuit.Lists (numbering.form kept) i r := by
  obtain ⟨s, hs, hr⟩ := h.standsFor_iff.1 hp
  obtain ⟨t, ht⟩ : ∃ t, c.site? p = some t :=
    ⟨_, by rw [site?, Array.getElem?_eq_getElem hold]; rfl⟩
  have hst : t = s := by
    have heq := site?_of_chain h.rest.connects.chain ht
    rw [hs] at heq
    exact (Option.some.inj heq).symm
  obtain ⟨k, hk⟩ := (h.settled.listed t).1 ⟨p, ht⟩
  exact ⟨k, h.lists_iff.2 ⟨t, hk, hst ▸ hr⟩⟩

/-- Two entries have come to one net when a chain of shared pins links them. -/
theorem Plays.home_eq_iff {i j : Nat} (hi : i < circuit.nets.length)
    (hj : j < circuit.nets.length) : home i = home j ↔
      Linked (fun r i => circuit.Lists (numbering.form kept) i r) i j := by
  rw [h.linked_iff]
  exact h.settled.home_eq_iff i j (by simpa using hi) (by simpa using hj)

theorem Plays.same_net_iff {p q : PinId} {r r' : PinRef} (hp : b.toNetlist.StandsFor p r)
    (hq : b.toNetlist.StandsFor q r') (hne : r ≠ r') :
    b.toNetlist.asBuild.SameNet p q ↔ Linked (circuit.Lists (numbering.form kept)) r r' := by
  rw [toNetlist_sameNet_iff h.agree_all]
  have hpq : p ≠ q := by
    rintro rfl
    obtain ⟨s, hs, hr⟩ := h.standsFor_iff.1 hp
    obtain ⟨t, ht, hr'⟩ := h.standsFor_iff.1 hq
    rw [hs] at ht
    cases ht
    rw [hr] at hr'
    exact hne (Option.some.inj hr')
  constructor
  · rintro ⟨m, hpm, hqm⟩
    have hfun := h.isMarkerPin_eq hp
    have hfun' := h.isMarkerPin_eq hq
    -- a pin that was added later would be alone, so that entries list both
    by_cases hold : p < c.pins.size
    · by_cases hold' : q < c.pins.size
      · obtain ⟨i, hi⟩ := h.exists_lists hp hold
        obtain ⟨j, hj⟩ := h.exists_lists hq hold'
        rw [h.netOf?_eq hp hi] at hpm
        rw [h.netOf?_eq hq hj, ← hpm] at hqm
        have hlinked := (h.home_eq_iff (lt_length_of_lists hi) (lt_length_of_lists hj)).1
          (Option.some.inj hqm).symm
        exact linked_of_entries hlinked hi hj
      · exact absurd (h.rest.apart.lone q p m (Nat.le_of_not_lt hold') hfun' hfun hqm hpm) hpq
    · exact absurd (h.rest.apart.lone p q m (Nat.le_of_not_lt hold) hfun hfun' hpm hqm).symm hpq
  · intro hlinked
    obtain ⟨i, j, hi, hj, hij⟩ := entries_of_linked hlinked hne
    refine ⟨home i, h.netOf?_eq hp hi, ?_⟩
    rw [h.netOf?_eq hq hj, (h.home_eq_iff (lt_length_of_lists hi) (lt_length_of_lists hj)).2 hij]

/-- The net to which an entry has come stays live, and a power net or not. -/
theorem Plays.exists_home {i : Nat} (hi : i < circuit.nets.length) :
    home i < c.nets.size ∧ ∃ net, b.net? (home i) = some net := by
  obtain ⟨x, hx⟩ := h.settled.live i (by simpa using hi)
  have hlt := lt_size_of_net? hx
  have hpower := h.rest.apart.power_eq _ hlt
  rw [hx] at hpower
  obtain ⟨y, hy, -⟩ := Option.map_eq_some_iff.1 hpower
  exact ⟨hlt, y, hy⟩

/-- A live net is a power net when an entry that has come to it says so. -/
theorem Plays.power_iff {m : NetId} {net : Net} (hm : b.net? m = some net) :
    net.power = true ↔ ∃ i d, circuit.nets[i]? = some d ∧ d.power = true ∧ home i = m := by
  by_cases hlt : m < c.nets.size
  · have hpower : (c.net? m).map (·.power) = some net.power := by
      rw [← h.rest.apart.power_eq m hlt, hm]
      rfl
    obtain ⟨old, hold, heq⟩ := Option.map_eq_some_iff.1 hpower
    rw [← heq, h.settled.powered m old hold]
    refine exists_congr fun i => ?_
    rw [List.getElem?_map, Option.map_eq_some_iff]
    constructor
    · rintro ⟨⟨d, hd, hon⟩, hhome⟩
      exact ⟨d, hd, hon, hhome⟩
    · rintro ⟨d, hd, hon, hhome⟩
      exact ⟨⟨d, hd, hon⟩, hhome⟩
  · rw [h.rest.apart.new_power m net (Nat.le_of_not_lt hlt) hm]
    refine ⟨by rintro ⟨⟩, ?_⟩
    rintro ⟨i, d, hd, -, rfl⟩
    exact absurd (h.exists_home (List.getElem?_eq_some_iff.1 hd).1).1 hlt

theorem Plays.entriesAt : circuit.EntriesAt (numbering.form kept) b.toNetlist
    fun i => b.compactNumber (home i) where
  exists_net i hi := by
    obtain ⟨-, net, hnet⟩ := h.exists_home hi
    exact ⟨_, toNetlist_net? hnet⟩
  on_net i p r hp hlists := by
    rw [toNetlist_netOf? h.agree_all, h.netOf?_eq hp hlists]
    rfl
  same_iff i j hi hj := by
    obtain ⟨-, x, hx⟩ := h.exists_home hi
    obtain ⟨-, y, hy⟩ := h.exists_home hj
    rw [← h.home_eq_iff hi hj]
    exact ⟨compactNumber_inj hx hy, fun heq => by rw [heq]⟩
  power_iff m net hm := by
    obtain ⟨k, y, hy, rfl, rfl⟩ := exists_of_toNetlist_nets hm
    refine (h.power_iff hy).trans (exists_congr fun i => exists_congr fun d => ?_)
    refine and_congr_right fun hd => and_congr_right fun _ => ?_
    obtain ⟨-, x, hx⟩ := h.exists_home (List.getElem?_eq_some_iff.1 hd).1
    exact ⟨fun heq => by rw [heq], compactNumber_inj hx hy⟩

theorem Plays.composableNames_eq :
    b.toNetlist.composables.toList.map (·.name) = a.composableNames.toList := by
  rw [← h.connects_all.names_eq, toNetlist_composables, Array.toList_map, List.map_map,
    composableNames, Array.toList_map]
  rfl

/-- The composable that a name had while the definition was played is the first one of that
name, since there is only one. -/
theorem Plays.findComposable?_eq (distinct : (circuit.composables.map (·.name)).Nodup)
    {name : String} {id : ComposableId} (hid : composables.lookup name = some id) :
    b.toNetlist.findComposable? name = some id := by
  have hnodup : a.composableNames.toList.Nodup := h.names_perm.nodup_iff.2 distinct
  have hname : a.composableNames.toList[id]? = some name := by
    rw [Array.getElem?_toList]
    exact h.named.stands name id hid
  obtain ⟨hlt, hname⟩ := List.getElem?_eq_some_iff.1 hname
  -- numbers are places, and the name stands at no other place
  have hmap : b.toNetlist.findComposable? name =
      a.composableNames.toList.findIdx? (· == name) := by
    rw [← h.composableNames_eq, List.findIdx?_map]
    rfl
  rw [hmap, List.findIdx?_eq_some_iff_getElem]
  refine ⟨hlt, by simpa using hname, fun j hj heq => ?_⟩
  have hsame : a.composableNames.toList[j] = a.composableNames.toList[id] := by
    rw [hname]
    simpa using heq
  exact Nat.ne_of_lt hj (hnodup.getElem_inj_iff.1 hsame)

/-- Without their pins, the components other than markers are those that were there before
any pin was. -/
theorem Plays.map_bare :
    (b.components.toList.filter fun c => !c.marker).map Component.bare = a.components.toList := by
  obtain ⟨ms, hms, hmarkers⟩ := h.connects_all.components
  rw [h.bare] at hms
  calc (b.components.toList.filter fun c => !c.marker).map Component.bare
      = (b.components.toList.map Component.bare).filter fun c => !c.marker := by
        rw [List.filter_map]
        rfl
    _ = (a.components.toList ++ ms).filter fun c => !c.marker := by
        rw [← Array.toList_map, hms, Array.toList_append]
    _ = a.components.toList := by
        rw [List.filter_append, List.filter_eq_self.2, List.filter_eq_nil_iff.2, List.append_nil]
        · intro m hm
          simp [hmarkers m hm]
        · intro x hx
          simp [h.unmarked x (Array.mem_toList_iff.1 hx)]

theorem Plays.declares (distinct : (circuit.composables.map (·.name)).Nodup) :
    List.Forall₂ (ComponentDef.Declares b.toNetlist.findComposable?) circuit.components
      (b.toNetlist.components.toList.filter fun c => !c.marker) := by
  have hcomponents := h.components
  rw [← h.map_bare, List.forall₂_map_right_iff] at hcomponents
  refine hcomponents.imp fun d x hd => ?_
  have hparent : ∀ name, d.parent = some name →
      b.toNetlist.findComposable? name = composables.lookup name := by
    intro name hname
    obtain ⟨id, hid⟩ := Option.isSome_iff_exists.1 (hd.parent_known name hname)
    rw [hid, h.findComposable?_eq distinct hid]
  exact { hd with
    parent_eq := hd.parent_eq.trans (Option.bind_congr fun name hname => (hparent name hname).symm)
    parent_known := fun name hname => by
      rw [hparent name hname]
      exact hd.parent_known name hname }

/-- Playing a definition realizes it. -/
theorem Plays.realizes (distinct : (circuit.composables.map (·.name)).Nodup) :
    circuit.Realizes (numbering.form kept) b.toNetlist where
  pin_iff := h.pin_iff
  pin_unique _ _ _ hp hq := h.pin_unique hp hq
  same_net_iff _ _ _ _ hp hq hne := h.same_net_iff hp hq hne
  entries := ⟨_, h.entriesAt⟩
  composables := h.composableNames_eq ▸ h.names_perm
  components := h.declares distinct

end Netlist

omit [Scalar α] in
/-- Entries in another order, with their pins in another order, link the same pins. -/
theorem SameEntries.linked_iff {other : CircuitDef α} (h : circuit.SameEntries other)
    {form : String → String → String} {r s : PinRef} :
    Linked (other.Lists form) r s ↔ Linked (circuit.Lists form) r s := by
  obtain ⟨hcomponents, nets, hperm, hpins⟩ := h
  have haddresses : other.Addresses form = circuit.Addresses form := by
    funext text r
    rw [Addresses, hcomponents, Addresses]
  -- what counts is that there is such an entry, not where it stands
  have hexists : ∀ (x : CircuitDef α) r s, (∃ i, x.Lists form i r ∧ x.Lists form i s) ↔
      ∃ d ∈ x.nets, (∃ text ∈ d.pins, x.Addresses form text r) ∧
        ∃ text ∈ d.pins, x.Addresses form text s := by
    intro x r s
    constructor
    · rintro ⟨i, ⟨d, text, hd, htext, hr⟩, e, text', he, htext', hs⟩
      rw [hd] at he
      cases he
      exact ⟨d, List.mem_of_getElem? hd, ⟨text, htext, hr⟩, text', htext', hs⟩
    · rintro ⟨d, hd, ⟨text, htext, hr⟩, text', htext', hs⟩
      obtain ⟨i, hi⟩ := List.mem_iff_getElem?.1 hd
      exact ⟨i, ⟨d, text, hi, htext, hr⟩, d, text', hi, htext', hs⟩
  have hshare : ∀ r s, (∃ i, other.Lists form i r ∧ other.Lists form i s) ↔
      ∃ i, circuit.Lists form i r ∧ circuit.Lists form i s := by
    intro r s
    rw [hexists, hexists, haddresses]
    constructor
    · rintro ⟨e, he, hr, hs⟩
      obtain ⟨d, hd, hde⟩ := exists_of_mem_forall₂ hpins.flip (hperm.mem_iff.2 he)
      exact ⟨d, hd, by simpa only [hde.mem_iff] using hr, by simpa only [hde.mem_iff] using hs⟩
    · rintro ⟨d, hd, hr, hs⟩
      obtain ⟨e, he, hde⟩ := exists_of_mem_forall₂ hpins hd
      exact ⟨e, hperm.mem_iff.1 he, by simpa only [hde.mem_iff] using hr,
        by simpa only [hde.mem_iff] using hs⟩
  simp only [Linked, hshare]

/-- A definition whose composables have different names, played into an empty circuit, is
realized by the netlist that is handed out.  Keys are in the form that the definition's
numbering gives them when the circuit agrees with it.  Entries and their pins in another
order leave the same pins on one net. -/
theorem replay_realizes {name : String}
    (distinct : (circuit.composables.map (·.name)).Nodup)
    (ok : circuit.replay numbering { name, numbering := kept } = .ok ⟨⟩ b) :
    (numbering.Agrees α kept →
      ∀ symbol key, numbering.form kept symbol key = (numbering symbol key).getD key) ∧
    ∃ n, drain b = .ok n b.cleared ∧ n.WellFormed ∧ circuit.Realizes (numbering.form kept) n ∧
      ∀ other b' n', circuit.SameEntries other →
        other.replay numbering { name, numbering := kept } = .ok ⟨⟩ b' →
        drain b' = .ok n' b'.cleared →
          ∀ p q p' q' r s, r ≠ s → n.StandsFor p r → n.StandsFor q s → n'.StandsFor p' r →
            n'.StandsFor q' s → (n.asBuild.SameNet p q ↔ n'.asBuild.SameNet p' q') := by
  obtain ⟨composables, refs, a, c, home, h⟩ := plays_of_ok ok
  refine ⟨fun hagrees => hagrees.form_eq, b.toNetlist, rfl,
    toNetlist_wellFormed (h.wellFormed_of h.connects_all), h.realizes distinct, ?_⟩
  rintro other b' n' hsame ok' ⟨⟩ p q p' q' r s hne hp hq hp' hq'
  obtain ⟨composables', refs', a', c', home', h'⟩ := plays_of_ok ok'
  rw [h.same_net_iff hp hq hne, h'.same_net_iff hp' hq' hne, hsame.linked_iff]

end Play

/-- Two resistors between the pins of a connector.  The last entry shares a pin with each of
the others. -/
def divider : CircuitDef Float where
  name := "divider"
  composables := [{ name := "filter", ports := ⟨[("out", "R2.1")]⟩ }]
  components :=
    [{ reference := "J1", symbol := "Connector:Conn_01x03" },
      { reference := "R1", symbol := "Device:R", parent := some "filter" },
      { reference := "R2", symbol := "Device:R", parent := some "filter" }]
  nets :=
    [{ name := some "IN", pins := ["J1.1", "R1.1"] },
      { name := some "OUT", power := true, pins := ["R1.2", "R2.1"] },
      { pins := ["R2.1", "J1.1"] }]
  noConnects := [{ pin := "J1.3", reason := some "spare" }]

/-- The definition of the divider is accepted, and realized. -/
theorem divider_realized : ∃ b n,
    divider.replay literalPins { name := "divider" } = .ok ⟨⟩ b ∧ drain b = .ok n b.cleared ∧
      divider.Realizes (PinNumbering.form literalPins none) n := by
  have haccepted : (match divider.replay literalPins { name := "divider" } with
      | .ok .. => true
      | .error .. => false) = true := by decide +kernel
  obtain ⟨b, ok⟩ : ∃ b, divider.replay literalPins { name := "divider" } = .ok ⟨⟩ b := by
    split at haccepted
    · next b h => exact ⟨b, h⟩
    · cases haccepted
  obtain ⟨-, n, hdrain, -, hrealizes, -⟩ := replay_realizes (by decide) ok
  exact ⟨b, n, ok, hdrain, hrealizes⟩

end CircuitDef

end Schematic
