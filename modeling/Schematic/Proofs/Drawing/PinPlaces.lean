import Schematic.Proofs.Circuit.Numbering
import Schematic.Proofs.Circuit.Realization
import Schematic.Proofs.Drawing.Contents

/-!
# From a key to a point on the sheet

The key of a pin is looked up in the library when a definition is played, when the
circuit is asked for the pin, and when the pin is put on the sheet.  Since a library
is uniquely numbered, the key that is stored addresses what the author's key
addressed, and the pin is put where that one lies.

## Main definitions

* `SymbolSource.pointOf` — where the pin that a key addresses lies.
* `Netlist.Puts` — a pin is put where a key lies, and reported if the key addresses none.
* `SymbolLibrary.Keyed` — what keys mean from the library to the sheet.

## Main statements

* `Build.PinsOwned.puts` — a stored pin is put where its key lies.
* `SymbolLibrary.ofDefs_keyed` — what keys mean with any library.
-/

namespace Schematic

open Relation (ReflTransGen)
open Scalar

variable {α : Type}

/-! ### Points of keys -/

namespace SymbolSource

variable [Scalar α] {symbols : SymbolSource α}

/-- Where the pin that a key addresses lies, and in which direction, when its symbol is
placed; a key that addresses none lies at the origin of the symbol. -/
def pointOf (symbols : SymbolSource α) (id key : String) (placement : Placement α) :
    Point α × Point α :=
  match symbols.address? id key with
  | some pin => pin.place placement
  | none => (placement.point, ⟨0, -1⟩)

/-- A key that is brought into its form lies where it did. -/
theorem UniquelyNumbered.pointOf_canonicalKey (h : symbols.UniquelyNumbered) (id key : String)
    (placement : Placement α) :
    symbols.pointOf id (symbols.canonicalKey id key) placement =
      symbols.pointOf id key placement := by
  rw [pointOf, h.address?_canonicalKey, pointOf]

omit [Scalar α] in
theorem UniquelyNumbered.settles (h : symbols.UniquelyNumbered) :
    PinNumbering.Settles symbols.pinNumber? := h.canonicalKey_canonicalKey

end SymbolSource

/-! ### Pins on the sheet -/

namespace Netlist

variable [Scalar α] {m : Netlist α} {symbols : SymbolSource α}

/-- A pin of a component is put where a key of a symbol lies, and it is reported exactly when
the key addresses none. -/
def Puts (m : Netlist α) (symbols : SymbolSource α) (p : PinId) (i : ComponentId)
    (id key : String) : Prop :=
  ∀ c placement, m.components[i]? = some c → c.marker = false → m.absolute? i = some placement →
    (m.terminals symbols)[p]? = some (some
      { pin := p, component := i, point := (symbols.pointOf id key placement).1,
        outward := (symbols.pointOf id key placement).2 }) ∧
    ∃ x, m.pins[p]? = some x ∧ ((c, x) ∈ m.strayPins symbols ↔ symbols.address? id key = none)

/-- A pin of a placed component is put where its key lies. -/
theorem terminal?_eq {x : Pin} {c : Component α} {placement : Placement α}
    (hc : m.components[x.component]? = some c) (hmarker : c.marker = false)
    (hplaced : m.absolute? x.component = some placement) :
    m.terminal? symbols x = some
      { pin := x.id, component := x.component,
        point := (symbols.pointOf c.symbol x.key placement).1,
        outward := (symbols.pointOf c.symbol x.key placement).2 } := by
  simp only [terminal?, hc, hmarker, hplaced, Option.bind_eq_bind, Option.bind_some,
    Bool.false_eq_true, if_false]
  rfl

theorem mem_strayPins_iff {c : Component α} {x : Pin} :
    (c, x) ∈ m.strayPins symbols ↔
      (c ∈ m.components ∧ c.marker = false ∧ (m.absolute? c.id).isSome = true) ∧
        (∃ p ∈ c.pins.ids, m.pins[p]? = some x) ∧ symbols.address? c.symbol x.key = none := by
  have hfor : symbols.pinFor? c x = symbols.address? c.symbol x.key := rfl
  simp [strayPins, hfor]

end Netlist

namespace Build

variable [Scalar α] {b : Build α} {symbols : SymbolSource α}

/-- Whatever positions are set, a stored pin is put where the key lies that it was asked for
by. -/
theorem WellFormed.puts (h : b.WellFormed) (hsymbols : symbols.UniquelyNumbered)
    {i : ComponentId} {id key : String} {p : PinId}
    (hsymbol : b.components[i]?.map (·.symbol) = some id)
    (hsite : b.site? p = some (i, symbols.canonicalKey id key)) {m : Netlist α}
    (hsame : m.withoutPositions = b.toNetlist.withoutPositions) :
    m.Puts symbols p i id key := by
  intro c placement hc hmarker hplaced
  -- the component is that of the circuit, up to its position
  obtain ⟨d, hd, hcd⟩ := Netlist.exists_component (Netlist.unplaced_of_same hsame i).symm hc
  obtain ⟨hid, hcid, hpins⟩ : c.symbol = id ∧ c.id = i ∧ c.pins = b.tableOf i := by
    have hdb : b.components[i]? = some d := hd
    rw [hdb] at hsymbol
    refine ⟨?_, ?_, ?_⟩
    · exact (congrArg Component.symbol hcd).symm.trans (Option.some.inj hsymbol)
    · exact (congrArg Component.id hcd).symm.trans (h.numbered.component i d hdb)
    · rw [tableOf, hdb]
      exact (congrArg Component.pins hcd).symm
  obtain ⟨y, hy, hyi⟩ := Option.map_eq_some_iff.1 hsite
  obtain ⟨rfl, hkey⟩ := Prod.mk.inj hyi
  -- the pin is that of the circuit, up to the number of its net
  obtain ⟨x, hx, hxid, hxi, hxkey⟩ : ∃ x, m.pins[p]? = some x ∧ x.id = p ∧
      x.component = y.component ∧ x.key = symbols.canonicalKey id key := by
    refine ⟨{ y with net := y.net.map b.compactNumber }, ?_, h.numbered.pin p y hy, rfl, hkey⟩
    rw [Netlist.pins_of_same hsame, toNetlist_pins h.nets, hy]
    rfl
  have haddress : symbols.address? c.symbol x.key = symbols.address? id key := by
    rw [hid, hxkey, hsymbols.address?_canonicalKey]
  refine ⟨?_, x, hx, ?_⟩
  · rw [Netlist.terminals, Array.getElem?_map, hx, Option.map_some,
      Netlist.terminal?_eq (hxi ▸ hc) hmarker (hxi ▸ hplaced), hxid, hxi, hid, hxkey,
      hsymbols.pointOf_canonicalKey]
  · rw [Netlist.mem_strayPins_iff, haddress]
    refine ⟨fun hmem => hmem.2.2, fun hnone => ⟨⟨Array.mem_of_getElem? hc, hmarker, ?_⟩, ?_, hnone⟩⟩
    · rw [hcid, hplaced]
      rfl
    · exact ⟨p, hpins ▸ (h.pins.id_iff _ p).2 ⟨_, hsite⟩, hx⟩

/-- A pin stays where it is put, whatever is done after it was asked for. -/
theorem Numbers.puts (h : b.Numbers symbols.pinNumber?) (hsymbols : symbols.UniquelyNumbered)
    {i : ComponentId} {c : Component α} (hc : b.components[i]? = some c) {key : String} {p : PinId}
    {b₁ : Build α} (hpin : pin i key b = .ok p b₁) {more : List (Operation α)}
    (hmore : ∀ op ∈ more, op.Respects symbols.pinNumber? ∧ op.restarts = false) {m : Netlist α}
    (hsame : m.withoutPositions = (b₁.run more).toNetlist.withoutPositions) :
    m.Puts symbols p i c.symbol key := by
  obtain ⟨q, b₂, hq, hnumbers, hgrowth, hsite⟩ := h.pin_ok hc key
  rw [hpin] at hq
  cases hq
  have hlater : ReflTransGen Growth b₁ (b₁.run more) := growth_run fun op hop => (hmore op hop).2
  exact (hnumbers.run fun op hop => (hmore op hop).1).wellFormed.puts hsymbols
    (symbol_of_chain (hgrowth.trans hlater) (by rw [hc]; rfl)) (site?_of_chain hlater hsite) hsame

end Build

namespace CircuitDef

open Build

variable [Scalar α] {symbols : SymbolSource α} {circuit : CircuitDef α}

/-- Each pin that a definition mentions is put where the key lies that is written there. -/
theorem exists_puts (hsymbols : symbols.UniquelyNumbered) {n : Netlist α}
    (hn : circuit.toNetlist symbols.pinNumber? = .ok n) {text : String}
    (htext : text ∈ circuit.pinTexts) {r : PinRef} (hr : PinRef.parse? text = some r)
    {d : ComponentDef α} (hd : d ∈ circuit.components) (hreference : d.reference = r.reference) :
    ∃ p i c, n.components[i]? = some c ∧ c.reference = d.reference ∧ c.symbol = d.symbol ∧
      c.marker = false ∧
      ∀ m : Netlist α, m.withoutPositions = n.withoutPositions →
        m.Puts symbols p i d.symbol r.key := by
  obtain ⟨b, hreplay, rfl⟩ : ∃ b, circuit.replay symbols.pinNumber?
      { name := circuit.name, numbering := some symbols.pinNumber? } = .ok ⟨⟩ b ∧
        b.toNetlist = n := by
    rw [toNetlist] at hn
    split at hn
    · next b h =>
      cases hn
      exact ⟨b, h, rfl⟩
    · cases hn
  obtain ⟨composables, refs, a, c, home, h⟩ := plays_of_ok hreplay
  have hagrees : PinNumbering.Agrees α symbols.pinNumber? (some symbols.pinNumber?) :=
    .symbols symbols
  obtain ⟨p, hp⟩ := (h.pin_iff _).2 ⟨text, htext, r, d, hr, hd, hreference, rfl⟩
  obtain ⟨⟨i, key⟩, hsite, hrefAt⟩ := h.standsFor_iff.1 hp
  obtain ⟨x, hx, heq⟩ := refAt?_eq_some.1 hrefAt
  obtain ⟨hxref, rfl⟩ := PinRef.mk.inj heq
  rw [hagrees.form_eq] at hsite
  have hdx := h.declares_of_reference hd hx hxref
  obtain ⟨z, hz, hbare⟩ := h.connects_all.component hx
  have hzsymbol : z.symbol = d.symbol :=
    (congrArg Component.symbol hbare).trans hdx.symbol_eq
  refine ⟨p, i, z, hz, (congrArg Component.reference hbare).trans hxref, hzsymbol,
    (congrArg Component.marker hbare).trans hdx.not_marker, fun m hsame => ?_⟩
  exact (h.wellFormed_of h.connects_all).puts hsymbols (by rw [hz, ← hzsymbol]; rfl) hsite hsame

end CircuitDef

/-! ### All together -/

namespace SymbolLibrary

open Build CircuitDef

/-- What keys of pins mean from a library to the sheet. -/
structure Keyed [Scalar α] (library : SymbolLibrary α) : Prop where
  /-- No two pins of a symbol have one number. -/
  nodup_numbers : ∀ id s, library.find? id = some s → (s.pins.map (·.number)).Nodup
  /-- The number of the pin that a key addresses addresses that very pin. -/
  findPin?_number : ∀ id s key p, library.find? id = some s → s.findPin? key = some p →
    s.findPin? p.number = some p
  /-- A number that stands for a key stands for itself. -/
  pinNumber?_again : ∀ id key n, library.source.pinNumber? id key = some n →
    library.source.pinNumber? id n = some n
  /-- Asked for at any two times, two keys of a component have one pin exactly when they
  address one pin of its symbol, or none and are the same. -/
  same_pin_iff : ∀ b : Build α, b.Numbers library.source.pinNumber? →
    ∀ i c, b.components[i]? = some c → ∀ key key' more,
      (∀ op ∈ more, op.Respects library.source.pinNumber? ∧ op.restarts = false) →
        ∃ p b₁ q b₂, pin i key b = .ok p b₁ ∧ pin i key' (b₁.run more) = .ok q b₂ ∧
          (p = q ↔ library.source.MeansSame c.symbol key key')
  /-- A key that has been brought into its form is asked for like the key itself. -/
  pin_canonicalKey : ∀ b : Build α, b.Numbers library.source.pinNumber? →
    ∀ i c, b.components[i]? = some c → ∀ key,
      pin i (library.source.canonicalKey c.symbol key) b = pin i key b
  /-- So it is when a definition is played: its keys may be brought into their form before. -/
  replay_eq : ∀ b : Build α, b.Numbers library.source.pinNumber? → ∀ circuit : CircuitDef α,
    circuit.replay library.source.pinNumber? b = circuit.replay literalPins b
  /-- The pin is put where the key lies that it was asked for by, whatever positions are set
  and whatever has been done before the netlist was handed out. -/
  puts : ∀ b : Build α, b.Numbers library.source.pinNumber? →
    ∀ i c, b.components[i]? = some c → ∀ key p b₁, pin i key b = .ok p b₁ → ∀ more,
      (∀ op ∈ more, op.Respects library.source.pinNumber? ∧ op.restarts = false) →
        ∀ m : Netlist α, m.withoutPositions = (b₁.run more).toNetlist.withoutPositions →
          m.Puts library.source p i c.symbol key
  /-- So is each pin that a definition mentions. -/
  puts_declared : ∀ (circuit : CircuitDef α) n,
    circuit.toNetlist library.source.pinNumber? = .ok n →
    ∀ text ∈ circuit.pinTexts, ∀ r, PinRef.parse? text = some r →
      ∀ d ∈ circuit.components, d.reference = r.reference →
        ∃ p i c, n.components[i]? = some c ∧ c.reference = d.reference ∧ c.symbol = d.symbol ∧
          c.marker = false ∧
          ∀ m : Netlist α, m.withoutPositions = n.withoutPositions →
            m.Puts library.source p i d.symbol r.key

/-- Keys mean the same throughout with every library that is made of definitions. -/
theorem ofDefs_keyed [Scalar α] {defs : List (SymbolDef α)} {library : SymbolLibrary α}
    (h : ofDefs defs = .ok library) : library.Keyed := by
  have hunique := ofDefs_uniquelyNumbered h
  exact {
    nodup_numbers := hunique
    findPin?_number := fun id s key p hs => Symbol.findPin?_number_of_nodup (hunique id s hs)
    pinNumber?_again := fun id key n hn => by
      obtain ⟨p, hp, rfl⟩ := Option.map_eq_some_iff.1 hn
      exact Option.map_eq_some_iff.2 ⟨p, hunique.address?_number hp, rfl⟩
    same_pin_iff := fun b hb i c hc key key' more hmore => by
      obtain ⟨p, b₁, q, b₂, hp, hq, hiff⟩ := hb.pin_eq_iff hc key key' hmore
      exact ⟨p, b₁, q, b₂, hp, hq, hiff.trans hunique.canonicalKey_eq_iff⟩
    pin_canonicalKey := fun b hb i c hc key => by
      have hform := pin_form hunique.settles hb.numbering_eq i key
      rwa [hc] at hform
    replay_eq := fun b hb circuit => (replay_sameUnder hunique.settles circuit b hb.numbering_eq).1
    puts := fun b hb i c hc key p b₁ hp more hmore m hsame => hb.puts hunique hc hp hmore hsame
    puts_declared := fun circuit n hn text htext r hr d hd => exists_puts hunique hn htext hr hd }

/-- A regulator whose first pin has the number of the second as its name, and two pins of one
name, and another one built on it whose second pin has the number of the first as its name. -/
def regulatorDefs : List (SymbolDef ℚ) :=
  [{ id := "My:Reg2", base := some "My:Reg", pins := [⟨"2", "1", 5, 0, 180, 2⟩] },
   { id := "My:Reg", pins := [⟨"1", "2", -5, 0, 0, 2⟩, ⟨"2", "GND", 0, -5, 90, 2⟩,
      ⟨"3", "GND", 5, 0, 180, 2⟩] }]

/-- Names that are numbers of other pins are not taken for them. -/
theorem regulatorDefs_keyed :
    ∃ library, ofDefs regulatorDefs = .ok library ∧ library.Keyed ∧
      ["1", "2", "GND", "EN"].map (library.source.pinNumber? "My:Reg2") =
        [some "1", some "2", some "3", none] := by
  have h : ofDefs regulatorDefs = .ok (regulatorDefs.reverse.foldl add ∅) := rfl
  exact ⟨_, h, ofDefs_keyed h, by decide +kernel⟩

end SymbolLibrary

end Schematic
