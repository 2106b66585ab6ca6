import Schematic.Proofs.Circuit.Realization
import Schematic.Proofs.Document.Identifiers
import Schematic.Proofs.Document.Keys
import Schematic.Proofs.Drawing.Contents
import Schematic.Symbol.Builtin

/-!
# The identifiers of a drawn circuit

In a circuit whose definition is accepted the designators are pairwise distinct, and
so are the pins of a component by their keys.  So everything on its sheet can be
told apart by names.  Whether the identifiers differ, too, is a matter of the keys
alone: new identifiers are fresh, and so they are distinct exactly when no two items
share a key.  Designators and pin numbers without underscores are enough for that.

## Main definitions

* `CircuitDef.Accepted` — what is known of the netlist of a definition.
* `Netlist.entities` — what has an identifier on the sheet of a circuit.
* `CircuitDef.PlainNames` — there are no underscores in the names of a circuit.

## Main statements

* `CircuitDef.accepted_of_toNetlist` — the netlist of a definition is as said.
* `CircuitDef.Accepted.keys_generate` — the keys of a sheet are those of its items.
* `CircuitDef.Accepted.nodup_entities` — no item is there twice.
* `CircuitDef.uuids_distinct_iff` — when the identifiers in a document are distinct.
-/

namespace Schematic

open Relation (ReflTransGen)

variable {α : Type} [Scalar α]

/-! ### The netlist of a definition -/

namespace CircuitDef

/-- The components of a definition have different designators, and its netlist has these
components, and each of their pins once. -/
structure Accepted (circuit : CircuitDef α) (n : Netlist α) : Prop where
  /-- The netlist is well-formed. -/
  wellFormed : n.WellFormed
  /-- What has a position is fixed. -/
  fixed : EveryEntry (fun c => c.fixed = c.position.isSome) n.components
  /-- Markers have no position. -/
  markers : EveryEntry (fun c => c.marker = true → c.position = none) n.components
  /-- The components have the designators that are declared. -/
  references : (n.components.toList.filter fun c => !c.marker).map (·.reference) =
    circuit.components.map (·.reference)
  /-- These are pairwise distinct. -/
  distinct : (circuit.components.map (·.reference)).Nodup
  /-- A pin is known by its component and its key. -/
  pin_unique : ∀ p q r, n.StandsFor p r → n.StandsFor q r → p = q

variable {circuit : CircuitDef α} {n : Netlist α}

omit [Scalar α] in
/-- Components that are found by their designators have different ones. -/
theorem nodup_of_refers {refs : Names} {a : Build α} (h : Refers refs a) :
    (a.components.toList.map (·.reference)).Nodup :=
  nodup_map_of_found (fun name => refs.lookup name) fun _ c hc => (h _ _).2 ⟨c, hc, rfl⟩

theorem Plays.accepted {numbering : PinNumbering} {kept : Option PinNumbering}
    {composables refs : Names} {a b c : Build α} {home : NetId → NetId}
    (h : circuit.Plays numbering kept composables refs a c b home) :
    circuit.Accepted b.toNetlist := by
  obtain ⟨start, hstart⟩ := h.grown
  have hchain : ReflTransGen Build.Growth start.cleared b := hstart.trans h.connects_all.chain
  have hempty : ∀ {P : Component α → Prop}, EveryEntry P start.cleared.components := fun _ _ hc =>
    absurd hc (by simp [Build.cleared])
  have hfixed : b.FixedPlaced := Build.growth_chain (fun _ _ g h => h.grow g) hchain
    ⟨hempty, fun _ _ hc => absurd hc (by simp [Build.cleared])⟩
  have hmarkers : b.MarkersUnplaced := Build.growth_chain (fun _ _ g h => h.grow g) hchain hempty
  have hreferences : (b.components.toList.filter fun c => !c.marker).map (·.reference) =
      a.components.toList.map (·.reference) := by
    rw [← h.map_bare, List.map_map]
    rfl
  have hdeclared : circuit.components.map (·.reference) =
      a.components.toList.map (·.reference) := by
    refine List.forall₂_eq_eq_eq ▸ ?_
    rw [List.forall₂_map_left_iff, List.forall₂_map_right_iff]
    exact h.components.imp fun d c hd => hd.reference_eq.symm
  exact {
    wellFormed := Build.toNetlist_wellFormed (h.wellFormed_of h.connects_all)
    fixed := hfixed.component
    markers := hmarkers
    references := hreferences.trans hdeclared.symm
    distinct := hdeclared ▸ nodup_of_refers h.refers
    pin_unique := fun _ _ _ hp hq => h.pin_unique hp hq }

theorem accepted_of_toNetlist {numbering : PinNumbering}
    (ok : circuit.toNetlist numbering = .ok n) : circuit.Accepted n := by
  rw [toNetlist] at ok
  split at ok
  · next u b hreplay =>
    cases ok
    obtain ⟨composables, refs, a, c, home, h⟩ := plays_of_ok hreplay
    exact h.accepted
  · cases ok

theorem Accepted.completes (h : circuit.Accepted n) (symbols : SymbolSource α)
    (config : PlacementConfig α) : n.Completes (n.place symbols config).1 :=
  Netlist.place_completed h.wellFormed h.fixed h.markers symbols config

end CircuitDef

/-! ### What has an identifier -/

namespace Netlist

variable {n : Netlist α}

/-- The reference to a pin. -/
def refOf (n : Netlist α) (pin : PinId) : PinRef :=
  match n.pins[pin]? with
  | some p => ⟨n.referenceOf p, p.key⟩
  | none => default

/-- The pins that are marked as unconnected, except for those of markers. -/
def flaggedPins (n : Netlist α) : List PinId :=
  (n.pins.toList.filter fun p => p.noConnect && !n.isMarkerPin p.id).map (·.id)

/-- The pins at which power symbols stand. -/
def poweredPins (n : Netlist α) : List PinId := n.poweredNets.flatMap n.functionalPins

/-- What has an identifier on a sheet of the circuit, in the order of the document. -/
def entities (n : Netlist α) (config : Config α) (s : Sheet α) : List Entity :=
  .sheet :: s.wires.map (fun w => .wire w.key) ++ n.flaggedPins.map (fun p => .flag (n.refOf p)) ++
    s.symbols.flatMap (fun i => Entity.ofSymbol i.reference i.pins) ++
    (if config.drawing.emitWires then n.poweredPins else []).flatMap fun p =>
      Entity.ofPower (n.refOf p)

omit [Scalar α] in
/-- A pin of a component that is no marker has its reference. -/
theorem WellFormed.standsFor_refOf (h : n.WellFormed) {pin : PinId} (hlt : pin < n.pins.size)
    (hmarker : n.isMarkerPin pin = false) : n.StandsFor pin (n.refOf pin) := by
  have hp := Array.getElem?_eq_getElem hlt
  obtain ⟨c, hc⟩ : ∃ c, n.components[n.pins[pin].component]? = some c :=
    ⟨_, Array.getElem?_eq_getElem (h.component_lt hp)⟩
  rw [isMarkerPin, owner?, hp, Option.bind_some, hc] at hmarker
  exact ⟨_, c, hp, hc, hmarker, by simp only [refOf, hp, referenceOf, hc]; rfl⟩

omit [Scalar α] in
theorem WellFormed.of_mem_flaggedPins (h : n.WellFormed) {pin : PinId} (hp : pin ∈ n.flaggedPins) :
    n.StandsFor pin (n.refOf pin) := by
  obtain ⟨p, hmem, rfl⟩ := List.mem_map.1 hp
  obtain ⟨hpin, hkind⟩ := List.mem_filter.1 hmem
  rw [Bool.and_eq_true, Bool.not_eq_true'] at hkind
  obtain ⟨i, hi⟩ := Array.mem_iff_getElem?.1 (Array.mem_toList_iff.1 hpin)
  have hid : p.id = i := h.circuit.numbered.pin i p hi
  exact h.standsFor_refOf (hid ▸ (Array.getElem?_eq_some_iff.1 hi).1) hkind.2

omit [Scalar α] in
theorem WellFormed.of_mem_functionalPins (h : n.WellFormed) {net : NetId} {pin : PinId}
    (hp : pin ∈ n.functionalPins net) : n.StandsFor pin (n.refOf pin) := by
  obtain ⟨x, c, hx, -⟩ := (h.mem_functionalPins_iff net pin).1 hp
  exact h.standsFor_refOf (Array.getElem?_eq_some_iff.1 hx).1
    (by simpa using (List.mem_filter.1 hp).2)

omit [Scalar α] in
theorem WellFormed.nodup_flaggedPins (h : n.WellFormed) : n.flaggedPins.Nodup := by
  have hids : (n.pins.toList.map (·.id)).Nodup :=
    nodup_map_of_found some fun i p hp => congrArg some (h.circuit.numbered.pin i p hp)
  exact hids.sublist (List.filter_sublist.map _)

omit [Scalar α] in
theorem WellFormed.nodup_poweredPins (h : n.WellFormed) : n.poweredPins.Nodup := by
  refine List.nodup_flatMap.2 ⟨fun k _ => h.functionalPins_nodup k, ?_⟩
  refine (List.nodup_range.filter _).imp fun {k m} hne p hk hm => ?_
  rw [h.mem_functionalPins_iff] at hk hm
  exact hne (hk.net_eq hm)

end Netlist

/-! ### The keys of a sheet -/

namespace DrawingContext

variable {ctx : DrawingContext α} {n : Netlist α}

omit [Scalar α] in
/-- A pin is called on the sheet as in the circuit. -/
theorem pinKey_eq_joined (hsame : ctx.netlist.withoutPositions = n.withoutPositions) {pin : PinId}
    {p : Pin} (hp : n.pins[pin]? = some p) : ctx.pinKey p = Entity.joined (n.refOf pin) := by
  have hreference : ctx.netlist.referenceOf p = n.referenceOf p := by
    rw [← Netlist.referenceOf_withoutPositions, hsame, Netlist.referenceOf_withoutPositions]
  rw [pinKey, hreference, Entity.joined, Netlist.refOf, hp]

/-- No two wires of a sheet have one key. -/
theorem nodup_keys_wires (ctx : DrawingContext α) : (ctx.sheet.1.wires.map (·.key)).Nodup := by
  cases hemit : ctx.config.drawing.emitWires with
  | true =>
    rw [(sheet_of_wires hemit).2.2]
    exact nodup_keys_dedupWires _
  | false =>
    rw [(sheet_of_no_wires hemit).2.2]
    exact List.nodup_nil

/-- The keys of the flags are those of the pins. -/
theorem keys_noConnects (hwf : n.WellFormed) (h : n.Completes ctx.netlist)
    (hterminals : ctx.terminals = ctx.netlist.terminals ctx.symbols) :
    ctx.sheet.1.noConnects.map (·.key) =
      n.flaggedPins.map fun p => (Entity.flag (n.refOf p)).key := by
  have hkeys : (n.pins.toList.filter fun p => p.noConnect && !n.isMarkerPin p.id).map
      (fun p => ctx.pinKey p ++ "_nc") = ctx.sheet.1.noConnects.map (·.key) := by
    rw [noConnects_sheet]
    refine map_eq_of_forall₂ (fun p f hf => ?_) (forall₂_noConnects hwf h hterminals)
    obtain ⟨t, -, rfl⟩ := hf
    rfl
  rw [← hkeys, Netlist.flaggedPins, List.map_map]
  refine List.map_congr_left fun p hp => ?_
  obtain ⟨i, hi⟩ := Array.mem_iff_getElem?.1 (Array.mem_toList_iff.1 (List.mem_filter.1 hp).1)
  have hid : p.id = i := hwf.circuit.numbered.pin i p hi
  rw [pinKey_eq_joined h.same (hid ▸ hi)]
  rfl

/-- The keys of the power symbols are those of their pins. -/
theorem keys_power (hwf : n.WellFormed) (h : n.Completes ctx.netlist)
    (hterminals : ctx.terminals = ctx.netlist.terminals ctx.symbols) :
    ctx.sheet.1.power.map (·.key) =
      (if ctx.config.drawing.emitWires then n.poweredPins else []).map
        fun p => (Entity.power (n.refOf p)).key := by
  cases hemit : ctx.config.drawing.emitWires with
  | false =>
    rw [(sheet_of_no_wires hemit).1]
    rfl
  | true =>
    rw [(sheet_of_wires hemit).1, power_wiring, Netlist.poweredNets_of_same h.same, if_pos rfl,
      Netlist.poweredPins, List.map_flatMap, List.map_flatMap]
    refine List.flatMap_congr fun net _ => ?_
    rw [List.map_map]
    refine (map_eq_of_forall₂ (fun p t ht => ?_)
      (forall₂_netTerminals hwf h hterminals net)).symm
    obtain ⟨x, hx, hterminal⟩ := ht
    have hpin : t.pin = p := by
      rw [Netlist.pin_eq_of_terminal? hterminal]
      rw [Netlist.pins_of_same h.same] at hx
      exact hwf.circuit.numbered.pin p x hx
    have hkey : (ctx.powerSymbol net t).key = ctx.pinKey x ++ "_pwr" := by
      simp only [powerSymbol, hpin, hx, Option.map_some, Option.getD_some]
    rw [Function.comp_apply, hkey, pinKey_eq_joined h.same (Netlist.pins_of_same h.same ▸ hx)]
    rfl

/-- The keys of a sheet are those of what stands on it. -/
theorem keys_sheet (hwf : n.WellFormed) (h : n.Completes ctx.netlist)
    (hterminals : ctx.terminals = ctx.netlist.terminals ctx.symbols) :
    ctx.sheet.1.keys = (n.entities ctx.config ctx.sheet.1).map Entity.key := by
  have hsymbols : ctx.sheet.1.symbols.flatMap (fun i => i.reference :: i.pins.map i.pinKey) =
      (ctx.sheet.1.symbols.flatMap fun i => Entity.ofSymbol i.reference i.pins).map
        Entity.key := by
    rw [List.map_flatMap]
    refine List.flatMap_congr fun i _ => ?_
    rw [Entity.ofSymbol, List.map_cons, List.map_map]
    rfl
  have hpower : ctx.sheet.1.power.flatMap (fun p => [p.key, p.pinKey]) =
      ((if ctx.config.drawing.emitWires then n.poweredPins else []).flatMap fun p =>
        Entity.ofPower (n.refOf p)).map Entity.key := by
    have hboth : ctx.sheet.1.power.flatMap (fun p => [p.key, p.pinKey]) =
        (ctx.sheet.1.power.map (·.key)).flatMap fun key => [key, key ++ "_1"] := by
      rw [List.flatMap_map]
      rfl
    rw [hboth, keys_power hwf h hterminals, List.flatMap_map, List.map_flatMap]
    rfl
  rw [Sheet.keys, Netlist.entities, keys_noConnects hwf h hterminals, hsymbols, hpower]
  simp only [List.map_append, List.map_cons, List.map_map]
  rfl

end DrawingContext

namespace CircuitDef

variable {circuit : CircuitDef α} {n : Netlist α} {symbols : SymbolSource α} {config : Config α}

/-- The keys of the sheet of a circuit are those of what stands on it. -/
theorem Accepted.keys_generate (h : circuit.Accepted n) :
    (n.generate symbols config).sheet.keys =
      (n.entities config (n.generate symbols config).sheet).map Entity.key :=
  (n.drawingContext symbols config).keys_sheet h.wellFormed (h.completes symbols _) rfl

/-! ### Nothing is there twice -/

omit [Scalar α] in
theorem Accepted.nodup_map_refOf (h : circuit.Accepted n) {pins : List PinId} (hnodup : pins.Nodup)
    (hpins : ∀ p ∈ pins, n.StandsFor p (n.refOf p)) : (pins.map n.refOf).Nodup :=
  hnodup.map_on fun p hp q hq heq => h.pin_unique p q _ (hpins p hp) (heq ▸ hpins q hq)

/-- The symbols of a sheet have the designators that are declared. -/
theorem Accepted.references_sheet (h : circuit.Accepted n) :
    (n.generate symbols config).sheet.symbols.map (·.reference) =
      if config.drawing.emitSymbols then circuit.components.map (·.reference) else [] := by
  let ctx := n.drawingContext symbols config
  change ctx.sheet.1.symbols.map (·.reference) = _
  rw [ctx.symbols_sheet, ← h.references, apply_ite (List.map _)]
  refine if_congr Iff.rfl (Eq.symm ?_) rfl
  exact map_eq_of_forall₂ (fun c i hi => hi.reference.symm)
    (ctx.forall₂_symbols h.wellFormed (h.completes symbols _))

theorem Accepted.nodup_references (h : circuit.Accepted n) :
    ((n.generate symbols config).sheet.symbols.map (·.reference)).Nodup := by
  rw [h.references_sheet]
  split
  · exact h.distinct
  · exact List.nodup_nil

/-- No item of a sheet is there twice, if no symbol has two pins of one number. -/
theorem Accepted.nodup_entities (h : circuit.Accepted n)
    (hpins : ∀ i ∈ (n.generate symbols config).sheet.symbols, i.pins.Nodup) :
    (n.entities config (n.generate symbols config).sheet).Nodup := by
  let s := (n.generate symbols config).sheet
  have hsheet : [Entity.sheet].Nodup ∧ ∀ x ∈ [Entity.sheet], x.place < 1 := by decide
  have hwires : (s.wires.map fun w => Entity.wire w.key).Nodup := by
    have hkeys : (s.wires.map (·.key)).Nodup := DrawingContext.nodup_keys_wires _
    have hall := hkeys.map (f := Entity.wire) fun k l heq => Entity.wire.inj heq
    rwa [List.map_map] at hall
  have hflags : (n.flaggedPins.map fun p => Entity.flag (n.refOf p)).Nodup := by
    have hrefs := h.nodup_map_refOf h.wellFormed.nodup_flaggedPins fun p hp =>
      h.wellFormed.of_mem_flaggedPins hp
    have hall := hrefs.map (f := Entity.flag) fun p q heq => Entity.flag.inj heq
    rwa [List.map_map] at hall
  have hpower : ((if config.drawing.emitWires then n.poweredPins else []).flatMap fun p =>
      Entity.ofPower (n.refOf p)).Nodup := by
    rw [← List.flatMap_map]
    refine Entity.nodup_flatMap_ofPower ?_
    split
    · exact h.nodup_map_refOf h.wellFormed.nodup_poweredPins fun p hp => by
        obtain ⟨net, -, hp⟩ := List.mem_flatMap.1 hp
        exact h.wellFormed.of_mem_functionalPins hp
    · exact List.nodup_nil
  have hthrough := Entity.nodup_append_of_place (Entity.nodup_append_of_place
    (Entity.nodup_append_of_place (Entity.nodup_append_of_place hsheet hwires ?_) hflags ?_)
    (Entity.nodup_flatMap_ofSymbol h.nodup_references hpins) ?_) hpower ?_
  · exact hthrough.1
  · exact List.forall_mem_map.2 fun w _ => rfl
  · exact List.forall_mem_map.2 fun p _ => rfl
  · intro x hx
    obtain ⟨i, -, hx⟩ := List.mem_flatMap.1 hx
    exact Entity.place_of_mem_ofSymbol hx
  · intro x hx
    obtain ⟨p, -, hx⟩ := List.mem_flatMap.1 hx
    exact Entity.place_of_mem_ofPower hx

/-! ### Identifiers that are distinct -/

/-- The designators of a circuit have no underscores and are not the name of the sheet, and no pin
of a symbol on the sheet has an underscore in its number. -/
structure PlainNames (circuit : CircuitDef α) (s : Sheet α) : Prop where
  /-- The designators have no underscores. -/
  references : ∀ c ∈ circuit.components, '_' ∉ c.reference.toList
  /-- None is that of the sheet. -/
  not_sheet : ∀ c ∈ circuit.components, c.reference ≠ Sheet.sheetKey
  /-- The numbers of the pins have no underscores. -/
  numbers : ∀ i ∈ s.symbols, ∀ number ∈ i.pins, '_' ∉ number.toList

omit [Scalar α] in
theorem Accepted.mem_references (h : circuit.Accepted n) {c : Component α}
    (hc : c ∈ n.components.toList) (hmarker : c.marker = false) :
    ∃ d ∈ circuit.components, d.reference = c.reference := by
  have hmem : c.reference ∈ circuit.components.map (·.reference) := by
    rw [← h.references]
    exact List.mem_map_of_mem (List.mem_filter.2 ⟨hc, by rw [hmarker]; rfl⟩)
  exact List.mem_map.1 hmem

omit [Scalar α] in
theorem Accepted.plain_standsFor (h : circuit.Accepted n) {s : Sheet α}
    (hplain : circuit.PlainNames s) {pin : PinId} {r : PinRef} (hr : n.StandsFor pin r) :
    '_' ∉ r.reference.toList := by
  obtain ⟨p, c, -, hc, hmarker, rfl⟩ := hr
  obtain ⟨d, hd, heq⟩ := h.mem_references
    (Array.mem_toList_iff.2 (Array.mem_of_getElem? hc)) hmarker
  exact heq ▸ hplain.references d hd

/-- With plain names in the circuit the items of its sheet are plain. -/
theorem Accepted.plain_entities (h : circuit.Accepted n)
    (hplain : circuit.PlainNames (n.generate symbols config).sheet) :
    ∀ x ∈ n.entities config (n.generate symbols config).sheet, x.Plain := by
  have hsymbol : ∀ i ∈ (n.generate symbols config).sheet.symbols,
      ∃ d ∈ circuit.components, d.reference = i.reference := by
    intro i hi
    have hmem := List.mem_map_of_mem (f := SymbolInstance.reference) hi
    rw [h.references_sheet] at hmem
    split at hmem
    · exact List.mem_map.1 hmem
    · cases hmem
  intro x hx
  simp only [Netlist.entities, List.cons_append, List.mem_cons, List.mem_append, List.mem_map,
    List.mem_flatMap] at hx
  rcases hx with rfl | ((⟨w, -, rfl⟩ | ⟨p, hp, rfl⟩) | ⟨i, hi, hx⟩) | ⟨p, hp, hx⟩
  · trivial
  · trivial
  · exact h.plain_standsFor hplain (h.wellFormed.of_mem_flaggedPins hp)
  · obtain ⟨d, hd, hreference⟩ := hsymbol i hi
    have hstem : '_' ∉ i.reference.toList := hreference ▸ hplain.references d hd
    rcases List.mem_cons.1 hx with rfl | hx
    · exact ⟨hstem, hreference ▸ hplain.not_sheet d hd⟩
    · obtain ⟨number, hnumber, rfl⟩ := List.mem_map.1 hx
      exact ⟨hstem, hplain.numbers i hi number hnumber⟩
  · have hstem : '_' ∉ (n.refOf p).reference.toList := by
      split at hp
      · obtain ⟨net, -, hp⟩ := List.mem_flatMap.1 hp
        exact h.plain_standsFor hplain (h.wellFormed.of_mem_functionalPins hp)
      · cases hp
    simp only [Entity.ofPower, List.mem_cons, List.not_mem_nil, or_false] at hx
    rcases hx with rfl | rfl
    · exact hstem
    · exact hstem

/-- The identifiers in the document of an accepted circuit are those of what stands on its sheet,
and nothing stands there twice.  So the identifiers are distinct exactly when no two items share
a key, and no two do when the names are plain. -/
theorem uuids_distinct_iff {numbering : PinNumbering} (ok : circuit.toNetlist numbering = .ok n)
    {ids : IdMap} {mint : String → String}
    (hnew : ids.Fresh mint (n.generate symbols config).sheet.keys)
    (hpins : ∀ i ∈ (n.generate symbols config).sheet.symbols, i.pins.Nodup) :
    let sheet := (n.generate symbols config).sheet
    let items := n.entities config sheet
    let uuids := (sheet.document symbols (ids.idFor mint)).uuids
    uuids = items.map (fun x => ids.idFor mint x.key) ∧ items.Nodup ∧
      (uuids.Nodup ↔ Set.InjOn Entity.key {x | x ∈ items}) ∧
      (circuit.PlainNames sheet → uuids.Nodup) := by
  intro sheet items uuids
  have h := accepted_of_toNetlist ok
  have hkeys : sheet.keys = items.map Entity.key := h.keys_generate
  have huuids : uuids = items.map fun x => ids.idFor mint x.key := by
    calc uuids = sheet.keys.map (ids.idFor mint) := Sheet.uuids_document ..
      _ = items.map fun x => ids.idFor mint x.key := by rw [hkeys, List.map_map]; rfl
  have hitems : items.Nodup := h.nodup_entities hpins
  have hinj : Set.InjOn (ids.idFor mint) {key | key ∈ items.map Entity.key} :=
    hkeys ▸ hnew.idFor_injOn
  have hiff : uuids.Nodup ↔ Set.InjOn Entity.key {x | x ∈ items} := by
    rw [huuids, List.nodup_map_iff_inj_on hitems]
    refine ⟨fun hall x hx y hy heq => hall x hx y hy (congrArg _ heq), fun hall x hx y hy heq => ?_⟩
    exact hall hx hy (hinj (List.mem_map_of_mem hx) (List.mem_map_of_mem hy) heq)
  exact ⟨huuids, hitems, hiff, fun hplain => hiff.2 (Entity.key_injOn.mono fun x hx =>
    h.plain_entities hplain x hx)⟩

/-- A resistor at a connector, one pin of which is free. -/
def lamp : CircuitDef ℚ where
  name := "lamp"
  components :=
    [{ reference := "R1", symbol := "Device:R" },
      { reference := "J1", symbol := "Connector:Conn_01x03" }]
  nets :=
    [{ name := some "OUT", pins := ["J1.1", "R1.1"] },
      { name := some "GND", pins := ["R1.2", "J1.2"] }]
  noConnects := [{ pin := "J1.3" }]

/-- The identifiers in the document of the lamp are distinct. -/
theorem lamp_uuids_nodup : ∃ n, lamp.toNetlist literalPins = .ok n ∧
    ((n.generate SymbolLibrary.builtin.source default).sheet.document
      SymbolLibrary.builtin.source (IdMap.idFor id ∅)).uuids.Nodup := by
  have hdrawn : (match lamp.toNetlist literalPins with
      | .ok n => (n.generate SymbolLibrary.builtin.source default).sheet.symbols.all fun i =>
          decide (i.pins.Nodup ∧ ∀ number ∈ i.pins, '_' ∉ number.toList)
      | .error _ => false) = true := by decide +kernel
  split at hdrawn
  · next n ok =>
    have hpins := fun i hi => of_decide_eq_true (List.all_eq_true.1 hdrawn i hi)
    have hplain : lamp.PlainNames (n.generate SymbolLibrary.builtin.source default).sheet :=
      ⟨by decide, by decide, fun i hi => (hpins i hi).2⟩
    exact ⟨n, ok, (uuids_distinct_iff ok (IdMap.fresh_empty Function.injective_id _)
      fun i hi => (hpins i hi).1).2.2.2 hplain⟩
  · cases hdrawn

/-- Two resistors, the second one called like a pin of the first one in its key. -/
def twins : CircuitDef ℚ where
  name := "twin"
  components :=
    [{ reference := "R1", symbol := "Device:R" }, { reference := "R1_1", symbol := "Device:R" }]

/-- Two items in the document of the twins have one identifier, though new ones are fresh. -/
theorem twins_share_uuid : ∃ n, twins.toNetlist literalPins = .ok n ∧
    (∅ : IdMap).Fresh id (n.generate SymbolLibrary.builtin.source default).sheet.keys ∧
    (∀ i ∈ (n.generate SymbolLibrary.builtin.source default).sheet.symbols, i.pins.Nodup) ∧
    ¬ ((n.generate SymbolLibrary.builtin.source default).sheet.document
      SymbolLibrary.builtin.source (IdMap.idFor id ∅)).uuids.Nodup := by
  have hdrawn : (match twins.toNetlist literalPins with
      | .ok n =>
          let sheet := (n.generate SymbolLibrary.builtin.source default).sheet
          sheet.symbols.all (fun i => decide i.pins.Nodup) && decide ¬ sheet.keys.Nodup
      | .error _ => false) = true := by decide +kernel
  split at hdrawn
  · next n ok =>
    obtain ⟨hpins, hkeys⟩ := Bool.and_eq_true_iff.1 hdrawn
    refine ⟨n, ok, IdMap.fresh_empty Function.injective_id _,
      fun i hi => of_decide_eq_true (List.all_eq_true.1 hpins i hi), ?_⟩
    have hsame : IdMap.idFor id ∅ = id := rfl
    rw [Sheet.uuids_document, hsame, List.map_id]
    exact of_decide_eq_true hkeys
  · cases hdrawn

end CircuitDef

end Schematic
