import Schematic.Proofs.Number.Exact
import Schematic.Proofs.Symbol.Order
import Schematic.Symbol.Builtin

/-!
# Symbol libraries

A library is made exactly when the chains of bases of all definitions end, and
then it has the symbols at the ends of the chains and no others.  Everything else
follows from this: the order of the definitions does not matter, and definitions
that are put over others change nothing but what is built on them.

## Main definitions

* `SymbolLibrary.Accounts` — what is made of a list of definitions.

## Main statements

* `SymbolLibrary.find?_written` — the symbols of definitions that are written down bases first.
* `SymbolLibrary.ofDefs_outcome` — a library has the symbols of its definitions.
* `SymbolLibrary.overlay_find?` — what is not built on a replaced definition stays.
* `SymbolLibrary.ofDefs_accounts` — all of this, for every list of definitions with
  different names.
-/

namespace Schematic

open SymbolDef

variable {α : Type} {defs : List (SymbolDef α)}

namespace SymbolLibrary

/-! ### Definitions by name -/

section ById

variable (distinct : (defs.map (·.id)).Nodup)
include distinct

theorem nodup_names_byId : ((defs.map fun d => (d.id, d)).map Prod.fst).Nodup := by
  rwa [List.map_map]

theorem indexes_byId : Indexes (byId defs) defs := by
  intro id d
  rw [byId, Table.find?_ofList (nodup_names_byId distinct), List.mem_map]
  constructor
  · rintro ⟨b, hb, heq⟩
    cases heq
    exact ⟨hb, rfl⟩
  · rintro ⟨hd, rfl⟩
    exact ⟨d, hd, rfl⟩

theorem entries_byId_perm : ((byId defs).entries.map Prod.snd).Perm defs := by
  have hperm := (Table.entries_ofList_perm (nodup_names_byId distinct)).map Prod.snd
  rwa [List.map_map, Function.comp_def, List.map_id'] at hperm

theorem size_byId : (byId defs).size = defs.length := by
  rw [Table.size, ← (entries_byId_perm distinct).length_eq, List.length_map]

theorem mem_of_mem_entries_byId : ∀ e ∈ (byId defs).entries, e.2 ∈ defs := fun _ he =>
  (entries_byId_perm distinct).subset (List.mem_map_of_mem he)

theorem byId_eq_of_perm {defs' : List (SymbolDef α)} (hperm : defs.Perm defs') :
    byId defs' = byId defs :=
  (Table.ofList_eq_of_perm (nodup_names_byId distinct) (hperm.map _)).symm

end ById

/-! ### The order -/

/-- What the answer says of the order: it has all definitions, each after its base, or
the chain of bases of some definition does not end. -/
def OrderOutcome (defs : List (SymbolDef α)) :
    Except SymbolError (List (SymbolDef α)) → Prop
  | .ok order => BasesFirst defs order.reverse ∧ ∀ d ∈ defs, d ∈ order
  | .error e => Blames defs e

section Ordered

variable (distinct : (defs.map (·.id)).Nodup) {fuel : Nat} (hfuel : defs.length < fuel)
include distinct hfuel

theorem ordered_outcome : OrderOutcome defs (ordered (byId defs) fuel) := by
  have hout := visitAll_outcome distinct (indexes_byId distinct) hfuel
    (mem_of_mem_entries_byId distinct) (w := {}) ⟨by simp, .nil⟩ rfl
  change OrderOutcome defs
    ((visitAll (byId defs) fuel {} (byId defs).entries).bind fun w => .ok w.order.reverse)
  cases hvisits : visitAll (byId defs) fuel {} (byId defs).entries with
  | error e =>
    rw [hvisits] at hout
    exact hout
  | ok w =>
    rw [hvisits] at hout
    obtain ⟨hcontinues, hseen⟩ := hout
    refine ⟨?_, fun d hd => ?_⟩
    · rw [List.reverse_reverse]
      exact hcontinues.sound.basesFirst
    · have hid := hseen d ((entries_byId_perm distinct).mem_iff.2 hd)
      obtain ⟨b, hb, hid⟩ := (hcontinues.sound.seen_iff d.id).1 hid
      obtain rfl := eq_of_id_eq distinct (hcontinues.sound.basesFirst.mem hb) hd hid
      exact List.mem_reverse.2 hb

theorem ordered_more (more : Nat) :
    ordered (byId defs) (fuel + more) = ordered (byId defs) fuel := by
  induction more with
  | zero => rfl
  | succ more ih =>
    have hstep := visitAll_more distinct (indexes_byId distinct) (Nat.lt_add_right more hfuel)
      (mem_of_mem_entries_byId distinct) (w := {}) ⟨by simp, .nil⟩ rfl
    rw [← ih]
    exact congrArg (Except.bind · fun w => .ok w.order.reverse) hstep

end Ordered

/-! ### The symbols -/

variable [Scalar α]

/-- The library of definitions that are written down, the last one first. -/
def written (order : List (SymbolDef α)) : SymbolLibrary α :=
  order.foldr (fun d library => library.add d) ∅

theorem find?_add (library : SymbolLibrary α) (d : SymbolDef α) (id : String) :
    (library.add d).find? id =
      if d.id = id then
        some (d.derive ((d.base.bind library.find?).getD (SymbolDef.blank d.id)))
      else library.find? id :=
  Table.find?_insert ..

theorem exists_of_find?_written {order : List (SymbolDef α)} {id : String} {s : Symbol α}
    (h : (written order).find? id = some s) : ∃ d ∈ order, d.id = id := by
  induction order with
  | nil => cases h
  | cons d order ih =>
    change ((written order).add d).find? id = some s at h
    rw [find?_add] at h
    split at h
    · next heq => exact ⟨d, List.mem_cons_self, heq⟩
    · obtain ⟨b, hb, hid⟩ := ih h
      exact ⟨b, List.mem_cons_of_mem d hb, hid⟩

/-- The symbol of a definition is there when those of its bases are. -/
theorem find?_written (distinct : (defs.map (·.id)).Nodup) {order : List (SymbolDef α)}
    (h : BasesFirst defs order) {d : SymbolDef α} (hd : d ∈ order) :
    ∃ s, (written order).find? d.id = some s ∧ Resolves defs d s := by
  induction h generalizing d with
  | nil => cases hd
  | @cons c order listed base before ih =>
    change ∃ s, ((written order).add c).find? d.id = some s ∧ Resolves defs d s
    rw [find?_add]
    by_cases hid : c.id = d.id
    · obtain rfl := eq_of_id_eq distinct listed ((BasesFirst.cons listed base before).mem hd) hid
      refine ⟨_, if_pos rfl, ?_⟩
      cases hbase : c.base with
      | none => exact .root hbase (derives_derive c List.nodup_nil)
      | some id =>
        obtain ⟨b, hb, rfl⟩ := base id hbase
        obtain ⟨t, ht, hresolves⟩ := ih hb
        rw [Option.bind_some, ht]
        exact .step ⟨before.mem hb, hbase⟩ hresolves (derives_derive c hresolves.nodup)
    · rw [if_neg hid]
      rcases List.mem_cons.1 hd with rfl | hd
      · exact absurd rfl hid
      · exact ih hd

/-! ### Libraries -/

/-- A library has the symbols of its definitions, or the chain of bases of some definition
does not end. -/
def LibraryOutcome (defs : List (SymbolDef α)) : Except SymbolError (SymbolLibrary α) → Prop
  | .ok library =>
      (∀ d ∈ defs, Grounded defs d) ∧
        ∀ id s, library.find? id = some s ↔ ∃ d ∈ defs, d.id = id ∧ Resolves defs d s
  | .error e => Blames defs e

theorem ofDefs_outcome (distinct : (defs.map (·.id)).Nodup) :
    LibraryOutcome defs (ofDefs defs) := by
  have hout := ordered_outcome distinct
    (show defs.length < (byId defs).size + 1 by rw [size_byId distinct]; omega)
  change LibraryOutcome defs
    ((ordered (byId defs) ((byId defs).size + 1)).bind fun order => .ok (order.foldl add ∅))
  cases horder : ordered (byId defs) ((byId defs).size + 1) with
  | error e =>
    rw [horder] at hout
    exact hout
  | ok order =>
    rw [horder] at hout
    obtain ⟨hfirst, hall⟩ := hout
    have hmem : ∀ d ∈ defs, d ∈ order.reverse := fun d hd => List.mem_reverse.2 (hall d hd)
    have hwritten : order.foldl add ∅ = written order.reverse := by
      rw [written, List.foldr_reverse]
    change LibraryOutcome defs (.ok (order.foldl add ∅))
    rw [hwritten]
    refine ⟨fun d hd => hfirst.grounded (hmem d hd), fun id s => ⟨fun hs => ?_, ?_⟩⟩
    · obtain ⟨d, hd, rfl⟩ := exists_of_find?_written hs
      obtain ⟨t, ht, hresolves⟩ := find?_written distinct hfirst hd
      obtain rfl := Option.some.inj (hs.symm.trans ht)
      exact ⟨d, hfirst.mem hd, rfl, hresolves⟩
    · rintro ⟨d, hd, rfl, hresolves⟩
      obtain ⟨t, ht, hresolves'⟩ := find?_written distinct hfirst (hmem d hd)
      rw [ht, hresolves.unique distinct hresolves']

theorem ofDefs_ok_iff (distinct : (defs.map (·.id)).Nodup) :
    (∃ library, ofDefs defs = .ok library) ↔ ∀ d ∈ defs, Grounded defs d := by
  have hout := ofDefs_outcome distinct
  cases hdefs : ofDefs defs with
  | ok library =>
    rw [hdefs] at hout
    exact ⟨fun _ => hout.1, fun _ => ⟨library, rfl⟩⟩
  | error e =>
    rw [hdefs] at hout
    obtain ⟨d, hd, hnot⟩ := Blames.exists_not_grounded distinct hout
    exact ⟨fun ⟨_, h⟩ => (nomatch h), fun h => absurd (h d hd) hnot⟩

theorem ofDefs_find?_iff (distinct : (defs.map (·.id)).Nodup) {library : SymbolLibrary α}
    (h : ofDefs defs = .ok library) (id : String) (s : Symbol α) :
    library.find? id = some s ↔ ∃ d ∈ defs, d.id = id ∧ Resolves defs d s := by
  have hout := ofDefs_outcome distinct
  rw [h] at hout
  exact hout.2 id s

/-! ### Definitions put over others -/

omit [Scalar α] in
theorem mem_overlay_iff {extra : List (SymbolDef α)} {d : SymbolDef α} :
    d ∈ overlay defs extra ↔ (d ∈ defs ∧ ∀ e ∈ extra, e.id ≠ d.id) ∨ d ∈ extra := by
  simp [overlay]

omit [Scalar α] in
theorem nodup_overlay {extra : List (SymbolDef α)} (distinct : (defs.map (·.id)).Nodup)
    (hextra : (extra.map (·.id)).Nodup) : ((overlay defs extra).map (·.id)).Nodup := by
  rw [overlay, List.map_append]
  refine List.Nodup.append ((List.filter_sublist.map _).nodup distinct) hextra ?_
  intro id hid hidExtra
  obtain ⟨d, hd, rfl⟩ := List.mem_map.1 hid
  obtain ⟨e, he, heq⟩ := List.mem_map.1 hidExtra
  have hkept := (List.mem_filter.1 hd).2
  simp only [Bool.not_eq_true', List.any_eq_false, beq_iff_eq] at hkept
  exact hkept e he heq

/-- No definition on a chain of bases is replaced. -/
def Untouched (defs extra : List (SymbolDef α)) (d : SymbolDef α) : Prop :=
  ∀ b, Relation.ReflTransGen (Extends defs) d b → ∀ e ∈ extra, e.id ≠ b.id

/-- What is not built on a replaced definition stays. -/
theorem overlay_find? {extra : List (SymbolDef α)} (distinct : (defs.map (·.id)).Nodup)
    (hextra : (extra.map (·.id)).Nodup) {library library' : SymbolLibrary α}
    (h : ofDefs defs = .ok library) (h' : ofDefs (overlay defs extra) = .ok library')
    {d : SymbolDef α} (hd : d ∈ defs) (huntouched : Untouched defs extra d) :
    ∃ s, library.find? d.id = some s ∧ library'.find? d.id = some s := by
  obtain ⟨s, hs⟩ := ((ofDefs_ok_iff distinct).1 ⟨library, h⟩ d hd).exists_resolves
  refine ⟨s, (ofDefs_find?_iff distinct h d.id s).2 ⟨d, hd, rfl, hs⟩, ?_⟩
  refine (ofDefs_find?_iff (nodup_overlay distinct hextra) h' d.id s).2
    ⟨d, mem_overlay_iff.2 (.inl ⟨hd, huntouched d .refl⟩), rfl, hs.of_chain fun b hb => ?_⟩
  obtain ⟨c, -, hlast⟩ := Relation.TransGen.tail'_iff.1 hb
  exact mem_overlay_iff.2 (.inl ⟨hlast.1, huntouched b hb.to_reflTransGen⟩)

/-! ### The builtin symbols -/

theorem nodup_builtinDefs : ((builtinDefs : List (SymbolDef α)).map (·.id)).Nodup := by
  have hids : (builtinDefs : List (SymbolDef α)).map (·.id) =
      ["Device:R", "Device:C", "Device:L", "Device:D", "Device:LED",
       "Amplifier_Operational:OpAmp_Dual", "Connector:Conn_01x02", "Connector:Conn_01x03",
       "Connector:Conn_01x04", "power:GND", "power:VCC"] := rfl
  rw [hids]
  decide

/-- The only base among the builtin symbols is the diode. -/
theorem grounded_builtinDefs :
    ∀ d ∈ (builtinDefs : List (SymbolDef α)), Grounded builtinDefs d := by
  have hdiode : ∃ b ∈ (builtinDefs : List (SymbolDef α)), b.id = "Device:D" ∧ b.base = none :=
    ⟨_, List.mem_of_getElem? (i := 3) rfl, rfl, rfl⟩
  have hbase : ∀ d ∈ (builtinDefs : List (SymbolDef α)),
      d.base = none ∨ d.base = some "Device:D" := by
    simp [builtinDefs, twoTerminal, outlined, header]
  intro d hd
  rcases hbase d hd with hnone | hsome
  · exact .root hnone
  · obtain ⟨b, hb, hid, hnone⟩ := hdiode
    exact .step ⟨hb, hsome.trans (congrArg some hid.symm)⟩ (.root hnone)

theorem ofDefs_builtinDefs : ofDefs (builtinDefs : List (SymbolDef α)) = .ok builtin := by
  obtain ⟨library, h⟩ := (ofDefs_ok_iff (nodup_builtinDefs (α := α))).2 grounded_builtinDefs
  rw [builtin, h]
  rfl

/-! ### All together -/

/-- What is made of a list of definitions. -/
structure Accounts (defs : List (SymbolDef α)) : Prop where
  /-- The walk over the definitions does not run out of steps. -/
  ends : ∀ more, ordered (byId defs) ((byId defs).size + 1 + more) =
    ordered (byId defs) ((byId defs).size + 1)
  /-- A library is made exactly when every chain of bases ends. -/
  ok_iff : (∃ library, ofDefs defs = .ok library) ↔ ∀ d ∈ defs, Grounded defs d
  /-- It has the symbols at the ends of the chains. -/
  find?_iff : ∀ library, ofDefs defs = .ok library → ∀ id s,
    library.find? id = some s ↔ ∃ d ∈ defs, d.id = id ∧ Resolves defs d s
  /-- The order of the definitions does not matter. -/
  perm : ∀ defs', defs.Perm defs' → ofDefs defs' = ofDefs defs
  /-- Definitions that are put over others change only what is built on them. -/
  overlay : ∀ extra library library', (extra.map (·.id)).Nodup →
    ofDefs defs = .ok library → ofDefs (overlay defs extra) = .ok library' →
    ∀ d ∈ defs, Untouched defs extra d →
      ∃ s, library.find? d.id = some s ∧ library'.find? d.id = some s
  /-- So it is with those that are put over the builtin ones. -/
  load : ∀ library, load defs = .ok library → ∀ d ∈ builtinDefs, Untouched builtinDefs defs d →
    ∃ s, builtin.find? d.id = some s ∧ library.find? d.id = some s
  /-- An error names a definition that lies on a cycle, or one whose base is not listed. -/
  blames : ∀ e, ofDefs defs = .error e → Blames defs e

/-- What is made of every list of definitions with different names. -/
theorem ofDefs_accounts (distinct : (defs.map (·.id)).Nodup) : Accounts defs where
  ends more := ordered_more distinct (by rw [size_byId distinct]; omega) more
  ok_iff := ofDefs_ok_iff distinct
  find?_iff _ h := ofDefs_find?_iff distinct h
  perm defs' hperm := by rw [ofDefs, ofDefs, byId_eq_of_perm distinct hperm]
  overlay _ _ _ hextra h h' _ hd huntouched := overlay_find? distinct hextra h h' hd huntouched
  load _ h _ hd huntouched :=
    overlay_find? nodup_builtinDefs distinct ofDefs_builtinDefs h hd huntouched
  blames e h := by
    have hout := ofDefs_outcome distinct
    rwa [h] at hout

/-- A diode, and two symbols built on it, listed before it: one gives another name to the
second pin, and one on that one adds a pin. -/
def stackedDefs : List (SymbolDef ℚ) :=
  [{ id := "My:LED3", base := some "My:LED", pins := [⟨"3", "S", 0, 4, 270, 2⟩], power := true },
   { id := "My:LED", base := some "My:D", pins := [⟨"2", "B", 4, 0, 180, 2⟩] },
   { id := "My:D", body := some (⟨-1, 1⟩, ⟨1, -1⟩)
     pins := [⟨"1", "K", -4, 0, 0, 3⟩, ⟨"2", "A", 4, 0, 180, 3⟩] }]

/-- The stacked symbols are built one on the other. -/
theorem stackedDefs_accounts :
    (stackedDefs.map (·.id)).Nodup ∧ Accounts stackedDefs ∧
      ∃ library, ofDefs stackedDefs = .ok library ∧
        (library.find? "My:LED3").map (fun s => (s.pins.map fun p => (p.number, p.name, p.length),
          s.body.isSome, s.power)) =
          some ([("1", "K", 3), ("2", "B", 2), ("3", "S", 2)], true, true) := by
  have hdistinct : (stackedDefs.map (·.id)).Nodup := by decide
  have haccounts : Accounts stackedDefs := ofDefs_accounts hdistinct
  exact ⟨hdistinct, haccounts, _, rfl, by decide +kernel⟩

end SymbolLibrary

end Schematic
