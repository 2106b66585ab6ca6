import Schematic.Proofs.Steps
import Schematic.Proofs.Symbol.Library

/-!
# What the keys of a symbol address

A key is looked up twice, among the numbers of the pins and then among their
names, and a name may well be the number of another pin.  In a library no two
pins of a symbol have one number, however the symbol was built on its bases, so
that the number of the pin that a key addresses can be written in its place.

## Main definitions

* `SymbolSource.address?` — the pin that a key of a symbol addresses.
* `SymbolSource.canonicalKey` — the number of that pin, or the key if there is none.
* `SymbolSource.UniquelyNumbered` — no two pins of a symbol have one number.
* `SymbolSource.MeansSame` — two keys of a symbol address the same.

## Main statements

* `SymbolLibrary.ofDefs_uniquelyNumbered` — libraries are uniquely numbered.
* `SymbolSource.UniquelyNumbered.address?_canonicalKey` — a key and its number address one pin.
* `SymbolSource.UniquelyNumbered.canonicalKey_eq_iff` — which keys have one form.
-/

namespace Schematic

variable {α : Type}

namespace Symbol

variable {s : Symbol α} {key : String} {p : SymbolPin α}

theorem mem_pins_of_findPin? (h : s.findPin? key = some p) : p ∈ s.pins := by
  rw [findPin?] at h
  cases hnumber : s.pins.find? (·.number == key) with
  | some q =>
    rw [hnumber] at h
    cases h
    exact List.mem_of_find?_eq_some hnumber
  | none =>
    rw [hnumber] at h
    exact List.mem_of_find?_eq_some h

/-- The number of the pin that a key addresses addresses the same pin, whatever names there
are. -/
theorem findPin?_number_of_nodup (hnodup : (s.pins.map (·.number)).Nodup)
    (h : s.findPin? key = some p) : s.findPin? p.number = some p := by
  have hp : p ∈ s.pins := mem_pins_of_findPin? h
  cases hfind : s.pins.find? (·.number == p.number) with
  | none => exact absurd (List.find?_eq_none.1 hfind p hp) (by simp)
  | some q =>
    have hnumber : q.number = p.number := by simpa using List.find?_some hfind
    obtain rfl := List.inj_on_of_nodup_map hnodup (List.mem_of_find?_eq_some hfind) hp hnumber
    rw [findPin?, hfind]
    rfl

end Symbol

/-! ### Keys of a source of symbols -/

namespace SymbolSource

variable {symbols : SymbolSource α} {id key key' : String} {p : SymbolPin α}

/-- The pin that a key of a symbol addresses. -/
def address? (symbols : SymbolSource α) (id key : String) : Option (SymbolPin α) :=
  (symbols id).bind (·.findPin? key)

/-- The number of the pin that a key addresses, or the key as it is if it addresses none. -/
def canonicalKey (symbols : SymbolSource α) (id key : String) : String :=
  (symbols.pinNumber? id key).getD key

/-- Two keys address one pin, or they are one key that addresses none. -/
def MeansSame (symbols : SymbolSource α) (id key key' : String) : Prop :=
  (∃ p, symbols.address? id key = some p ∧ symbols.address? id key' = some p) ∨
    symbols.address? id key = none ∧ key = key'

/-- No two pins of a symbol have one number. -/
def UniquelyNumbered (symbols : SymbolSource α) : Prop :=
  ∀ id s, symbols id = some s → (s.pins.map (·.number)).Nodup

theorem canonicalKey_of_address? (h : symbols.address? id key = some p) :
    symbols.canonicalKey id key = p.number := by
  change (((symbols.address? id key).map (·.number)).getD key) = p.number
  rw [h]
  rfl

theorem canonicalKey_of_unknown (h : symbols.address? id key = none) :
    symbols.canonicalKey id key = key := by
  change (((symbols.address? id key).map (·.number)).getD key) = key
  rw [h]
  rfl

namespace UniquelyNumbered

variable (h : symbols.UniquelyNumbered)
include h

/-- A number addresses the pin that has it. -/
theorem address?_number (hp : symbols.address? id key = some p) :
    symbols.address? id p.number = some p := by
  obtain ⟨s, hs, hfind⟩ := Option.bind_eq_some_iff.1 hp
  rw [address?, hs]
  exact Symbol.findPin?_number_of_nodup (h id s hs) hfind

/-- A key that is brought into its form addresses what it did. -/
@[simp] theorem address?_canonicalKey (id key : String) :
    symbols.address? id (symbols.canonicalKey id key) = symbols.address? id key := by
  cases hp : symbols.address? id key with
  | none => rw [canonicalKey_of_unknown hp, hp]
  | some p => rw [canonicalKey_of_address? hp, h.address?_number hp]

/-- A key is brought into its form once. -/
@[simp] theorem canonicalKey_canonicalKey (id key : String) :
    symbols.canonicalKey id (symbols.canonicalKey id key) = symbols.canonicalKey id key := by
  cases hp : symbols.address? id key with
  | none => rw [canonicalKey_of_unknown hp, canonicalKey_of_unknown hp]
  | some p =>
    rw [canonicalKey_of_address? hp, canonicalKey_of_address? (h.address?_number hp)]

/-- Two keys have one form when they address one pin, or none and are the same. -/
theorem canonicalKey_eq_iff :
    symbols.canonicalKey id key = symbols.canonicalKey id key' ↔
      symbols.MeansSame id key key' := by
  constructor
  · intro heq
    -- what a key addresses can be read off its form
    have haddress : symbols.address? id key = symbols.address? id key' := by
      rw [← h.address?_canonicalKey id key, heq, h.address?_canonicalKey]
    cases hp : symbols.address? id key with
    | some p => exact .inl ⟨p, hp, haddress ▸ hp⟩
    | none =>
      rw [canonicalKey_of_unknown hp, canonicalKey_of_unknown (haddress ▸ hp)] at heq
      exact .inr ⟨hp, heq⟩
  · rintro (⟨p, hp, hp'⟩ | ⟨-, rfl⟩)
    · rw [canonicalKey_of_address? hp, canonicalKey_of_address? hp']
    · rfl

end UniquelyNumbered

end SymbolSource

/-! ### Libraries -/

namespace SymbolLibrary

open SymbolDef

variable [Scalar α]

/-- A symbol that is built on a uniquely numbered one is uniquely numbered. -/
theorem uniquelyNumbered_add {library : SymbolLibrary α} (h : library.source.UniquelyNumbered)
    (d : SymbolDef α) : (library.add d).source.UniquelyNumbered := by
  intro id s hs
  rw [source, find?_add] at hs
  split at hs
  · cases hs
    refine nodup_overridePins ?_ _
    cases hbase : d.base.bind library.find? with
    | none => exact List.nodup_nil
    | some base =>
      obtain ⟨b, -, hb⟩ := Option.bind_eq_some_iff.1 hbase
      exact h b base hb
  · exact h id s hs

theorem uniquelyNumbered_foldl_add (order : List (SymbolDef α)) {library : SymbolLibrary α}
    (h : library.source.UniquelyNumbered) : (order.foldl add library).source.UniquelyNumbered := by
  induction order generalizing library with
  | nil => exact h
  | cons d order ih => exact ih (uniquelyNumbered_add h d)

/-- However its definitions are built on each other, a library is uniquely numbered. -/
theorem ofDefs_uniquelyNumbered {defs : List (SymbolDef α)} {library : SymbolLibrary α}
    (h : ofDefs defs = .ok library) : library.source.UniquelyNumbered := by
  obtain ⟨order, -, hlibrary⟩ := except_bind_eq_ok_iff.1 h
  cases hlibrary
  exact uniquelyNumbered_foldl_add order nofun

end SymbolLibrary

end Schematic
