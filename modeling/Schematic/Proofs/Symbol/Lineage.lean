import Mathlib.Data.List.Induction
import Mathlib.Data.List.Nodup
import Mathlib.Logic.Relation
import Schematic.Symbol.Library

/-!
# Symbols along their chains of bases

What the symbol of a definition is does not need a library: it is said by
recursion on the chain of bases, one definition after the other.  A definition
has such a symbol exactly when its chain ends, and the symbol depends on nothing
but the definitions on the chain.

## Main definitions

* `SymbolDef.Extends` — a definition and its base.
* `SymbolDef.Grounded` — the chain of bases ends.
* `SymbolDef.Derives` — what a definition makes of the symbol of its base.
* `SymbolDef.Resolves` — the symbol of a definition.

## Main statements

* `SymbolDef.Grounded.not_cyclic` — a chain that ends does not come back.
* `SymbolDef.derives_derive` — how symbols are built on each other.
* `SymbolDef.Grounded.exists_resolves`, `SymbolDef.Resolves.unique` — there is one symbol at
  the end of a chain.
* `SymbolDef.Resolves.of_chain` — it depends on the chain alone.
-/

namespace Schematic

namespace SymbolDef

variable {α : Type} {defs : List (SymbolDef α)} {d b c : SymbolDef α}

/-! ### Chains -/

/-- A listed definition is the base of another one. -/
def Extends (defs : List (SymbolDef α)) (d b : SymbolDef α) : Prop :=
  b ∈ defs ∧ d.base = some b.id

/-- The chain of bases of a definition ends. -/
inductive Grounded (defs : List (SymbolDef α)) : SymbolDef α → Prop where
  /-- A definition without a base. -/
  | root {d : SymbolDef α} (bare : d.base = none) : Grounded defs d
  /-- A definition whose base is listed, and has a chain that ends. -/
  | step {d b : SymbolDef α} (base : Extends defs d b) (grounded : Grounded defs b) :
      Grounded defs d

section Distinct

variable (distinct : (defs.map (·.id)).Nodup)
include distinct

theorem eq_of_id_eq (hd : d ∈ defs) (hb : b ∈ defs) (h : d.id = b.id) : d = b :=
  List.inj_on_of_nodup_map distinct hd hb h

theorem Extends.base_eq (hb : Extends defs d b) (hc : Extends defs d c) : b = c :=
  eq_of_id_eq distinct hb.1 hc.1 (Option.some.inj (hb.2.symm.trans hc.2))

/-- A chain that ends does not come back to where it has been. -/
theorem Grounded.not_cyclic (h : Grounded defs d) : ¬ Relation.TransGen (Extends defs) d d := by
  induction h with
  | root bare =>
    intro hcycle
    obtain ⟨b, hb, -⟩ := Relation.TransGen.head'_iff.1 hcycle
    rw [hb.2] at bare
    cases bare
  | step base _ ih =>
    intro hcycle
    obtain ⟨c, hc, hback⟩ := Relation.TransGen.head'_iff.1 hcycle
    obtain rfl := base.base_eq distinct hc
    exact ih (Relation.TransGen.tail' hback base)

end Distinct

/-! ### Pins -/

theorem eraseDups_of_nodup {β : Type} [DecidableEq β] {xs : List β} (h : xs.Nodup) :
    xs.eraseDups = xs := by
  induction xs with
  | nil => rfl
  | cons x xs ih =>
    obtain ⟨hx, hxs⟩ := List.nodup_cons.1 h
    have hfilter : xs.filter (fun y => !y == x) = xs := by
      refine List.filter_eq_self.2 fun y hy => ?_
      simpa using ne_of_mem_of_not_mem hy hx
    rw [List.eraseDups_cons, hfilter, ih hxs]

theorem eraseDups_concat {β : Type} [DecidableEq β] (xs : List β) (x : β) :
    (xs ++ [x]).eraseDups = if x ∈ xs then xs.eraseDups else xs.eraseDups ++ [x] := by
  rw [List.eraseDups_append]
  by_cases hx : x ∈ xs <;> simp [List.removeAll, List.eraseDups_cons, hx]

/-- A pin with a known number takes the place of the one that has it, and others come last. -/
theorem map_number_overridePin (p : SymbolPin α) (pins : List (SymbolPin α)) :
    (overridePin p pins).map (·.number) =
      if p.number ∈ pins.map (·.number) then pins.map (·.number)
      else pins.map (·.number) ++ [p.number] := by
  induction pins with
  | nil => simp [overridePin]
  | cons q qs ih =>
    rw [overridePin]
    by_cases hq : q.number = p.number
    · simp [hq]
    · have hq' : ¬ p.number = q.number := fun h => hq h.symm
      rw [if_neg (by simpa using hq), List.map_cons, ih]
      by_cases hp : p.number ∈ qs.map (·.number) <;> simp [hp, hq']

theorem mem_overridePin {p q : SymbolPin α} {pins : List (SymbolPin α)}
    (h : (pins.map (·.number)).Nodup) (hq : q ∈ overridePin p pins) :
    q = p ∨ q ∈ pins ∧ q.number ≠ p.number := by
  induction pins with
  | nil => exact .inl (List.mem_singleton.1 hq)
  | cons r rs ih =>
    obtain ⟨hr, hrs⟩ := List.nodup_cons.1 h
    rw [overridePin] at hq
    split at hq
    · next heq =>
      rcases List.mem_cons.1 hq with rfl | hq
      · exact .inl rfl
      · refine .inr ⟨List.mem_cons_of_mem r hq, fun hnumber => hr ?_⟩
        exact List.mem_map.2 ⟨q, hq, hnumber.trans (eq_of_beq heq).symm⟩
    · next hne =>
      rcases List.mem_cons.1 hq with rfl | hq
      · exact .inr ⟨List.mem_cons_self, by simpa using hne⟩
      · exact (ih hrs hq).imp_right fun hq => ⟨List.mem_cons_of_mem r hq.1, hq.2⟩

/-- Pins put over others. -/
def overridePins (pins own : List (SymbolPin α)) : List (SymbolPin α) :=
  own.foldl (fun pins p => overridePin p pins) pins

theorem overridePins_concat (pins own : List (SymbolPin α)) (p : SymbolPin α) :
    overridePins pins (own ++ [p]) = overridePin p (overridePins pins own) :=
  List.foldl_concat ..

section OverridePins

variable {pins : List (SymbolPin α)} (h : (pins.map (·.number)).Nodup)
include h

theorem map_number_overridePins (own : List (SymbolPin α)) :
    (overridePins pins own).map (·.number) =
      (pins.map (·.number) ++ own.map (·.number)).eraseDups := by
  induction own using List.reverseRecOn with
  | nil =>
    rw [List.map_nil, List.append_nil, eraseDups_of_nodup h]
    rfl
  | append_singleton own p ih =>
    have hmem : p.number ∈ (pins.map (·.number) ++ own.map (·.number)).eraseDups ↔
        p.number ∈ pins.map (·.number) ++ own.map (·.number) := List.mem_eraseDups
    rw [overridePins_concat, map_number_overridePin, ih, List.map_append, ← List.append_assoc,
      List.map_singleton, eraseDups_concat]
    simp only [hmem]

theorem nodup_overridePins (own : List (SymbolPin α)) :
    ((overridePins pins own).map (·.number)).Nodup := by
  induction own using List.reverseRecOn with
  | nil => exact h
  | append_singleton own p ih =>
    rw [overridePins_concat, map_number_overridePin]
    split
    · exact ih
    · next hp => exact List.concat_eq_append ▸ ih.concat hp

theorem find?_overridePins (own : List (SymbolPin α)) {q : SymbolPin α}
    (hq : q ∈ overridePins pins own) :
    ((pins ++ own).reverse.find? fun p => p.number == q.number) = some q := by
  induction own using List.reverseRecOn with
  | nil =>
    rw [List.append_nil]
    cases hfind : pins.reverse.find? fun p => p.number == q.number with
    | none => exact absurd (List.find?_eq_none.1 hfind q (List.mem_reverse.2 hq)) (by simp)
    | some p =>
      have hp := List.mem_reverse.1 (List.mem_of_find?_eq_some hfind)
      have hnumber : p.number = q.number := by simpa using List.find?_some hfind
      exact congrArg some (List.inj_on_of_nodup_map h hp hq hnumber)
  | append_singleton own p ih =>
    rw [overridePins_concat] at hq
    rw [← List.append_assoc, List.reverse_append, List.reverse_singleton, List.singleton_append]
    rcases mem_overridePin (nodup_overridePins h own) hq with rfl | ⟨hq, hne⟩
    · exact List.find?_cons_of_pos (by simp)
    · rw [List.find?_cons_of_neg (by simpa using Ne.symm hne)]
      exact ih hq

end OverridePins

/-! ### Symbols -/

section Symbols

variable [Scalar α] {s t : Symbol α}

/-- What a definition makes of the symbol of its base. -/
structure Derives (d : SymbolDef α) (base s : Symbol α) : Prop where
  /-- It has the name of the definition. -/
  id : s.id = d.id
  /-- Each number stands where it came up first, in the base or else in the definition. -/
  numbers : s.pins.map (·.number) =
    (base.pins.map (·.number) ++ d.pins.map (·.number)).eraseDups
  /-- Each pin is the last one with its number. -/
  pin : ∀ p ∈ s.pins,
    ((base.pins ++ d.pins.map pinOf).reverse.find? fun q => q.number == p.number) = some p
  /-- It has the body of the definition, or else that of the base. -/
  body : s.body = (d.body.map fun corners =>
    .ofCorners ⟨corners.1.x, -corners.1.y⟩ ⟨corners.2.x, -corners.2.y⟩).or base.body
  /-- It stands for a power net if the base does, or the definition. -/
  power : s.power = (base.power || d.power)

/-- The symbol of a definition, by recursion on its chain of bases. -/
inductive Resolves (defs : List (SymbolDef α)) : SymbolDef α → Symbol α → Prop where
  /-- At its end the chain starts from nothing. -/
  | root {d : SymbolDef α} {s : Symbol α} (bare : d.base = none)
      (derives : Derives d (blank d.id) s) : Resolves defs d s
  /-- A definition starts from the symbol of its base. -/
  | step {d b : SymbolDef α} {t s : Symbol α} (base : Extends defs d b)
      (resolves : Resolves defs b t) (derives : Derives d t s) : Resolves defs d s

/-- Nothing more can be said of a symbol. -/
theorem Derives.unique {base : Symbol α} (hs : Derives d base s) (ht : Derives d base t) :
    s = t := by
  have hnumbers : s.pins.map (·.number) = t.pins.map (·.number) :=
    hs.numbers.trans ht.numbers.symm
  have hpins : ∀ {u : Symbol α}, Derives d base u → u.pins.map some =
      (u.pins.map (·.number)).map fun number =>
        (base.pins ++ d.pins.map pinOf).reverse.find? fun q => q.number == number := by
    intro u hu
    rw [List.map_map]
    exact List.map_congr_left fun p hp => (hu.pin p hp).symm
  have hsome : s.pins.map some = t.pins.map some := by rw [hpins hs, hpins ht, hnumbers]
  have heq : s.pins = t.pins := List.map_injective_iff.2 (fun _ _ => Option.some.inj) hsome
  cases s
  cases t
  obtain ⟨rfl, rfl, rfl⟩ :=
    And.intro (hs.id.trans ht.id.symm) (And.intro heq (hs.body.trans ht.body.symm))
  obtain rfl := hs.power.trans ht.power.symm
  rfl

theorem derives_derive (d : SymbolDef α) {base : Symbol α}
    (h : (base.pins.map (·.number)).Nodup) : Derives d base (d.derive base) where
  id := rfl
  numbers := by
    have hown : d.pins.map (·.number) = (d.pins.map pinOf).map (·.number) := by
      rw [List.map_map]
      rfl
    rw [hown]
    exact map_number_overridePins h _
  pin p hp := find?_overridePins h _ hp
  body := by
    rw [derive]
    cases d.body <;> rfl
  power := rfl

theorem Derives.nodup {base : Symbol α} (hs : Derives d base s)
    (h : (base.pins.map (·.number)).Nodup) : (s.pins.map (·.number)).Nodup := by
  rw [hs.unique (derives_derive d h)]
  exact nodup_overridePins h _

/-- No two pins of a symbol have one number. -/
theorem Resolves.nodup (h : Resolves defs d s) : (s.pins.map (·.number)).Nodup := by
  induction h with
  | root _ derives => exact derives.nodup List.nodup_nil
  | step _ _ derives ih => exact derives.nodup ih

theorem Grounded.exists_resolves (h : Grounded defs d) : ∃ s, Resolves defs d s := by
  induction h with
  | root bare => exact ⟨_, .root bare (derives_derive _ List.nodup_nil)⟩
  | step base _ ih =>
    obtain ⟨t, ht⟩ := ih
    exact ⟨_, .step base ht (derives_derive _ ht.nodup)⟩

theorem Resolves.unique (distinct : (defs.map (·.id)).Nodup) (hs : Resolves defs d s)
    (ht : Resolves defs d t) : s = t := by
  induction hs generalizing t with
  | root bare derives =>
    cases ht with
    | root _ derives' => exact derives.unique derives'
    | step base _ _ =>
      rw [base.2] at bare
      cases bare
  | step base _ derives ih =>
    cases ht with
    | root bare _ =>
      rw [base.2] at bare
      cases bare
    | step base' resolves derives' =>
      obtain rfl := base.base_eq distinct base'
      obtain rfl := ih resolves
      exact derives.unique derives'

/-- The symbol of a definition depends on nothing but the chain. -/
theorem Resolves.of_chain {defs' : List (SymbolDef α)} (h : Resolves defs d s)
    (hchain : ∀ b, Relation.TransGen (Extends defs) d b → b ∈ defs') : Resolves defs' d s := by
  induction h with
  | root bare derives => exact .root bare derives
  | step base _ derives ih =>
    exact .step ⟨hchain _ (.single base), base.2⟩
      (ih fun c hc => hchain c (.head base hc)) derives

end Symbols

end SymbolDef

end Schematic
