import Schematic.Layout.Position
import Schematic.Proofs.Geometry.Motion

/-!
# Frames of composables

A composable that names a parent names one with a smaller number, so its frame on
the sheet is that of its parent with its own placement in it.  Placing something
changes the frames of what comes later only.

## Main definitions

* `Netlist.outer?` — the parent of a composable.
* `Netlist.Nested` — parents have smaller numbers.
* `Netlist.Around` — the composables around something.
* `Netlist.site` — where a component lies.

## Main statements

* `Netlist.mem_ancestors_iff` — the chain outward holds what is around.
* `Netlist.composableFrame_eq` — the frame of a composable.
* `Netlist.composableFrame_congr` — what it depends on.
* `Netlist.absolute?_setPosition` — where components lie once one is placed.
-/

namespace Schematic

variable {α : Type}

/-- A component without its position. -/
def Component.unplaced (c : Component α) : Component α := { c with position := none }

namespace Netlist

variable {n m : Netlist α}

/-- The parent of a composable. -/
def outer? (n : Netlist α) (i : ComposableId) : Option ComposableId :=
  n.composables[i]?.bind (·.parent)

/-- Parents have smaller numbers. -/
def Nested (n : Netlist α) : Prop := ∀ i p : Nat, n.outer? i = some p → p < i

theorem lt_size_of_outer? {i p : ComposableId} (h : n.outer? i = some p) :
    i < n.composables.size := by
  obtain ⟨c, hc, -⟩ := Option.bind_eq_some_iff.1 h
  exact (Array.getElem?_eq_some_iff.1 hc).1

/-! ### The chain of composables around one -/

theorem ancestorsFrom_none (n : Netlist α) (fuel : Nat) (seen : List ComposableId) :
    n.ancestorsFrom fuel seen none = seen.reverse := by
  cases fuel <;> rfl

/-- With enough steps the chain outward does not depend on their number, nor on what was
passed before. -/
theorem ancestorsFrom_eq (h : n.Nested) {i fuel fuel' : Nat} {seen : List ComposableId}
    (hfuel : i < fuel) (hfuel' : i < fuel') (hseen : ∀ s ∈ seen, i < s) :
    n.ancestorsFrom fuel seen (some i) = seen.reverse ++ n.ancestorsFrom fuel' [] (some i) := by
  induction i using Nat.strongRecOn generalizing fuel fuel' seen with
  | _ i ih =>
    obtain ⟨fuel, rfl⟩ := Nat.exists_eq_add_one_of_ne_zero (Nat.ne_zero_of_lt hfuel)
    obtain ⟨fuel', rfl⟩ := Nat.exists_eq_add_one_of_ne_zero (Nat.ne_zero_of_lt hfuel')
    have hnew : seen.contains i = false := by
      simpa using fun hmem => Nat.lt_irrefl i (hseen i hmem)
    rw [ancestorsFrom, hnew, ancestorsFrom]
    simp only [Bool.false_eq_true, if_false, List.contains_nil]
    change n.ancestorsFrom fuel (i :: seen) (n.outer? i) =
      seen.reverse ++ n.ancestorsFrom fuel' [i] (n.outer? i)
    cases hp : n.outer? i with
    | none => rw [ancestorsFrom_none, ancestorsFrom_none, List.reverse_cons]; rfl
    | some p =>
      have hlt := h i p hp
      have hbelow : ∀ s ∈ i :: seen, p < s := fun s hs => by
        rcases List.mem_cons.1 hs with rfl | hs
        · exact hlt
        · exact hlt.trans (hseen s hs)
      have hsingle : ∀ s ∈ [i], p < s := by simpa using hlt
      rw [ih p hlt (by omega) hlt hbelow, ih p hlt (by omega) hlt hsingle, List.reverse_cons,
        List.append_assoc]
      rfl

/-- Around a composable are the composable itself and what is around its parent. -/
theorem ancestors_some (h : n.Nested) (i : ComposableId) :
    n.ancestors (some i) = i :: n.ancestors (n.outer? i) := by
  rw [ancestors, ancestorsFrom]
  simp only [List.contains_nil, Bool.false_eq_true, if_false]
  change n.ancestorsFrom n.composables.size [i] (n.outer? i) = i :: n.ancestors (n.outer? i)
  cases hp : n.outer? i with
  | none => rw [ancestorsFrom_none, ancestors, ancestorsFrom_none]; rfl
  | some p =>
    have hlt := h i p hp
    have hsize : p < n.composables.size := hlt.trans (lt_size_of_outer? hp)
    rw [ancestors, ancestorsFrom_eq h hsize (Nat.lt_succ_of_lt hsize) (by simpa using hlt)]
    rfl

/-- A composable is around something with the given parent, next to it or farther out. -/
inductive Around (n : Netlist α) (c : ComposableId) : Option ComposableId → Prop
  /-- It is the parent itself. -/
  | parent : Around n c (some c)
  /-- It is around the parent. -/
  | outer {p : ComposableId} (h : Around n c (n.outer? p)) : Around n c (some p)

theorem not_around_none {c : ComposableId} : ¬n.Around c none := nofun

theorem around_some_iff {c p : ComposableId} :
    n.Around c (some p) ↔ c = p ∨ n.Around c (n.outer? p) := by
  constructor
  · intro h
    cases h with
    | parent => exact .inl rfl
    | outer h => exact .inr h
  · rintro (rfl | h)
    · exact .parent
    · exact .outer h

/-- What is around a composable has no greater number. -/
theorem Around.le (h : n.Nested) {c p : ComposableId} (hc : n.Around c (some p)) : c ≤ p := by
  induction p using Nat.strongRecOn with
  | _ p ih =>
    rcases around_some_iff.1 hc with rfl | hc
    · exact le_rfl
    · cases hq : n.outer? p with
      | none => exact absurd (hq ▸ hc) not_around_none
      | some q =>
        have hlt := h p q hq
        exact (ih q hlt (hq ▸ hc)).trans hlt.le

/-- The chain outward holds what is around. -/
theorem mem_ancestors_iff (h : n.Nested) {c : ComposableId} {parent : Option ComposableId} :
    c ∈ n.ancestors parent ↔ n.Around c parent := by
  have hnone : c ∈ n.ancestors none ↔ n.Around c none := by
    rw [ancestors, ancestorsFrom_none]
    exact iff_of_false List.not_mem_nil not_around_none
  cases parent with
  | none => exact hnone
  | some p =>
    induction p using Nat.strongRecOn with
    | _ p ih =>
      rw [ancestors_some h, List.mem_cons, around_some_iff]
      cases hq : n.outer? p with
      | none => exact or_congr_right hnone
      | some q => exact or_congr_right (ih q (h p q hq))

/-! ### Frames -/

section Frames

variable [Scalar α]

theorem outerFrame_eq (n : Netlist α) (i : ComposableId) :
    n.outerFrame i = match n.outer? i with
      | some p => n.composableFrame p
      | none => .origin := rfl

/-- The frame of a composable is that of its parent with its own placement in it. -/
theorem composableFrame_eq (h : n.Nested) (i : ComposableId) :
    n.composableFrame i = (n.outerFrame i).compose (n.composablePlacement i) := by
  rw [composableFrame, ancestors_some h, List.reverse_cons, List.foldl_append, outerFrame_eq]
  cases hp : n.outer? i with
  | none => rw [ancestors, ancestorsFrom_none]; rfl
  | some p => rfl

/-- The frame of a composable depends on the parents, and on the placements of that composable
and of those around it only. -/
theorem composableFrame_congr (h : n.Nested) (houter : ∀ j, m.outer? j = n.outer? j)
    {i : ComposableId}
    (hplacement : ∀ j, n.Around j (some i) → m.composablePlacement j = n.composablePlacement j) :
    m.composableFrame i = n.composableFrame i := by
  have hm : m.Nested := fun j p hp => h j p (houter j ▸ hp)
  induction i using Nat.strongRecOn with
  | _ i ih =>
    rw [composableFrame_eq h, composableFrame_eq hm, hplacement i .parent, outerFrame_eq,
      outerFrame_eq, houter]
    cases hp : n.outer? i with
    | none => rfl
    | some p =>
      simp only [ih p (h i p hp) fun j hj => hplacement j (.outer (hp ▸ hj))]

section Exact

variable [ExactScalar α]

theorem square_composableFrame (h : n.Nested)
    (hplacement : ∀ i, (n.composablePlacement i).Square) (i : ComposableId) :
    (n.composableFrame i).Square := by
  induction i using Nat.strongRecOn with
  | _ i ih =>
    rw [composableFrame_eq h, outerFrame_eq]
    cases hp : n.outer? i with
    | none => exact Placement.square_origin.compose (hplacement i)
    | some p => exact (ih p (h i p hp)).compose (hplacement i)

theorem square_outerFrame (h : n.Nested) (hplacement : ∀ i, (n.composablePlacement i).Square)
    (i : ComposableId) : (n.outerFrame i).Square := by
  rw [outerFrame_eq]
  cases hp : n.outer? i with
  | none => exact Placement.square_origin
  | some p => exact square_composableFrame h hplacement p

end Exact

/-! ### Placing a component -/

theorem composablePlacement_of_composables (h : m.composables = n.composables) (i : ComposableId) :
    m.composablePlacement i = n.composablePlacement i := by
  rw [composablePlacement, composablePlacement, h]

/-- The frames of composables depend on the composables only. -/
theorem composableFrame_of_composables (h : m.composables = n.composables) (i : ComposableId) :
    m.composableFrame i = n.composableFrame i := by
  have hchain : ∀ fuel seen p, m.ancestorsFrom fuel seen p = n.ancestorsFrom fuel seen p := by
    intro fuel
    induction fuel with
    | zero => exact fun seen p => rfl
    | succ fuel ih =>
      intro seen p
      cases p with
      | none => rfl
      | some p => rw [ancestorsFrom, ancestorsFrom, ih, h]
  have hplacement : m.composablePlacement = n.composablePlacement :=
    funext (composablePlacement_of_composables h)
  rw [composableFrame, composableFrame, ancestors, ancestors, hchain, hplacement, h]

theorem outerFrame_of_composables (h : m.composables = n.composables) (i : ComposableId) :
    m.outerFrame i = n.outerFrame i := by
  simp only [outerFrame, composableFrame_of_composables h, h]

theorem composableFrame_setPosition (n : Netlist α) (id : ComponentId) (position : Placement α)
    (i : ComposableId) :
    (n.setPosition id position).composableFrame i = n.composableFrame i :=
  composableFrame_of_composables (n := n) (m := n.setPosition id position) rfl i

omit [Scalar α] in
theorem getElem?_setPosition (n : Netlist α) (id : ComponentId) (position : Placement α)
    (j : ComponentId) :
    (n.setPosition id position).components[j]? =
      if id = j then (n.components[j]?).map fun c => { c with position := some position }
      else n.components[j]? := Array.getElem?_modify

omit [Scalar α] in
theorem getElem?_setComposablePosition (n : Netlist α) (id : ComposableId)
    (position : Placement α) (j : ComposableId) :
    (n.setComposablePosition id position).composables[j]? =
      if id = j then (n.composables[j]?).map fun c => { c with position := some position }
      else n.composables[j]? := Array.getElem?_modify

theorem parentFrame_setPosition (n : Netlist α) (id : ComponentId) (position : Placement α)
    (j : ComponentId) : (n.setPosition id position).parentFrame j = n.parentFrame j := by
  have hparent : (n.setPosition id position).components[j]?.bind (·.parent) =
      n.components[j]?.bind (·.parent) := by
    rw [getElem?_setPosition]
    split
    · cases n.components[j]? <;> rfl
    · rfl
  simp only [parentFrame, hparent, composableFrame_setPosition]

omit [Scalar α] in
/-- Placing a component changes nothing but its position. -/
theorem unplaced_setPosition (n : Netlist α) (id : ComponentId) (position : Placement α)
    (j : ComponentId) :
    ((n.setPosition id position).components[j]?).map (·.unplaced) =
      (n.components[j]?).map (·.unplaced) := by
  rw [getElem?_setPosition]
  split
  · rw [Option.map_map]
    rfl
  · rfl

/-- A component that is placed lies where it is placed; the others stay where they are. -/
theorem absolute?_setPosition {id : ComponentId} (hid : id < n.components.size)
    (position : Placement α) (j : ComponentId) :
    (n.setPosition id position).absolute? j =
      if id = j then some ((n.parentFrame j).compose position) else n.absolute? j := by
  simp only [absolute?, parentFrame_setPosition, getElem?_setPosition]
  split
  · next heq =>
    subst heq
    rw [Array.getElem?_eq_getElem hid]
    rfl
  · rfl

theorem absolute?_congr {j : ComponentId} (hcomponent : m.components[j]? = n.components[j]?)
    (hframe : m.parentFrame j = n.parentFrame j) : m.absolute? j = n.absolute? j := by
  rw [absolute?, absolute?, hcomponent, hframe]

end Frames

/-! ### Where components lie -/

/-- The symbol of a component. -/
def symbolOf (n : Netlist α) (id : ComponentId) : String :=
  (n.components[id]?.map (·.symbol)).getD ""

theorem symbolOf_congr {id : ComponentId} (h : (m.components[id]?).map (·.unplaced) =
    (n.components[id]?).map (·.unplaced)) : m.symbolOf id = n.symbolOf id := by
  have hsymbol : ∀ c? : Option (Component α), (c?.map (·.unplaced)).map (·.symbol) =
      c?.map (·.symbol) := fun c? => by cases c? <;> rfl
  rw [symbolOf, symbolOf, ← hsymbol, h, hsymbol]

variable [Scalar α] [ExactScalar α]

/-- Where a component lies on the sheet; nowhere before it is placed. -/
def site (n : Netlist α) (symbols : SymbolSource α) (id : ComponentId) : Set ℂ :=
  {z | ∃ p, n.absolute? id = some p ∧ z ∈ p.move '' (symbols.localBounds (n.symbolOf id)).region}

theorem site_eq {symbols : SymbolSource α} {id : ComponentId} {p : Placement α}
    (h : n.absolute? id = some p) :
    n.site symbols id = p.move '' (symbols.localBounds (n.symbolOf id)).region := by
  ext z
  rw [site, Set.mem_ofPred_eq, h]
  exact ⟨fun ⟨q, hq, hz⟩ => Option.some.inj hq ▸ hz, fun hz => ⟨p, rfl, hz⟩⟩

theorem site_congr {symbols : SymbolSource α} {id : ComponentId}
    (habsolute : m.absolute? id = n.absolute? id) (hsymbol : m.symbolOf id = n.symbolOf id) :
    m.site symbols id = n.site symbols id := by
  rw [site, site, habsolute, hsymbol]

end Netlist

end Schematic
