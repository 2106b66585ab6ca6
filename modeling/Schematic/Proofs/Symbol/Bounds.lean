import Schematic.Proofs.Geometry.Motion
import Schematic.Proofs.Steps
import Schematic.Symbol.Library

/-!
# The boxes of symbols

A body is given by two corners in any order, and pins widen the box around it, so
that no symbol of a library has a box of a negative size.

## Main statements

* `Symbol.proper_localBounds` — the box of a symbol.
* `SymbolLibrary.proper_localBounds` — the boxes of a library's symbols, and the one
  of a symbol that is not in it.
-/

namespace Schematic

open ExactScalar
open scoped Scalar

variable {α : Type} [Scalar α] [ExactScalar α]

theorem Rect.proper_ofCorners (a b : Point α) : (Rect.ofCorners a b).Proper := by
  have hsorted : ∀ x y : α, 0 ≤ value ((sorted2 x y).2 - (sorted2 x y).1) := by
    intro x y
    rw [sorted2, value_sub]
    split
    · next h => exact sub_nonneg.2 ((le_iff _ _).1 h)
    · next h =>
      rw [le_iff, not_le] at h
      exact sub_nonneg.2 h.le
  exact ⟨hsorted a.x b.x, hsorted a.y b.y⟩

theorem proper_defaultBounds : (defaultBounds : Rect α).Proper := by
  constructor <;> simp [defaultBounds, Rect.centered] <;> norm_num

namespace Symbol

/-- The body of a symbol has no negative size. -/
def ProperBody (s : Symbol α) : Prop := ∀ r, s.body = some r → r.Proper

theorem proper_localBounds {s : Symbol α} (h : s.ProperBody) : s.localBounds.Proper := by
  have hfold : ∀ (pins : List (SymbolPin α)) (bounds : Option (Rect α)),
      (∀ r, bounds = some r → r.Proper) →
        ∀ r, pins.foldl extendBounds bounds = some r → r.Proper := by
    intro pins
    induction pins with
    | nil => exact fun _ h => h
    | cons p pins ih =>
      intro bounds hbounds
      refine ih _ fun r hr => ?_
      cases Option.some.inj hr
      cases bounds with
      | none => exact ⟨by simp [Rect.ofPoint], by simp [Rect.ofPoint]⟩
      | some b => exact (hbounds b rfl).union _
  rw [localBounds]
  cases hbox : s.pins.foldl extendBounds s.body with
  | none => exact proper_defaultBounds
  | some r => exact hfold s.pins s.body h r hbox

end Symbol

theorem SymbolDef.properBody_blank (id : String) : (blank id : Symbol α).ProperBody := nofun

/-- A symbol that is built on one with a body of no negative size has such a body. -/
theorem SymbolDef.properBody_derive (d : SymbolDef α) {base : Symbol α} (h : base.ProperBody) :
    (d.derive base).ProperBody := by
  intro r hr
  rw [derive] at hr
  cases hbody : d.body with
  | none =>
    rw [hbody] at hr
    exact h r hr
  | some corners =>
    rw [hbody] at hr
    cases hr
    exact Rect.proper_ofCorners _ _

namespace SymbolLibrary

/-- The bodies in a library have no negative size. -/
def ProperBodies (library : SymbolLibrary α) : Prop := ∀ e ∈ library.entries, e.2.ProperBody

theorem ProperBodies.add {library : SymbolLibrary α} (h : library.ProperBodies)
    (d : SymbolDef α) : (library.add d).ProperBodies := by
  have hbase : ((d.base.bind library.find?).getD (SymbolDef.blank d.id)).ProperBody := by
    cases hfind : d.base.bind library.find? with
    | none => exact SymbolDef.properBody_blank d.id
    | some s =>
      obtain ⟨id, -, hs⟩ := Option.bind_eq_some_iff.1 hfind
      exact h _ (Table.mem_of_find?_eq_some hs)
  intro e he
  rcases Table.eq_or_mem_of_mem_insert he with rfl | he
  · exact d.properBody_derive hbase
  · exact h e he

/-- Every symbol of a library is built up from definitions. -/
theorem properBody_of_mem {defs : List (SymbolDef α)} {library : SymbolLibrary α}
    (h : ofDefs defs = .ok library) {e : String × Symbol α} (he : e ∈ library.entries) :
    e.2.ProperBody := by
  obtain ⟨order, -, hlibrary⟩ := except_bind_eq_ok_iff.1 h
  cases hlibrary
  have hfold : ∀ (order : List (SymbolDef α)) (library : SymbolLibrary α),
      library.ProperBodies → (order.foldl SymbolLibrary.add library).ProperBodies := by
    intro order
    induction order with
    | nil => exact fun _ h => h
    | cons d order ih => exact fun library h => ih _ (h.add d)
  exact hfold order ∅ (fun _ h => nomatch h) e he

end SymbolLibrary

/-- Every box that a library answers has no negative size. -/
theorem SymbolLibrary.proper_localBounds {defs : List (SymbolDef α)} {library : SymbolLibrary α}
    (h : SymbolLibrary.ofDefs defs = .ok library) (id : String) :
    (library.source.localBounds id).Proper := by
  rw [SymbolSource.localBounds]
  cases hsymbol : library.source id with
  | none => exact proper_defaultBounds
  | some s =>
    exact Symbol.proper_localBounds (properBody_of_mem h (Table.mem_of_find?_eq_some hsymbol))

end Schematic
