/-!
# Pairs of members

Checks that compare every two members of a list go over its pairs: each member
with every later one, in the order of the list.

## Main definitions

* `pairs` — the pairs of a list.

## Main statements

* `mem_pairs_iff` — a pair consists of a member and a later one.
* `mem_pairs_or` — two different members are a pair in one order.
* `forall_mem_pairs_iff` — what holds of all pairs.
-/

namespace Schematic

variable {β γ : Type}

/-- Every member of a list with every later one. -/
def pairs : List β → List (β × β)
  | [] => []
  | x :: xs => xs.map (fun y => (x, y)) ++ pairs xs

@[simp] theorem pairs_nil : pairs ([] : List β) = [] := rfl

@[simp] theorem pairs_cons (x : β) (xs : List β) :
    pairs (x :: xs) = xs.map (fun y => (x, y)) ++ pairs xs := rfl

/-- The pairs are the sublists of two members. -/
theorem mem_pairs_iff {xs : List β} {x y : β} : (x, y) ∈ pairs xs ↔ [x, y].Sublist xs := by
  induction xs with
  | nil => simp
  | cons z zs ih =>
    simp only [pairs_cons, List.mem_append, List.mem_map, Prod.mk.injEq, ih]
    constructor
    · rintro (⟨w, hw, rfl, rfl⟩ | h)
      · exact (List.singleton_sublist.2 hw).cons_cons z
      · exact h.cons z
    · intro h
      cases h with
      | cons _ h => exact .inr h
      | cons_cons _ h => exact .inl ⟨y, List.singleton_sublist.1 h, rfl, rfl⟩

/-- Of two different members one comes before the other. -/
theorem mem_pairs_or {xs : List β} {x y : β} (hx : x ∈ xs) (hy : y ∈ xs) (hne : x ≠ y) :
    (x, y) ∈ pairs xs ∨ (y, x) ∈ pairs xs := by
  induction xs with
  | nil => cases hx
  | cons z zs ih =>
    simp only [pairs_cons, List.mem_append, List.mem_map, Prod.mk.injEq]
    rcases List.mem_cons.1 hx with rfl | hxs
    · have hys : y ∈ zs := (List.mem_cons.1 hy).resolve_left (Ne.symm hne)
      exact .inl (.inl ⟨y, hys, rfl, rfl⟩)
    · rcases List.mem_cons.1 hy with rfl | hys
      · exact .inr (.inl ⟨x, hxs, rfl, rfl⟩)
      · exact (ih hxs hys).imp .inr .inr

/-- What holds of all pairs holds of every member with every later one. -/
theorem forall_mem_pairs_iff {R : β → β → Prop} {xs : List β} :
    (∀ p ∈ pairs xs, R p.1 p.2) ↔ xs.Pairwise R := by
  induction xs with
  | nil => simp
  | cons x xs ih =>
    rw [pairs_cons, List.forall_mem_append, List.forall_mem_map, List.pairwise_cons, ih]

theorem pairs_map (f : β → γ) (xs : List β) :
    pairs (xs.map f) = (pairs xs).map fun p => (f p.1, f p.2) := by
  induction xs with
  | nil => rfl
  | cons x xs ih => simp [ih, Function.comp_def]

end Schematic
