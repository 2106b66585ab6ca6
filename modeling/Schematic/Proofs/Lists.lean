import Mathlib.Data.List.Chain
import Mathlib.Data.List.Forall2

/-!
# Lists side by side

What the proofs need to know about two lists whose members belong together,
about images of members, and about members of two kinds.

## Main statements

* `exists_of_mem_forall₂` — every member has a partner.
* `map_eq_of_forall₂` — partners with the same image.
* `forall₂_filterMap` — the members with an image, beside their images.
* `forall₂_trans` — partners of partners.
* `flatMap_filter_eq`, `flatMap_of_nodup` — the members that have images, and the images of
  one member.
* `exists_lookup` — the entry of a key.
* `mapM_eq_some_iff` — a list whose members all have an image.
* `map_filterMap_getElem?` — entries that carry their places.
* `eq_of_nodup_filterMap` — members with one image.
* `pairwise_of_filter` — a list of members of two kinds.
* `nodup_map_of_found`, `nodup_map_of_finer` — members that are found by their images, and members
  that are told apart.
* `map_modify` — the image of a list with one member changed.
* `modify_eq_self` — a change to what is there.
* `exists_of_infix_map` — neighbours in an image.
* `exists_nodup_isChain` — a chain without repetitions.
-/

namespace Schematic

/-- Every member of a list has a partner in the other one. -/
theorem exists_of_mem_forall₂ {β γ : Type} {R : β → γ → Prop} {xs : List β} {ys : List γ}
    (h : List.Forall₂ R xs ys) {x : β} (hx : x ∈ xs) : ∃ y ∈ ys, R x y := by
  induction h with
  | nil => cases hx
  | cons hxy _ ih =>
    rcases List.mem_cons.1 hx with rfl | hx
    · exact ⟨_, List.mem_cons_self, hxy⟩
    · obtain ⟨y, hy, hR⟩ := ih hx
      exact ⟨y, List.mem_cons_of_mem _ hy, hR⟩

/-- Partners with the same image give the same list of images. -/
theorem map_eq_of_forall₂ {β γ δ : Type} {R : β → γ → Prop} {f : β → δ} {g : γ → δ}
    (hR : ∀ x y, R x y → f x = g y) {xs : List β} {ys : List γ} (h : List.Forall₂ R xs ys) :
    xs.map f = ys.map g := by
  induction h with
  | nil => rfl
  | cons hxy _ ih => rw [List.map_cons, List.map_cons, hR _ _ hxy, ih]

/-- The members of the one kind are those with an image, which stand side by side with it. -/
theorem forall₂_filterMap {β γ : Type} {f : β → Option γ} {kind : β → Bool} {xs : List β}
    (h : ∀ x ∈ xs, (f x).isSome = kind x) :
    List.Forall₂ (fun x y => f x = some y) (xs.filter kind) (xs.filterMap f) := by
  induction xs with
  | nil => exact .nil
  | cons x xs ih =>
    obtain ⟨hx, hxs⟩ := List.forall_mem_cons.1 h
    cases hf : f x with
    | none =>
      rw [List.filterMap_cons_none hf, List.filter_cons_of_neg (by rw [← hx, hf]; exact nofun)]
      exact ih hxs
    | some y =>
      rw [List.filterMap_cons_some hf, List.filter_cons_of_pos (by rw [← hx, hf]; rfl)]
      exact .cons hf (ih hxs)

/-- Two relations one after the other. -/
theorem forall₂_trans {β γ δ : Type} {R : β → γ → Prop} {S : γ → δ → Prop} {T : β → δ → Prop}
    (hT : ∀ a b c, R a b → S b c → T a c) {xs : List β} {ys : List γ} {zs : List δ}
    (hR : List.Forall₂ R xs ys) (hS : List.Forall₂ S ys zs) : List.Forall₂ T xs zs := by
  induction hR generalizing zs with
  | nil =>
    cases hS
    exact .nil
  | cons hab _ ih =>
    cases hS with
    | cons hbc hS => exact .cons (hT _ _ _ hab hbc) (ih hS)

/-- Members without images can be left out. -/
theorem flatMap_filter_eq {β γ : Type} {f : β → List γ} {kind : β → Bool} {xs : List β}
    (h : ∀ x ∈ xs, kind x = false → f x = []) : (xs.filter kind).flatMap f = xs.flatMap f := by
  induction xs with
  | nil => rfl
  | cons x xs ih =>
    obtain ⟨hx, hxs⟩ := List.forall_mem_cons.1 h
    rw [List.flatMap_cons, ← ih hxs]
    cases hkind : kind x with
    | true => rw [List.filter_cons_of_pos hkind, List.flatMap_cons]
    | false =>
      rw [List.filter_cons_of_neg (by rw [hkind]; exact Bool.false_ne_true), hx hkind,
        List.nil_append]

/-- When one member alone has images they are all there is. -/
theorem flatMap_of_nodup {β γ : Type} [DecidableEq β] {f : β → List γ} {xs : List β}
    (hnodup : xs.Nodup) (k : β) :
    (xs.flatMap fun x => if x = k then f x else []) = if k ∈ xs then f k else [] := by
  induction xs with
  | nil => rfl
  | cons x xs ih =>
    obtain ⟨hx, hxs⟩ := List.nodup_cons.1 hnodup
    rw [List.flatMap_cons, ih hxs]
    by_cases hk : x = k
    · subst hk
      rw [if_pos rfl, if_neg hx, if_pos List.mem_cons_self, List.append_nil]
    · rw [if_neg hk, List.nil_append]
      simp only [List.mem_cons, Ne.symm hk, false_or]

/-- A key with an entry is found, with one of its entries. -/
theorem exists_lookup {κ β : Type} [BEq κ] [LawfulBEq κ] {entries : List (κ × β)} {k : κ} {v : β}
    (h : (k, v) ∈ entries) : ∃ w, entries.lookup k = some w ∧ (k, w) ∈ entries := by
  cases hlookup : entries.lookup k with
  | none => exact absurd (List.lookup_eq_none_iff.1 hlookup _ h) (by simp)
  | some w =>
    obtain ⟨before, after, heq, -⟩ := List.lookup_eq_some_iff.1 hlookup
    refine ⟨w, rfl, ?_⟩
    rw [heq]
    exact List.mem_append_right _ List.mem_cons_self

/-- The entries at some places carry these places. -/
theorem map_filterMap_getElem? {β : Type} {xs : Array β} {place : β → Nat}
    (hplace : ∀ (i : Nat) x, xs[i]? = some x → place x = i) {is : List Nat}
    (h : ∀ i ∈ is, ∃ x, xs[i]? = some x) : (is.filterMap (xs[·]?)).map place = is := by
  induction is with
  | nil => rfl
  | cons i is ih =>
    obtain ⟨⟨x, hx⟩, hrest⟩ := List.forall_mem_cons.1 h
    rw [List.filterMap_cons_some hx, List.map_cons, ih hrest, hplace i x hx]

/-- When no image comes twice, only one member has it. -/
theorem eq_of_nodup_filterMap {β γ : Type} {f : β → Option γ} {xs : List β}
    (h : (xs.filterMap f).Nodup) {i j : Nat} {a b : β} {x : γ} (hi : xs[i]? = some a)
    (hj : xs[j]? = some b) (ha : f a = some x) (hb : f b = some x) : i = j := by
  obtain ⟨hlti, rfl⟩ := List.getElem?_eq_some_iff.1 hi
  obtain ⟨hltj, rfl⟩ := List.getElem?_eq_some_iff.1 hj
  have hne := List.pairwise_iff_getElem.1 (List.pairwise_filterMap.1 h)
  rcases Nat.lt_trichotomy i j with hlt | heq | hgt
  · exact absurd rfl (hne i j hlti hltj hlt x ha x hb)
  · exact heq
  · exact absurd rfl (hne j i hltj hlti hgt x hb x ha)

/-- Members are related to each other when those of either kind are, and those of different
kinds. -/
theorem pairwise_of_filter {β : Type} {R : β → β → Prop} [Std.Symm R] (kind : β → Bool)
    {xs : List β} (h : (xs.filter kind).Pairwise R)
    (h' : (xs.filter fun x => !kind x).Pairwise R)
    (across : ∀ a ∈ xs, ∀ b ∈ xs, kind a = true → kind b = false → R a b) : xs.Pairwise R := by
  induction xs with
  | nil => exact .nil
  | cons x xs ih =>
    have hrest := fun a ha b hb =>
      across a (List.mem_cons_of_mem x ha) b (List.mem_cons_of_mem x hb)
    cases hx : kind x with
    | true =>
      rw [List.filter_cons_of_pos hx, List.pairwise_cons] at h
      rw [List.filter_cons_of_neg (by simp [hx])] at h'
      refine .cons (fun y hy => ?_) (ih h.2 h' hrest)
      cases hkind : kind y with
      | true => exact h.1 y (List.mem_filter.2 ⟨hy, hkind⟩)
      | false => exact across x List.mem_cons_self y (List.mem_cons_of_mem x hy) hx hkind
    | false =>
      rw [List.filter_cons_of_neg (by simp [hx])] at h
      rw [List.filter_cons_of_pos (by simp [hx]), List.pairwise_cons] at h'
      refine .cons (fun y hy => ?_) (ih h h'.2 hrest)
      cases hkind : kind y with
      | true =>
        have hacross := across y (List.mem_cons_of_mem x hy) x List.mem_cons_self hkind hx
        exact Std.Symm.symm _ _ hacross
      | false => exact h'.1 y (List.mem_filter.2 ⟨hy, by simp [hkind]⟩)

/-- Entries that are found by their images have different ones. -/
theorem nodup_map_of_found {β γ : Type} {xs : Array β} {f : β → γ} (find : γ → Option Nat)
    (h : ∀ (i : Nat) x, xs[i]? = some x → find (f x) = some i) : (xs.toList.map f).Nodup := by
  rw [List.Nodup, List.pairwise_map, List.pairwise_iff_getElem]
  intro i j hi hj hlt heq
  have hfound : ∀ {k} (hk : k < xs.toList.length), find (f xs.toList[k]) = some k := fun hk =>
    h _ _ (by rw [← Array.getElem?_toList, List.getElem?_eq_getElem hk])
  have hsame := hfound hi
  rw [heq, hfound hj] at hsame
  exact Nat.ne_of_gt hlt (Option.some.inj hsame)

/-- Members that are told apart by one function are told apart by each finer one. -/
theorem nodup_map_of_finer {β γ δ : Type} {f : β → γ} {g : β → δ} {xs : List β}
    (h : (xs.map f).Nodup) (hfiner : ∀ x ∈ xs, ∀ y ∈ xs, g x = g y → f x = f y) :
    (xs.map g).Nodup := by
  unfold List.Nodup at h ⊢
  rw [List.pairwise_map] at h ⊢
  apply h.imp_of_mem
  intro x y hx hy hne heq
  exact hne (hfiner x hx y hy heq)

/-- A change of one entry is a change of its image. -/
theorem map_modify {β γ : Type} {g : β → γ} {f : β → β} {f' : γ → γ} (hf : ∀ x, g (f x) = f' (g x))
    (xs : Array β) (i : Nat) : (xs.modify i f).map g = (xs.map g).modify i f' := by
  refine Array.ext_getElem? fun j => ?_
  simp only [Array.getElem?_map, Array.getElem?_modify]
  split
  · rw [Option.map_map, Option.map_map]
    exact congrArg (Option.map · xs[j]?) (funext hf)
  · rfl

/-- An array stays as it is when an entry is changed to what it is. -/
theorem modify_eq_self {β : Type} {xs : Array β} {i : Nat} {f : β → β}
    (h : ∀ x, xs[i]? = some x → f x = x) : xs.modify i f = xs := by
  refine Array.ext_getElem? fun j => ?_
  rw [Array.getElem?_modify]
  split
  · next heq =>
    subst heq
    cases hx : xs[i]? with
    | none => rfl
    | some x => exact congrArg some (h x hx)
  · rfl

/-- All members of a list have an image, and these are the images. -/
theorem mapM_eq_some_iff {β γ : Type} {f : β → Option γ} {xs : List β} {ys : List γ} :
    xs.mapM f = some ys ↔ xs.map f = ys.map some := by
  induction xs generalizing ys with
  | nil => cases ys <;> simp
  | cons x xs ih =>
    rw [List.mapM_cons]
    cases hx : f x with
    | none =>
      cases ys with
      | nil => simp
      | cons y ys => simp [hx]
    | some y =>
      cases hxs : xs.mapM f with
      | none =>
        cases ys with
        | nil => simp
        | cons z zs =>
          have hne : ¬ xs.map f = zs.map some := fun h => by simp [ih.2 h] at hxs
          simp [hx, hne]
      | some zs =>
        cases ys with
        | nil => simp
        | cons w ws =>
          have hmap : xs.map f = ws.map some ↔ zs = ws := by
            rw [← ih, hxs, Option.some.injEq]
          simp [hx, hmap]

/-- Three neighbours in an image are those of three neighbours. -/
theorem exists_of_infix_map {β γ : Type} {f : β → γ} {l : List β} {a b c : γ}
    (h : [a, b, c] <:+: l.map f) :
    ∃ s t u, [s, t, u] <:+: l ∧ f s = a ∧ f t = b ∧ f u = c := by
  obtain ⟨l', hl, heq⟩ := List.infix_map_iff.1 h
  obtain ⟨s, l', rfl, hs, heq⟩ := List.map_eq_cons_iff.1 heq.symm
  obtain ⟨t, l', rfl, ht, heq⟩ := List.map_eq_cons_iff.1 heq
  obtain ⟨u, l', rfl, hu, heq⟩ := List.map_eq_cons_iff.1 heq
  obtain rfl := List.map_eq_nil_iff.1 heq
  exact ⟨s, t, u, hl, hs, ht, hu⟩

/-- What lies between two visits of one member is left out. -/
theorem exists_nodup_isChain {β : Type} {R : β → β → Prop} {l : List β} (h : l.IsChain R) :
    ∃ l' : List β, l'.IsChain R ∧ l'.Nodup ∧ l'.head? = l.head? ∧ l'.getLast? = l.getLast? := by
  induction l with
  | nil => exact ⟨[], .nil, .nil, rfl, rfl⟩
  | cons a l ih =>
    obtain ⟨l', hchain, hnodup, hhead, hlast⟩ := ih h.tail
    by_cases ha : a ∈ l'
    · -- the chain comes back to its first member, and starts from there instead
      obtain ⟨front, back, rfl⟩ := List.append_of_mem ha
      have hne : l ≠ [] := by
        rintro rfl
        simp at hhead
      refine ⟨a :: back, (List.isChain_append.1 hchain).2.1, (List.nodup_append.1 hnodup).2.1,
        rfl, ?_⟩
      rw [List.getLast?_append_cons] at hlast
      rw [hlast, List.getLast?_cons_of_ne_nil hne]
    · refine ⟨a :: l', ?_, List.nodup_cons.2 ⟨ha, hnodup⟩, rfl, ?_⟩
      · refine List.isChain_cons.2 ⟨fun b hb => ?_, hchain⟩
        rw [hhead] at hb
        exact (List.isChain_cons.1 h).1 b hb
      · rw [List.getLast?_cons, List.getLast?_cons, hlast]

end Schematic
