import Mathlib.Data.List.Nodup
import Schematic.Table

/-!
# Tables in order

Whatever is written into a table, its names stay in ascending order.  So a table
is known by what is found in it, and the table of a list of entries with different
names does not depend on their order.  An entry that was written may be written once
more without a change, whatever is written under other names in between.

## Main definitions

* `Table.Sorted` — the names are in ascending order.
* `Table.Holds` — an entry may be written once more without a change.

## Main statements

* `Table.Sorted.insert`, `Table.sorted_ofList` — tables that are written are in order.
* `Table.Sorted.ext` — a table is known by what is found in it.
* `Table.mem_names_ofList`, `Table.find?_ofList` — the names in the table of a list of
  entries, and what is found under them.
* `Table.ofList_eq_of_perm` — the order of the entries does not matter.
* `Table.holds_insert`, `Table.Holds.insert` — an entry that was written stands.
-/

namespace Schematic

namespace Table

variable {β γ : Type}

/-- The names are in ascending order, so that there is one entry of a name. -/
def Sorted (t : Table β) : Prop := t.entries.Pairwise fun e d => e.1 < d.1

theorem sorted_empty : (∅ : Table β).Sorted := List.Pairwise.nil

theorem pairwise_insertEntry {es : List (String × β)} (name : String) (value : β)
    (h : es.Pairwise fun e d => e.1 < d.1) :
    (insertEntry name value es).Pairwise fun e d => e.1 < d.1 := by
  induction es with
  | nil => exact List.pairwise_singleton _ _
  | cons e es ih =>
    obtain ⟨he, hes⟩ := List.pairwise_cons.1 h
    simp only [insertEntry]
    split
    · next hlt =>
      refine List.pairwise_cons.2 ⟨?_, h⟩
      intro d hd
      rcases List.mem_cons.1 hd with rfl | hd
      · exact hlt
      · exact String.lt_trans hlt (he d hd)
    · next hlt =>
      split
      · next heq => exact List.pairwise_cons.2 ⟨fun d hd => heq ▸ he d hd, hes⟩
      · next hne =>
        refine List.pairwise_cons.2 ⟨?_, ih hes⟩
        intro d hd
        rcases eq_or_mem_of_mem_insertEntry hd with rfl | hd
        · exact Std.lt_of_le_of_ne (String.not_lt.1 hlt) (Ne.symm hne)
        · exact he d hd

/-- Writing an entry keeps the order. -/
theorem Sorted.insert {t : Table β} (h : t.Sorted) (name : String) (value : β) :
    (t.insert name value).Sorted :=
  pairwise_insertEntry name value h

/-- A name that comes before those of all entries is none of them. -/
theorem find?_eq_none_of_lt {es : List (String × β)} {name : String} (h : ∀ d ∈ es, name < d.1) :
    (es.find? fun d => d.1 = name) = none := by
  refine List.find?_eq_none.2 fun d hd heq => ?_
  have hlt := h d hd
  rw [of_decide_eq_true heq] at hlt
  exact String.lt_irrefl _ hlt

/-- An entry whose value changes is found under its name, and one that is dropped is not. -/
theorem Sorted.find?_filterMap {t : Table β} (h : t.Sorted) (f : β → Option γ) (name : String) :
    (t.filterMap f).find? name = (t.find? name).bind f := by
  obtain ⟨es⟩ := t
  replace h : es.Pairwise fun e d => e.1 < d.1 := h
  simp only [filterMap, find?]
  induction es with
  | nil => rfl
  | cons e es ih =>
    obtain ⟨he, hes⟩ := List.pairwise_cons.1 h
    -- a later entry has another name, so that none takes the place of a dropped one
    have hlater : e.1 = name → (es.find? fun d => d.1 = name) = none := fun heq =>
      find?_eq_none_of_lt (heq ▸ he)
    by_cases hname : e.1 = name
    · cases hf : f e.2 with
      | none =>
        have hnone := ih hes
        rw [hlater hname] at hnone
        simpa [hname, hf] using hnone
      | some v => simp [hname, hf]
    · cases hf : f e.2 <;> simpa [hname, hf] using ih hes

theorem Sorted.nodup_names {t : Table β} (h : t.Sorted) : (t.entries.map Prod.fst).Nodup := by
  refine List.pairwise_map.2 (h.imp fun {e d} hlt heq => ?_)
  rw [heq] at hlt
  exact String.lt_irrefl _ hlt

/-- Where there is one entry of a name, it is what is found under the name. -/
theorem find?_eq_some_iff {t : Table β} (h : (t.entries.map Prod.fst).Nodup) {name : String}
    {value : β} : t.find? name = some value ↔ (name, value) ∈ t.entries := by
  refine ⟨mem_of_find?_eq_some, fun hmem => ?_⟩
  cases hfind : t.find? name with
  | none => exact absurd rfl (find?_eq_none_iff.1 hfind _ hmem)
  | some other =>
    have heq := List.inj_on_of_nodup_map h (mem_of_find?_eq_some hfind) hmem rfl
    exact congrArg (fun e => some e.2) heq

/-- A table is known by what is found in it. -/
theorem Sorted.ext {t u : Table β} (ht : t.Sorted) (hu : u.Sorted)
    (h : ∀ name, t.find? name = u.find? name) : t = u := by
  have hmem : ∀ e, e ∈ t.entries ↔ e ∈ u.entries := fun e => by
    rw [← find?_eq_some_iff ht.nodup_names, ← find?_eq_some_iff hu.nodup_names, h]
  have hperm := (List.perm_ext_iff_of_nodup ht.nodup_names.of_map hu.nodup_names.of_map).2 hmem
  have heq : t.entries = u.entries :=
    hperm.eq_of_pairwise (fun _ _ _ _ hed hde => absurd hde (String.lt_asymm hed)) ht hu
  cases t
  cases u
  exact congrArg Table.mk heq

/-! ### Tables of entries -/

theorem sorted_foldl_insert {t : Table β} (h : t.Sorted) (es : List (String × β)) :
    (es.foldl (fun t e => t.insert e.1 e.2) t).Sorted := by
  induction es generalizing t with
  | nil => exact h
  | cons e es ih => exact ih (h.insert e.1 e.2)

theorem sorted_ofList (es : List (String × β)) : (ofList es).Sorted :=
  sorted_foldl_insert sorted_empty es

theorem find?_foldl_insert_eq_none_iff {t : Table β} {es : List (String × β)} {name : String} :
    (es.foldl (fun t e => t.insert e.1 e.2) t).find? name = none ↔
      name ∉ es.map Prod.fst ∧ t.find? name = none := by
  induction es generalizing t with
  | nil => simp
  | cons e es ih =>
    rw [List.foldl_cons, ih, find?_insert, List.map_cons, List.mem_cons, not_or]
    by_cases h : e.1 = name
    · simp [h]
    · simp [h, Ne.symm h]

/-- The names in the table of a list of entries are theirs. -/
theorem mem_names_ofList {es : List (String × β)} {name : String} :
    name ∈ (ofList es).entries.map Prod.fst ↔ name ∈ es.map Prod.fst := by
  have hgiven : (ofList es).find? name = none ↔ name ∉ es.map Prod.fst := by
    rw [ofList, find?_foldl_insert_eq_none_iff, find?_empty, eq_self, and_true]
  have hkept : (ofList es).find? name = none ↔ name ∉ (ofList es).entries.map Prod.fst := by
    rw [find?_eq_none_iff, List.mem_map, not_exists]
    exact forall_congr' fun e => not_and.symm
  exact not_iff_not.1 (hkept.symm.trans hgiven)

theorem entries_foldl_insert_perm {t : Table β} {es : List (String × β)}
    (h : ((es ++ t.entries).map Prod.fst).Nodup) :
    (es.foldl (fun t e => t.insert e.1 e.2) t).entries.Perm (es ++ t.entries) := by
  induction es generalizing t with
  | nil => exact .refl _
  | cons e es ih =>
    have hnew : t.find? e.1 = none := find?_eq_none_iff.2 fun d hd heq =>
      (List.nodup_cons.1 h).1 (heq ▸ List.mem_map_of_mem (List.mem_append_right es hd))
    have hperm : (es ++ (t.insert e.1 e.2).entries).Perm (e :: es ++ t.entries) :=
      ((entries_insert_perm e.2 hnew).append_left es).trans List.perm_middle
    exact (ih ((hperm.map Prod.fst).nodup_iff.2 h)).trans hperm

/-- Where the names differ the entries of the table are those of the list. -/
theorem entries_ofList_perm {es : List (String × β)} (h : (es.map Prod.fst).Nodup) :
    (ofList es).entries.Perm es := by
  have hnames : ((es ++ []).map Prod.fst).Nodup := by rwa [List.append_nil]
  have hperm : (ofList es).entries.Perm (es ++ []) := entries_foldl_insert_perm (t := ∅) hnames
  rwa [List.append_nil] at hperm

theorem find?_ofList {es : List (String × β)} (h : (es.map Prod.fst).Nodup) {name : String}
    {value : β} : (ofList es).find? name = some value ↔ (name, value) ∈ es := by
  rw [find?_eq_some_iff (sorted_ofList es).nodup_names, (entries_ofList_perm h).mem_iff]

/-- Where the names differ the order of the entries does not matter. -/
theorem ofList_eq_of_perm {es ds : List (String × β)} (h : (es.map Prod.fst).Nodup)
    (hperm : es.Perm ds) : ofList es = ofList ds := by
  refine (sorted_ofList es).ext (sorted_ofList ds) fun name => Option.ext fun value => ?_
  rw [find?_ofList h, find?_ofList ((hperm.map Prod.fst).nodup_iff.1 h), hperm.mem_iff]

/-! ### Entries that stand -/

/-- An entry that may be written once more without a change. -/
def Holds (t : Table β) (name : String) (value : β) : Prop := t.insert name value = t

theorem insertEntry_cons_of_lt {name : String} {e : String × β} (h : name < e.1) (value : β)
    (es : List (String × β)) : insertEntry name value (e :: es) = (name, value) :: e :: es := by
  rw [insertEntry, if_pos h]

theorem insertEntry_cons_of_eq {name : String} {e : String × β} (h : name = e.1) (value : β)
    (es : List (String × β)) : insertEntry name value (e :: es) = (name, value) :: es := by
  rw [insertEntry, if_neg (h ▸ String.lt_irrefl _), if_pos h]

theorem insertEntry_cons_self (name : String) (value old : β) (es : List (String × β)) :
    insertEntry name value ((name, old) :: es) = (name, value) :: es :=
  insertEntry_cons_of_eq (e := (name, old)) rfl value es

theorem insertEntry_cons_of_not {name : String} {e : String × β} (hlt : ¬ name < e.1)
    (hne : name ≠ e.1) (value : β) (es : List (String × β)) :
    insertEntry name value (e :: es) = e :: insertEntry name value es := by
  rw [insertEntry, if_neg hlt, if_neg hne]

theorem insertEntry_insertEntry (name : String) (value : β) (es : List (String × β)) :
    insertEntry name value (insertEntry name value es) = insertEntry name value es := by
  induction es with
  | nil => exact insertEntry_cons_self name value value []
  | cons e es ih =>
    by_cases hlt : name < e.1
    · rw [insertEntry_cons_of_lt hlt, insertEntry_cons_self]
    by_cases heq : name = e.1
    · rw [insertEntry_cons_of_eq heq, insertEntry_cons_self]
    · rw [insertEntry_cons_of_not hlt heq, insertEntry_cons_of_not hlt heq, ih]

/-- Writing an entry of another name does not move one that is in its place. -/
theorem insertEntry_of_insertEntry {name other : String} {value : β} (hother : other ≠ name)
    (new : β) {es : List (String × β)} (h : insertEntry name value es = es) :
    insertEntry name value (insertEntry other new es) = insertEntry other new es := by
  induction es with
  | nil => cases h
  | cons e es ih =>
    have hlt : ¬ name < e.1 := fun hlt => by
      rw [insertEntry_cons_of_lt hlt] at h
      exact absurd (congrArg List.length h) (by simp)
    by_cases heq : name = e.1
    · rw [insertEntry_cons_of_eq heq] at h
      obtain rfl := (List.cons.inj h).1
      by_cases hbefore : other < name
      · rw [insertEntry_cons_of_lt hbefore,
          insertEntry_cons_of_not (String.lt_asymm hbefore) hother.symm, insertEntry_cons_self]
      · rw [insertEntry_cons_of_not hbefore hother, insertEntry_cons_self]
    · rw [insertEntry_cons_of_not hlt heq] at h
      have hes := (List.cons.inj h).2
      by_cases hbefore : other < e.1
      · rw [insertEntry_cons_of_lt hbefore, insertEntry_cons_of_not
          (fun hname => hlt (String.lt_trans hname hbefore)) hother.symm,
          insertEntry_cons_of_not hlt heq, hes]
      by_cases hsame : other = e.1
      · rw [insertEntry_cons_of_eq hsame, insertEntry_cons_of_not (hsame ▸ hlt) hother.symm, hes]
      · rw [insertEntry_cons_of_not hbefore hsame, insertEntry_cons_of_not hlt heq, ih hes]

/-- An entry stands once it is written. -/
theorem holds_insert (t : Table β) (name : String) (value : β) :
    (t.insert name value).Holds name value :=
  congrArg Table.mk (insertEntry_insertEntry name value t.entries)

theorem Holds.insert {t : Table β} {name other : String} {value : β} (h : t.Holds name value)
    (hother : other ≠ name) (new : β) : (t.insert other new).Holds name value :=
  congrArg Table.mk (insertEntry_of_insertEntry hother new (congrArg Table.entries h))

theorem Holds.find? {t : Table β} {name : String} {value : β} (h : t.Holds name value) :
    t.find? name = some value := by
  rw [← show t.insert name value = t from h, find?_insert, if_pos rfl]

end Table

end Schematic
