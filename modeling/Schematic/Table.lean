/-!
# Tables sorted by name

A table keeps one value per name and lists its entries in ascending order of the
names, character by character.

## Main definitions

* `Table` — tables of values of type `β`.
* `Table.insert`, `Table.find?` — writing and reading an entry.
* `Table.ofList` — the table of a list of entries, the last one of a name
  counting.

## Main statements

* `Table.find?_insert` — an entry reads back, and writing it leaves the others
  alone.
* `Table.entries_insert_perm` — writing an entry of a new name adds it to the
  entries and takes none away.
-/

namespace Schematic

/-- Values by name, in ascending order of the names. -/
structure Table (β : Type) where
  /-- The names with their values. -/
  entries : List (String × β)
  deriving BEq, DecidableEq, Repr

namespace Table

variable {β γ : Type}

instance : EmptyCollection (Table β) := ⟨⟨[]⟩⟩

instance : Inhabited (Table β) := ⟨∅⟩

/-- Put an entry in its place in a sorted list, instead of one of the same name. -/
def insertEntry (name : String) (value : β) : List (String × β) → List (String × β)
  | [] => [(name, value)]
  | e :: es =>
      if name < e.1 then (name, value) :: e :: es
      else if name = e.1 then (name, value) :: es
      else e :: insertEntry name value es

/-- Write an entry. -/
def insert (t : Table β) (name : String) (value : β) : Table β :=
  ⟨insertEntry name value t.entries⟩

/-- Read an entry. -/
def find? (t : Table β) (name : String) : Option β :=
  (t.entries.find? fun e => e.1 = name).map Prod.snd

/-- The table of a list of entries; of entries with one name the last counts. -/
def ofList (entries : List (String × β)) : Table β :=
  entries.foldl (fun t e => t.insert e.1 e.2) ∅

/-- How many entries there are. -/
def size (t : Table β) : Nat := t.entries.length

/-- Change the values, dropping the entries without a new one. -/
def filterMap (f : β → Option γ) (t : Table β) : Table γ :=
  ⟨t.entries.filterMap fun e => (f e.2).map fun v => (e.1, v)⟩

@[simp] theorem find?_empty (name : String) : (∅ : Table β).find? name = none := rfl

theorem find?_insertEntry (name other : String) (value : β) (es : List (String × β)) :
    ((insertEntry name value es).find? fun e => e.1 = other).map Prod.snd =
      if name = other then some value
      else (es.find? fun e => e.1 = other).map Prod.snd := by
  induction es with
  | nil => by_cases h : name = other <;> simp [insertEntry, h]
  | cons e es ih =>
    obtain ⟨key, v⟩ := e
    simp only [insertEntry]
    split
    · by_cases h : name = other <;> simp [h]
    · split
      · next heq => subst heq; by_cases h : name = other <;> simp [h]
      · next heq =>
        by_cases ho : key = other
        · subst ho; simp [heq]
        · simpa [ho] using ih

/-- An entry reads back, and writing it leaves the entries of other names alone. -/
theorem find?_insert (t : Table β) (name other : String) (value : β) :
    (t.insert name value).find? other = if name = other then some value else t.find? other :=
  find?_insertEntry name other value t.entries

theorem find?_eq_none_iff {t : Table β} {name : String} :
    t.find? name = none ↔ ∀ e ∈ t.entries, e.1 ≠ name := by
  simp [find?]

theorem mem_of_find?_eq_some {t : Table β} {name : String} {value : β}
    (h : t.find? name = some value) : (name, value) ∈ t.entries := by
  obtain ⟨e, he, rfl⟩ := Option.map_eq_some_iff.1 h
  have hname : e.1 = name := by simpa using List.find?_some he
  exact hname ▸ List.mem_of_find?_eq_some he

theorem insertEntry_perm (name : String) (value : β) {es : List (String × β)}
    (h : ∀ e ∈ es, e.1 ≠ name) : (insertEntry name value es).Perm ((name, value) :: es) := by
  induction es with
  | nil => exact .refl _
  | cons e es ih =>
    have hne : name ≠ e.1 := fun heq => h e List.mem_cons_self heq.symm
    have ih := ih fun e he => h e (List.mem_cons_of_mem _ he)
    simp only [insertEntry, hne, if_false]
    split
    · exact .refl _
    · exact (ih.cons e).trans (.swap _ _ _)

theorem eq_or_mem_of_mem_insertEntry {name : String} {value : β} {es : List (String × β)}
    {e : String × β} (h : e ∈ insertEntry name value es) : e = (name, value) ∨ e ∈ es := by
  induction es with
  | nil => exact .inl (List.mem_singleton.1 h)
  | cons d es ih =>
    simp only [insertEntry] at h
    split at h
    · exact List.mem_cons.1 h
    · split at h
      · exact (List.mem_cons.1 h).imp_right (List.mem_cons_of_mem d)
      · rcases List.mem_cons.1 h with rfl | h
        · exact .inr List.mem_cons_self
        · exact (ih h).imp_right (List.mem_cons_of_mem d)

/-- Writing an entry puts no other entry into a table. -/
theorem eq_or_mem_of_mem_insert {t : Table β} {name : String} {value : β} {e : String × β}
    (h : e ∈ (t.insert name value).entries) : e = (name, value) ∨ e ∈ t.entries :=
  eq_or_mem_of_mem_insertEntry h

/-- Writing an entry of a new name adds it and takes none away. -/
theorem entries_insert_perm {t : Table β} {name : String} (value : β)
    (h : t.find? name = none) : (t.insert name value).entries.Perm ((name, value) :: t.entries) :=
  insertEntry_perm name value (find?_eq_none_iff.1 h)

end Table

end Schematic
