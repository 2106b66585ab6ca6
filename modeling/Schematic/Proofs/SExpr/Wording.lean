import Schematic.Proofs.SExpr.RoundTrip

/-!
# Documents of words

A document without numbers comes back exactly as it was written: nothing in it is
rounded, and whatever stands between quotes is read character by character.

## Main definitions

* `SExpr.Worded` — documents of symbols and strings.
* `SExpr.entry?` — the text in a part of a record.

## Main statements

* `SExpr.Worded.parse_documentText` — such a document is read back as it was.
-/

namespace Schematic.SExpr

variable {α : Type}

/-- A document of strings and of symbols that are words and no numbers. -/
inductive Worded : SExpr α → Prop where
  /-- The members of a list are such documents. -/
  | list {xs : List (SExpr α)} (members : ∀ x ∈ xs, Worded x) : Worded (.list xs)
  /-- A symbol is a word that is no number. -/
  | symbol {s : String} (word : IsSymbol s) : Worded (.symbol s)
  /-- There is no condition on strings. -/
  | string (s : String) : Worded (.string s)

variable {e : SExpr α}

theorem Worded.plain (h : e.Worded) : e.Plain := by
  induction h with
  | list _ ih => exact .list ih
  | symbol word => exact .symbol word
  | string s => exact .string s

theorem Worded.record {head : String} (hhead : IsSymbol head) {items : List (SExpr α)}
    (h : ∀ x ∈ items, x.Worded) : (SExpr.record head items).Worded :=
  .list (List.forall_mem_cons.2 ⟨.symbol hhead, h⟩)

theorem Worded.field {head : String} (hhead : IsSymbol head) (value : String) :
    (SExpr.field head value : SExpr α).Worded :=
  .record hhead (List.forall_mem_singleton.2 (.string value))

section Reading

variable [Scalar α]

theorem Worded.reread_eq (h : e.Worded) : e.reread = e := by
  induction h with
  | @list xs _ ih =>
    rw [reread, rereadAll_eq_map]
    exact congrArg SExpr.list ((List.map_congr_left ih).trans (List.map_id _))
  | symbol word => rw [reread]
  | string s => rw [reread]

/-- A document of words is read back as it was. -/
theorem Worded.parse_documentText [PlainNumbers α] (h : e.Worded) :
    parse (documentText e) = .ok e := by
  have hlexes := lexes_lines h.plain 0 []
  rw [List.append_nil] at hlexes
  rw [parse_of_lexes h.plain (by rwa [documentText, String.toList_ofList]), h.reread_eq]

end Reading

/-! ### Parts of a record -/

/-- The text in a part of a record. -/
def entry? (name : String) (e : SExpr α) : Option String := (e.child? name).bind (·.value?)

@[simp] theorem head?_field (head value : String) :
    (field head value : SExpr α).head? = some head := rfl

@[simp] theorem head?_string (text : String) : (SExpr.string text : SExpr α).head? = none := rfl

@[simp] theorem head?_symbol (text : String) : (SExpr.symbol text : SExpr α).head? = none := rfl

@[simp] theorem text?_string (text : String) :
    (SExpr.string text : SExpr α).text? = some text := rfl

@[simp] theorem value?_record_string (head text : String) (items : List (SExpr α)) :
    (record head (.string text :: items)).value? = some text := rfl

@[simp] theorem value?_field (head value : String) :
    (field head value : SExpr α).value? = some value := rfl

@[simp] theorem child?_record_nil (name head : String) :
    (record head [] : SExpr α).child? name = none := rfl

/-- A part is looked for from the front. -/
@[simp] theorem child?_record_cons (name head : String) (x : SExpr α) (xs : List (SExpr α)) :
    (record head (x :: xs)).child? name =
      if x.head? = some name then some x else (record head xs).child? name := by
  have hhead : ∀ ys : List (SExpr α), (record head ys).child? name =
      ys.find? fun y => y.head? == some name := fun _ => rfl
  rw [hhead, hhead, List.find?_cons]
  by_cases h : x.head? = some name
  · simp [h]
  · rw [if_neg h, beq_eq_false_iff_ne.2 h]

/-- Parts that start with another symbol are passed over. -/
theorem child?_record_append_of_head {part name : String} (hne : part ≠ name)
    {xs : List (SExpr α)} (h : ∀ x ∈ xs, x.head? = some part) (head : String)
    (ys : List (SExpr α)) :
    (record head (xs ++ ys)).child? name = (record head ys).child? name := by
  induction xs with
  | nil => rfl
  | cons x xs ih =>
    obtain ⟨hx, hxs⟩ := List.forall_mem_cons.1 h
    rw [List.cons_append, child?_record_cons, hx, if_neg fun heq => hne (Option.some.inj heq),
      ih hxs]

@[simp] theorem children_record_nil (name head : String) :
    (record head [] : SExpr α).children name = [] := rfl

@[simp] theorem children_record_cons (name head : String) (x : SExpr α) (xs : List (SExpr α)) :
    (record head (x :: xs)).children name =
      if x.head? = some name then x :: (record head xs).children name
      else (record head xs).children name := by
  have hhead : ∀ ys : List (SExpr α), (record head ys).children name =
      ys.filter fun y => y.head? == some name := fun _ => rfl
  rw [hhead, List.filter_cons, hhead]
  by_cases h : x.head? = some name <;> simp [h]

theorem children_record_append (name head : String) (xs ys : List (SExpr α)) :
    (record head (xs ++ ys)).children name =
      (record head xs).children name ++ (record head ys).children name := by
  have hhead : ∀ zs : List (SExpr α), (record head zs).children name =
      zs.filter fun z => z.head? == some name := fun _ => rfl
  simp only [hhead, List.filter_append]

/-- Of parts that start with one symbol all are found under a name, or none. -/
theorem children_record_of_head {part : String} {xs : List (SExpr α)}
    (h : ∀ x ∈ xs, x.head? = some part) (name head : String) :
    (record head xs).children name = if part = name then xs else [] := by
  have hhead : (record head xs).children name = xs.filter fun x => x.head? == some name := rfl
  rw [hhead]
  split
  · next heq =>
    exact List.filter_eq_self.2 fun x hx => by rw [h x hx, heq, beq_self_eq_true]
  · next hne =>
    refine List.filter_eq_nil_iff.2 fun x hx heq => hne ?_
    rw [h x hx] at heq
    exact Option.some.inj (beq_iff_eq.1 heq)

/-- In a record of parts that each start with one symbol, those of a name are found under it. -/
theorem children_record_parts {parts : List (String × List (SExpr α))}
    (h : ∀ p ∈ parts, ∀ x ∈ p.2, x.head? = some p.1) (name head : String) :
    (record head (parts.flatMap Prod.snd)).children name =
      parts.flatMap fun p => if p.1 = name then p.2 else [] := by
  induction parts with
  | nil => rfl
  | cons p parts ih =>
    rw [List.forall_mem_cons] at h
    rw [List.flatMap_cons, children_record_append, children_record_of_head h.1, ih h.2,
      List.flatMap_cons]

end Schematic.SExpr
