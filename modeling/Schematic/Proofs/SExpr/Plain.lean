import Mathlib.Data.List.TakeWhile
import Schematic.SExpr.Parser
import Schematic.SExpr.Printer

/-!
# Documents that can be read back

A symbol is written as it is, so only some symbols come back as they were: a
text with a blank or a parenthesis in it would fall apart, and one that looks
like a number would come back as a number.  A document is *plain* if all its
symbols are words that are not numbers.  Whatever the parser returns is plain.

Numbers are rounded when they are written.  What comes back for a number is the
atom that its text reads as.

## Main definitions

* `SExpr.IsWord`, `SExpr.IsSymbol`, `SExpr.Plain` — plain documents.
* `SExpr.reread` — a document with every number replaced by what its text reads
  as.
* `SExpr.numbers`, `SExpr.Rereads` — the numbers of a document, and the numbers
  whose text is written again when it is read.

## Main statements

* `SExpr.plain_bareAtom` — a word is read as a plain atom.
* `SExpr.plain_of_readFrom` — what is read is plain.
-/

namespace Schematic.SExpr

variable {α : Type} [Scalar α]

/-! ### Plain documents -/

/-- A text that is read as one run of bare characters. -/
def IsWord (cs : List Char) : Prop := cs ≠ [] ∧ ∀ c ∈ cs, isBareChar c = true

/-- Whether a run of bare characters is read as a number. -/
def readsAsNumber (cs : List Char) : Bool :=
  match Decimal.parse? cs with
  | some (.finite _) => true
  | _ => false

/-- A word that is no number. -/
def IsSymbol (s : String) : Prop := IsWord s.toList ∧ readsAsNumber s.toList = false

/-- The characters are run through in their order. -/
instance instDecidableIsWord (cs : List Char) : Decidable (IsWord cs) :=
  decidable_of_iff (cs ≠ [] ∧ cs.all isBareChar = true) (and_congr_right' List.all_eq_true)

instance instDecidableIsSymbol (s : String) : Decidable (IsSymbol s) :=
  inferInstanceAs (Decidable (_ ∧ _))

omit [Scalar α] in
/-- All symbols of the document are words that are no numbers. -/
inductive Plain : SExpr α → Prop where
  /-- The members of a list are plain. -/
  | list {xs : List (SExpr α)} (members : ∀ x ∈ xs, Plain x) : Plain (.list xs)
  /-- A symbol is a word that is no number. -/
  | symbol {s : String} (word : IsSymbol s) : Plain (.symbol s)
  /-- There is no condition on strings. -/
  | string (s : String) : Plain (.string s)
  /-- There is no condition on numbers. -/
  | number (v : α) : Plain (.number v)

theorem bareAtom_of_parse? {cs : List Char} {d : Decimal}
    (h : Decimal.parse? cs = some (.finite d)) :
    (bareAtom cs : SExpr α) = .number (Scalar.ofDecimal d) := by
  rw [bareAtom, h]

theorem bareAtom_of_readsAsNumber {cs : List Char} (h : readsAsNumber cs = true) :
    ∃ v : α, (bareAtom cs : SExpr α) = .number v := by
  unfold readsAsNumber at h
  split at h
  · next d hd => exact ⟨Scalar.ofDecimal d, bareAtom_of_parse? hd⟩
  · exact absurd h Bool.false_ne_true

theorem bareAtom_of_not_readsAsNumber {cs : List Char} (h : readsAsNumber cs = false) :
    (bareAtom cs : SExpr α) = .symbol (String.ofList cs) := by
  rw [bareAtom]
  split
  · next d hd => rw [readsAsNumber, hd] at h; exact absurd h.symm Bool.false_ne_true
  · rfl

theorem bareAtom_of_isSymbol {s : String} (h : IsSymbol s) :
    (bareAtom s.toList : SExpr α) = .symbol s := by
  rw [bareAtom_of_not_readsAsNumber h.2, String.ofList_toList]

@[simp] theorem isList_bareAtom (cs : List Char) : (bareAtom cs : SExpr α).isList = false := by
  unfold bareAtom
  split <;> rfl

/-- A word is read as a plain atom. -/
theorem plain_bareAtom {cs : List Char} (h : IsWord cs) : (bareAtom cs : SExpr α).Plain := by
  cases hnum : readsAsNumber cs with
  | true =>
    obtain ⟨v, hv⟩ := bareAtom_of_readsAsNumber (α := α) hnum
    rw [hv]
    exact .number v
  | false =>
    rw [bareAtom_of_not_readsAsNumber hnum]
    refine .symbol ⟨?_, ?_⟩
    · rwa [String.toList_ofList]
    · rwa [String.toList_ofList]

/-- A bare token is a word. -/
theorem isWord_of_nextToken? {cs w rest : List Char}
    (h : nextToken? cs = some (.bare w, rest)) : IsWord w := by
  unfold nextToken? at h
  generalize cs.dropWhile isGap = ds at h
  cases ds with
  | nil => exact absurd h (by simp [tokenAt?])
  | cons c more =>
    simp only [tokenAt?] at h
    split at h
    · simp at h
    split at h
    · simp at h
    split at h
    · simp at h
    split at h
    · next hc =>
      simp only [Option.some.injEq, Prod.mk.injEq, Token.bare.injEq] at h
      obtain ⟨rfl, -⟩ := h
      refine ⟨List.cons_ne_nil _ _, fun d hd => ?_⟩
      rcases List.mem_cons.1 hd with rfl | hd
      · exact hc
      · exact List.mem_takeWhile_imp hd
    · simp at h

/-- What is read is plain, whatever the text: a token becomes a plain member,
and a list is closed over plain members. -/
theorem plain_of_readFrom {stack : List (List (SExpr α))} {cs rest : List Char} {e : SExpr α}
    (hstack : ∀ xs ∈ stack, ∀ x ∈ xs, x.Plain) (h : readFrom stack cs = some (e, rest)) :
    e.Plain := by
  have push : ∀ {x : SExpr α} {xs : List (SExpr α)} {more : List (List (SExpr α))},
      x.Plain → (∀ ys ∈ xs :: more, ∀ y ∈ ys, y.Plain) →
      ∀ ys ∈ (x :: xs) :: more, ∀ y ∈ ys, y.Plain := by
    intro x xs more hx hmore
    simp only [List.forall_mem_cons] at hmore ⊢
    exact ⟨⟨hx, hmore.1⟩, hmore.2⟩
  have close : ∀ {xs : List (SExpr α)}, (∀ x ∈ xs, x.Plain) → (SExpr.list xs.reverse).Plain :=
    fun hxs => .list fun x hx => hxs x (List.mem_reverse.1 hx)
  fun_induction readFrom stack cs with
  | case1 => exact absurd h (by simp)
  | case2 stack cs mid _ ih =>
    exact ih (List.forall_mem_cons.2 ⟨fun x hx => absurd hx List.not_mem_nil, hstack⟩) h
  | case3 => exact absurd h (by simp)
  | case4 cs mid _ xs =>
    obtain ⟨rfl, -⟩ := Prod.mk.inj (Option.some.inj h)
    exact close (hstack xs (List.mem_singleton_self xs))
  | case5 cs mid _ xs outer more ih =>
    simp only [List.unattach_reverse, List.unattach_attach] at ih
    obtain ⟨hxs, hmore⟩ := List.forall_mem_cons.1 hstack
    exact ih (push (close hxs) hmore) h
  | case6 cs s mid _ =>
    obtain ⟨rfl, -⟩ := Prod.mk.inj (Option.some.inj h)
    exact .string s
  | case7 cs s mid _ xs more ih => exact ih (push (.string s) hstack) h
  | case8 cs s mid htoken =>
    obtain ⟨rfl, -⟩ := Prod.mk.inj (Option.some.inj h)
    exact plain_bareAtom (isWord_of_nextToken? htoken)
  | case9 cs s mid htoken xs more ih =>
    exact ih (push (plain_bareAtom (isWord_of_nextToken? htoken)) hstack) h

/-! ### What comes back -/

mutual

/-- The document that comes back: a number becomes the atom that its text reads
as. -/
def reread : SExpr α → SExpr α
  | .list xs => .list (rereadAll xs)
  | .symbol s => .symbol s
  | .string s => .string s
  | .number v => bareAtom (numberText v).toList

/-- The members of a list as they come back. -/
def rereadAll : List (SExpr α) → List (SExpr α)
  | [] => []
  | x :: xs => reread x :: rereadAll xs

end

mutual

/-- The numbers of a document, in the order in which they are written. -/
def numbers : SExpr α → List α
  | .list xs => numbersOf xs
  | .number v => [v]
  | _ => []

/-- The numbers of the members of a list. -/
def numbersOf : List (SExpr α) → List α
  | [] => []
  | x :: xs => numbers x ++ numbersOf xs

end

omit [Scalar α] in
theorem mem_numbersOf {xs : List (SExpr α)} {v : α} :
    v ∈ numbersOf xs ↔ ∃ x ∈ xs, v ∈ x.numbers := by
  induction xs with
  | nil => simp [numbersOf]
  | cons x xs ih => simp [numbersOf, ih]

/-- The text of the number is written again when it is read. -/
def Rereads (v : α) : Prop :=
  inlineChars (bareAtom (numberText v).toList : SExpr α) = (numberText v).toList

/-- Numbers are written as words, and not as a head that changes how the lines
are broken. -/
class PlainNumbers (α : Type) [Scalar α] : Prop where
  /-- A number is written as one run of bare characters. -/
  isWord (v : α) : IsWord (numberText v).toList
  /-- No number is written as the head of a short record. -/
  notMem_inlineHeads (v : α) : numberText v ∉ inlineHeads

end Schematic.SExpr
