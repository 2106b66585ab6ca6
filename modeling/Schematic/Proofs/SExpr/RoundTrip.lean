import Schematic.Proofs.SExpr.Lexing
import Schematic.Proofs.SExpr.NumberText

/-!
# Writing and reading back

Both forms of a plain document are read back as the document with its numbers
reread.  A document that was parsed and written once does not change any more
when it is parsed and written again, as far as its numbers keep their texts.

## Main statements

* `SExpr.lines_reread` — a document is laid out as before when its numbers are
  reread.
* `SExpr.printed_reads_back` — what the two printed forms are read as.
-/

namespace Schematic.SExpr

variable {α : Type} [Scalar α]

theorem rereadAll_eq_map (xs : List (SExpr α)) : rereadAll xs = xs.map reread := by
  induction xs with
  | nil => rfl
  | cons x xs ih => rw [rereadAll, ih, List.map_cons]

/-! ### Layout -/

@[simp] theorem isList_reread (e : SExpr α) : e.reread.isList = e.isList := by
  cases e with
  | list xs => rw [reread]; rfl
  | symbol s => rw [reread]
  | string s => rw [reread]
  | number v => rw [reread, isList_bareAtom]; rfl

theorem inlineItems_reread {xs : List (SExpr α)}
    (hxs : ∀ x ∈ xs, inlineChars x.reread = inlineChars x) :
    inlineItems (xs.map reread) = inlineItems xs := by
  induction xs with
  | nil => rfl
  | cons x xs ih =>
    obtain ⟨hx, hxs⟩ := List.forall_mem_cons.1 hxs
    cases xs with
    | nil => exact hx
    | cons y ys =>
      have := ih hxs
      rw [List.map_cons] at this
      rw [List.map_cons, List.map_cons, inlineItems, hx, this, inlineItems]

/-- The one-line form stays when the numbers are reread. -/
theorem inlineChars_reread {e : SExpr α} (he : e.Plain) (hnum : ∀ v ∈ e.numbers, Rereads v) :
    inlineChars e.reread = inlineChars e := by
  induction he with
  | @list xs _ ih =>
    have hxs : ∀ x ∈ xs, inlineChars x.reread = inlineChars x := fun x hx =>
      ih x hx fun v hv => hnum v (mem_numbersOf.2 ⟨x, hx, hv⟩)
    rw [reread, rereadAll_eq_map, inlineChars, inlineItems_reread hxs, inlineChars]
  | symbol word => rw [reread]
  | string s => rw [reread]
  | number v => exact hnum v (List.mem_singleton_self v)

omit [Scalar α] in
theorem staysInline_list (xs : List (SExpr α)) : (SExpr.list xs).staysInline =
    (((SExpr.list xs).head?.map fun s => inlineHeads.contains s).getD false || !xs.any isList) := by
  match xs with
  | [] => rfl
  | .list _ :: _ => rfl
  | .symbol _ :: _ => rfl
  | .string _ :: _ => rfl
  | .number _ :: _ => rfl

theorem memberLines_reread {xs : List (SExpr α)}
    (hxs : ∀ x ∈ xs, ∀ depth, lines depth x.reread = lines depth x) (depth : Nat)
    (broken : Bool) : memberLines depth broken (xs.map reread) = memberLines depth broken xs := by
  induction xs generalizing broken with
  | nil => rfl
  | cons x xs ih =>
    obtain ⟨hx, hxs⟩ := List.forall_mem_cons.1 hxs
    rw [List.map_cons, memberLines, isList_reread, hx, ih hxs, ih hxs, memberLines]

variable [PlainNumbers α]

/-- No number becomes the head of a short record when it is reread. -/
theorem inlineHead_reread (xs : List (SExpr α)) :
    ((SExpr.list (xs.map reread)).head?.map fun s => inlineHeads.contains s).getD false =
      ((SExpr.list xs).head?.map fun s => inlineHeads.contains s).getD false := by
  match xs with
  | [] => rfl
  | .list ys :: xs => rw [List.map_cons, reread]; rfl
  | .symbol s :: xs => rw [List.map_cons, reread]; rfl
  | .string s :: xs => rw [List.map_cons, reread]; rfl
  | .number v :: xs =>
    rw [List.map_cons, reread]
    cases hread : readsAsNumber (numberText v).toList with
    | true =>
      obtain ⟨w, hw⟩ := bareAtom_of_readsAsNumber (α := α) hread
      rw [hw]
      rfl
    | false =>
      have hhead : inlineHeads.contains (numberText v) = false := by
        rw [← Bool.not_eq_true, List.contains_iff_mem]
        exact PlainNumbers.notMem_inlineHeads v
      rw [bareAtom_of_not_readsAsNumber hread, String.ofList_toList]
      simp only [head?, Option.map_some, Option.getD_some, hhead]
      rfl

/-- A list stays on one line when its numbers are reread. -/
theorem staysInline_reread (xs : List (SExpr α)) :
    (SExpr.list (xs.map reread)).staysInline = (SExpr.list xs).staysInline := by
  have hany : (xs.map reread).any isList = xs.any isList := by
    rw [List.any_map]
    exact congrArg xs.any (funext isList_reread)
  rw [staysInline_list, staysInline_list, inlineHead_reread, hany]

/-- A document is laid out as before when its numbers are reread. -/
theorem lines_reread {e : SExpr α} (he : e.Plain) (hnum : ∀ v ∈ e.numbers, Rereads v)
    (depth : Nat) : lines depth e.reread = lines depth e := by
  induction he generalizing depth with
  | @list xs members ih =>
    have hmem : ∀ x ∈ xs, ∀ v ∈ x.numbers, Rereads v := fun x hx v hv =>
      hnum v (mem_numbersOf.2 ⟨x, hx, hv⟩)
    have hinline : inlineChars (SExpr.list xs).reread = inlineChars (SExpr.list xs) :=
      inlineChars_reread (.list members) hnum
    have hlead : (xs.map reread).takeWhile (fun x => !x.isList) =
        (xs.takeWhile fun x => !x.isList).map reread := by
      rw [List.takeWhile_map]
      congr 2
      funext x
      simp
    rw [reread, rereadAll_eq_map] at hinline ⊢
    rw [lines, staysInline_reread, hinline, lines, hlead, inlineItems_reread fun x hx =>
        inlineChars_reread (members x (List.takeWhile_prefix _ |>.subset hx))
          (hmem x (List.takeWhile_prefix _ |>.subset hx)),
      memberLines_reread fun x hx => ih x hx (hmem x hx)]
  | symbol word => rw [reread]
  | string s => rw [reread]
  | number v =>
    have hatom : ∀ x : SExpr α, x.isList = false → lines depth x = [⟨depth, inlineChars x⟩] := by
      intro x hx
      cases x with
      | list xs => exact absurd hx (by simp [isList])
      | _ => rw [lines]; simp
    rw [hatom _ ((isList_reread _).trans rfl), hatom _ rfl,
      inlineChars_reread (.number v) hnum]

/-! ### Reading back -/

/-- The printed forms of a plain document are read back as the document, its
numbers reread.  What is parsed is plain, so a parsed document is written alike
after it is written and parsed once more, if its numbers keep their texts. -/
theorem printed_reads_back :
    (∀ e : SExpr α, e.Plain →
      parse (documentText e) = .ok e.reread ∧ parse (inlineText e) = .ok e.reread) ∧
    (∀ (text : String) (e : SExpr α), parse text = .ok e → e.Plain ∧
      ((∀ v ∈ e.numbers, Rereads v) →
        (parse (α := α) (documentText e)).map documentText = .ok (documentText e))) := by
  have document : ∀ e : SExpr α, e.Plain → parse (documentText e) = .ok e.reread := by
    intro e he
    have h := lexes_lines he 0 []
    rw [List.append_nil] at h
    exact parse_of_lexes he (by rwa [documentText, String.toList_ofList])
  have oneLine : ∀ e : SExpr α, e.Plain → parse (inlineText e) = .ok e.reread := by
    intro e he
    have h := lexes_inlineChars he [] (by simp [Breaks])
    rw [List.append_nil] at h
    exact parse_of_lexes he (by rwa [inlineText, String.toList_ofList])
  refine ⟨fun e he => ⟨document e he, oneLine e he⟩, fun text e h => ?_⟩
  have he : e.Plain := by
    rw [parse] at h
    split at h
    · exact absurd h (by simp)
    · next t rest hread =>
      split at h
      · cases h
        exact plain_of_readFrom (fun _ hxs => absurd hxs List.not_mem_nil) hread
      · exact absurd h (by simp)
  refine ⟨he, fun hnum => ?_⟩
  have hlayout : documentText e.reread = documentText e := by
    rw [documentText, lines_reread he hnum, documentText]
  rw [document e he, Except.map, hlayout]

/-- A frame with a title that has to be escaped and a width that is rounded. -/
def sampleFrame {β : Type} (width : β) : SExpr β :=
  record "frame" [field "title" "say \"hi\"\n(twice)", record "width" [.number width]]

theorem plain_sampleFrame {β : Type} (width : β) : (sampleFrame width).Plain := by
  have hfield : (field "title" "say \"hi\"\n(twice)" : SExpr β).Plain := by
    refine .list ?_
    simp only [List.forall_mem_cons]
    exact ⟨.symbol (by decide), .string _, nofun⟩
  have hwidth : (record "width" [.number width]).Plain := by
    refine .list ?_
    simp only [List.forall_mem_cons]
    exact ⟨.symbol (by decide), .number _, nofun⟩
  refine .list ?_
  simp only [List.forall_mem_cons]
  exact ⟨.symbol (by decide), hfield, hwidth, nofun⟩

/-- The frame comes back with its width rounded, and then stays. -/
theorem sampleFrame_reads_back :
    parse (documentText (sampleFrame (0.5 : Float))) = .ok (sampleFrame (0.5 : Float)).reread ∧
    documentText (sampleFrame (1 / 3 : ℚ)) =
      "(frame\n  (title \"say \\\"hi\\\"\\n(twice)\")\n  (width 0.3333)\n)\n" ∧
    parse (documentText (sampleFrame (1 / 3 : ℚ))) = .ok (sampleFrame (3333 / 10000 : ℚ)) ∧
    (parse (α := ℚ) (documentText (sampleFrame (3333 / 10000 : ℚ)))).map documentText =
      .ok (documentText (sampleFrame (3333 / 10000 : ℚ))) := by
  have htext : Decimal.parse? (numberText (1 / 3 : ℚ)).toList =
      some (.finite ⟨false, 3333, -4⟩) := by decide +kernel
  have hwidth : (bareAtom (numberText (1 / 3 : ℚ)).toList : SExpr ℚ) =
      .number (Decimal.toRat ⟨false, 3333, -4⟩) := bareAtom_of_parse? htext
  have hvalue : Decimal.toRat ⟨false, 3333, -4⟩ = 3333 / 10000 := by decide +kernel
  have hreread : (sampleFrame (1 / 3 : ℚ)).reread = sampleFrame (3333 / 10000) := by
    simp only [sampleFrame, record, field, reread, rereadAll, hwidth, hvalue]
  have hread : parse (documentText (sampleFrame (1 / 3 : ℚ))) =
      .ok (sampleFrame (3333 / 10000 : ℚ)) := by
    rw [← hreread]
    exact (printed_reads_back.1 _ (plain_sampleFrame _)).1
  have hnum : ∀ v ∈ (sampleFrame (3333 / 10000 : ℚ)).numbers, Rereads v := by
    have hnumbers : (sampleFrame (3333 / 10000 : ℚ)).numbers = [3333 / 10000] := rfl
    rw [hnumbers, List.forall_mem_singleton, Rereads]
    decide +kernel
  exact ⟨(printed_reads_back.1 _ (plain_sampleFrame _)).1, by decide +kernel, hread,
    (printed_reads_back.2 _ _ hread).2 hnum⟩

end Schematic.SExpr
