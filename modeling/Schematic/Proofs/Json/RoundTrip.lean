import Schematic.Proofs.Document.Uuid

/-!
# Identifiers that are stored

An object of texts that is written is read as the same members in the same order:
the escapes inside quotes are undone character by character, so that the closing
quote is the one that was written, and what stands between the tokens is blank.  So
the stored form of a table of identifiers reads back.

## Main definitions

* `JsonValue.ofTexts` — an object whose members are all texts.

## Main statements

* `splitQuoted?_flatMap`, `unescape?_flatMap` — a text between quotes reads back.
* `readStringMembers?_text` — an object of texts reads back.
* `IdMap.read?_text` — a canonical table of identifiers reads back.
-/

namespace Schematic

open JsonValue

/-! ### Characters between quotes -/

/-- A character is written as a letter after a backslash, or by the two digits of its code, or as
it is. -/
theorem JsonValue.escapeChar_cases (c : Char) :
    (∃ d, escapeChar c = ['\\', d] ∧ letterEscape? d = some c) ∨
      (c.toNat < 32 ∧
        escapeChar c = ['\\', 'u', '0', '0', hexDigit (c.toNat / 16), hexDigit c.toNat]) ∨
      (escapeChar c = [c] ∧ c ≠ '"' ∧ c ≠ '\\' ∧ 32 ≤ c.toNat) := by
  by_cases hletter : c ∈ ['"', '\\', '\n', '\r', '\t', '\x08', '\x0c']
  · refine .inl ?_
    simp only [List.mem_cons, List.not_mem_nil, or_false] at hletter
    rcases hletter with rfl | rfl | rfl | rfl | rfl | rfl | rfl
    all_goals exact ⟨_, rfl, by decide⟩
  · simp only [List.mem_cons, List.not_mem_nil, or_false, not_or] at hletter
    obtain ⟨hquote, hslash, hn, hr, ht, hb, hf⟩ := hletter
    simp only [escapeChar, hquote, hslash, hn, hr, ht, hb, hf, if_false]
    by_cases hlow : c.toNat < 32
    · exact .inr (.inl ⟨hlow, if_pos hlow⟩)
    · exact .inr (.inr ⟨if_neg hlow, hquote, hslash, Nat.le_of_not_lt hlow⟩)

theorem splitQuoted?_backslash (c : Char) (rest : List Char) :
    splitQuoted? ('\\' :: c :: rest) =
      (splitQuoted? rest).map fun r => ('\\' :: c :: r.1, r.2) := by
  rw [splitQuoted?]

theorem splitQuoted?_plain {c : Char} (hquote : c ≠ '"') (hslash : c ≠ '\\') (rest : List Char) :
    splitQuoted? (c :: rest) = (splitQuoted? rest).map fun r => (c :: r.1, r.2) := by
  rw [splitQuoted?]
  · exact hquote
  · exact fun _ _ h => absurd h hslash

/-- A digit neither closes a text nor escapes anything. -/
theorem hexDigit_ne (n : Nat) : hexDigit n ≠ '"' ∧ hexDigit n ≠ '\\' := by
  have hvalue := hexDigitValue?_hexDigit n
  refine ⟨fun h => ?_, fun h => ?_⟩
  all_goals
    rw [h] at hvalue
    exact absurd hvalue (by simp [hexDigitValue?])

/-- No written character closes the text. -/
theorem splitQuoted?_escapeChar (c : Char) (rest : List Char) :
    splitQuoted? (escapeChar c ++ rest) =
      (splitQuoted? rest).map fun r => (escapeChar c ++ r.1, r.2) := by
  rcases escapeChar_cases c with ⟨d, hc, -⟩ | ⟨-, hc⟩ | ⟨hc, hquote, hslash, -⟩
  · rw [hc]
    exact splitQuoted?_backslash d rest
  · have hhigh := hexDigit_ne (c.toNat / 16)
    have hlow := hexDigit_ne c.toNat
    simp only [hc, List.cons_append, List.nil_append]
    rw [splitQuoted?_backslash, splitQuoted?_plain (by decide) (by decide),
      splitQuoted?_plain (by decide) (by decide), splitQuoted?_plain hhigh.1 hhigh.2,
      splitQuoted?_plain hlow.1 hlow.2]
    simp only [Option.map_map]
    rfl
  · rw [hc]
    exact splitQuoted?_plain hquote hslash rest

/-- The code of a character is told by its two digits. -/
theorem hexValue?_code {n : Nat} (h : n < 32) :
    hexValue? ['0', '0', hexDigit (n / 16), hexDigit n] = some n := by
  have hzero : hexDigitValue? '0' = some 0 := by decide
  have hsum : 16 * (n / 16 % 16) + n % 16 = n := by omega
  simp [hexValue?, hzero, hexDigitValue?_hexDigit, hsum]

/-- A written character reads back. -/
theorem unescape?_escapeChar (c : Char) (rest : List Char) :
    unescape? (escapeChar c ++ rest) = (unescape? rest).map (c :: ·) := by
  rcases escapeChar_cases c with ⟨d, hc, hletter⟩ | ⟨hcode, hc⟩ | ⟨hc, -, hslash, hhigh⟩
  · have hne : d ≠ 'u' := by
      rintro rfl
      exact absurd hletter (by simp [letterEscape?])
    rw [hc]
    simp only [List.cons_append, List.nil_append]
    rw [unescape?]
    · rw [hletter]
      rfl
    · intro _ _ _ _ _ hu
      exact absurd hu hne
  · have hunit : charOfUnit? c.toNat = some c := by
      rw [charOfUnit?, if_neg, Char.ofNat_toNat]
      simp only [Bool.and_eq_true, decide_eq_true_eq]
      omega
    rw [hc]
    simp only [List.cons_append, List.nil_append]
    rw [unescape?, hexValue?_code hcode, Option.bind_eq_bind, Option.bind_some, hunit]
  · have hplain : (decide (c = '\\') || decide (c.toNat < 32)) = false := by
      simp [hslash, Nat.not_lt.2 hhigh]
    rw [hc, List.singleton_append, unescape?]
    · rw [hplain]
      rfl
    · exact fun _ _ _ _ _ h => absurd h hslash
    · exact fun _ _ h => absurd h hslash

/-- What was written between quotes ends at the closing quote. -/
theorem splitQuoted?_flatMap (text rest : List Char) :
    splitQuoted? (text.flatMap escapeChar ++ '"' :: rest) =
      some (text.flatMap escapeChar, rest) := by
  induction text with
  | nil => rfl
  | cons c text ih =>
    rw [List.flatMap_cons, List.append_assoc, splitQuoted?_escapeChar, ih]
    rfl

/-- What was written between quotes reads back. -/
theorem unescape?_flatMap (text : List Char) : unescape? (text.flatMap escapeChar) = some text := by
  induction text with
  | nil => rfl
  | cons c text ih =>
    rw [List.flatMap_cons, unescape?_escapeChar, ih]
    rfl

/-! ### Tokens -/

namespace JsonToken

/-- The characters that are tokens. -/
def marks : List (Char × JsonToken) :=
  [('{', .objectStart), ('}', .objectEnd), (':', .colon), (',', .comma)]

theorem scan?_mark {c : Char} {token : JsonToken} (h : (c, token) ∈ marks) (rest : List Char) :
    scan? (c :: rest) = (scan? rest).map (token :: ·) := by
  simp only [marks, List.mem_cons, Prod.mk.injEq, List.not_mem_nil, or_false] at h
  rw [scan?]
  rcases h with ⟨rfl, rfl⟩ | ⟨rfl, rfl⟩ | ⟨rfl, rfl⟩ | ⟨rfl, rfl⟩
  all_goals simp [isJsonBlank]

theorem scan?_nil : scan? [] = some [] := by rw [scan?]

theorem scan?_blank {c : Char} (h : isJsonBlank c = true) (rest : List Char) :
    scan? (c :: rest) = scan? rest := by
  rw [scan?, if_pos h]

theorem scan?_newLine (depth : Nat) (rest : List Char) :
    scan? (newLine depth ++ rest) = scan? rest := by
  have hspaces : ∀ n, scan? (List.replicate n ' ' ++ rest) = scan? rest := by
    intro n
    induction n with
    | zero => rfl
    | succ n ih => rw [List.replicate_succ, List.cons_append, scan?_blank (by decide), ih]
  rw [newLine, List.cons_append, scan?_blank (by decide), hspaces]

/-- A text that was written is one token. -/
theorem scan?_quote (text : String) (rest : List Char) :
    scan? (quote text ++ rest) = (scan? rest).map (.string text :: ·) := by
  have hsplit := splitQuoted?_flatMap text.toList rest
  rw [quote, List.append_assoc, List.cons_append, List.singleton_append, scan?]
  simp only [show isJsonBlank '"' = false by decide, Bool.false_eq_true, if_false,
    show ¬ '"' = '{' by decide, show ¬ '"' = '}' by decide, show ¬ '"' = ':' by decide,
    show ¬ '"' = ',' by decide, if_true]
  split
  · next hnone =>
    rw [hsplit] at hnone
    cases hnone
  · next quoted after hsome =>
    rw [hsplit, Option.some.injEq, Prod.mk.injEq] at hsome
    obtain ⟨rfl, rfl⟩ := hsome
    rw [unescape?_flatMap, Option.bind_eq_bind, Option.bind_some, String.ofList_toList]

/-- A text and the name before it. -/
theorem scan?_member (name value : String) (rest : List Char) :
    scan? (quote name ++ [':', ' '] ++ quote value ++ rest) =
      (scan? rest).map ([.string name, .colon, .string value] ++ ·) := by
  have hcolon : (':', JsonToken.colon) ∈ marks := by decide
  rw [List.append_assoc, List.append_assoc, scan?_quote, List.cons_append, List.singleton_append,
    scan?_mark hcolon, scan?_blank (by decide), scan?_quote]
  simp only [Option.map_map]
  rfl

end JsonToken

/-! ### Objects of texts -/

/-- An object whose members are all texts. -/
def JsonValue.ofTexts (members : List (String × String)) : JsonValue :=
  .object (members.map fun m => (m.1, .string m.2))

/-- The tokens of the members after the first one. -/
def memberTokens (members : List (String × String)) : List JsonToken :=
  members.flatMap fun m => [.comma, .string m.1, .colon, .string m.2]

theorem scan?_memberChars (depth : Nat) (members : List (String × String)) (rest : List Char) :
    JsonToken.scan? (memberChars depth (members.map fun m => (m.1, .string m.2)) ++ rest) =
      (JsonToken.scan? rest).map (memberTokens members ++ ·) := by
  have hcomma : (',', JsonToken.comma) ∈ JsonToken.marks := by decide
  induction members with
  | nil => simp [memberTokens, memberChars]
  | cons m members ih =>
    have hchars : memberChars depth ((m :: members).map fun m => (m.1, .string m.2)) ++ rest =
        ',' :: (newLine depth ++ (quote m.1 ++ [':', ' '] ++ quote m.2 ++
          (memberChars depth (members.map fun m => (m.1, .string m.2)) ++ rest))) := by
      simp [memberChars, chars]
    rw [hchars, JsonToken.scan?_mark hcomma, JsonToken.scan?_newLine, JsonToken.scan?_member, ih]
    simp only [Option.map_map]
    rfl

/-- The members are read off their tokens. -/
theorem stringMembers?_memberTokens (name value : String) (members : List (String × String)) :
    stringMembers? ([.string name, .colon, .string value] ++ memberTokens members ++
      [.objectEnd]) = some ((name, value) :: members) := by
  induction members generalizing name value with
  | nil => rfl
  | cons m members ih =>
    have htokens : [JsonToken.string name, .colon, .string value] ++ memberTokens (m :: members) ++
        [.objectEnd] = .string name :: .colon :: .string value :: .comma ::
          ([.string m.1, .colon, .string m.2] ++ memberTokens members ++ [.objectEnd]) := rfl
    rw [htokens, stringMembers?, ih]
    rfl

/-- An object of texts that is written reads back. -/
theorem readStringMembers?_text (members : List (String × String)) :
    readStringMembers? (ofTexts members).text = some members := by
  have hstart : ('{', JsonToken.objectStart) ∈ JsonToken.marks := by decide
  have hend : ('}', JsonToken.objectEnd) ∈ JsonToken.marks := by decide
  rw [readStringMembers?, text, String.toList_ofList, ofTexts]
  cases members with
  | nil =>
    rw [List.map_nil, chars, JsonToken.scan?_mark hstart, JsonToken.scan?_mark hend,
      JsonToken.scan?_nil]
    rfl
  | cons m members =>
    have hchars : chars 0 (.object ((m :: members).map fun m => (m.1, .string m.2))) =
        '{' :: (newLine 1 ++ (quote m.1 ++ [':', ' '] ++ quote m.2 ++
          (memberChars 1 (members.map fun m => (m.1, .string m.2)) ++ (newLine 0 ++ ['}'])))) := by
      simp [chars]
    rw [hchars, JsonToken.scan?_mark hstart, JsonToken.scan?_newLine, JsonToken.scan?_member,
      scan?_memberChars, JsonToken.scan?_newLine, JsonToken.scan?_mark hend, JsonToken.scan?_nil]
    exact stringMembers?_memberTokens m.1 m.2 members

namespace IdMap

/-- A table of identifiers that is stored reads back. -/
theorem read?_text {ids : IdMap} (h : ids.IsCanonical) : IdMap.read? ids.text = some ids := by
  have hmembers : readStringMembers? ids.text = some ids.entries := readStringMembers?_text _
  have hids : ids.entries.mapM (fun m => (canonicalUuid? m.2).map fun id => (m.1, id)) =
      some ids.entries := by
    refine mapM_eq_some_iff.2 (List.map_congr_left fun e he => ?_)
    rw [h.isUuid e he]
    rfl
  have hsame : Table.ofList ids.entries = ids := by
    refine (Table.sorted_ofList _).ext h.sorted fun name => Option.ext fun value => ?_
    rw [Table.find?_ofList h.sorted.nodup_names, Table.find?_eq_some_iff h.sorted.nodup_names]
  rw [read?, hmembers, Option.bind_eq_bind, Option.bind_some, hids]
  exact congrArg some hsame

end IdMap

end Schematic
