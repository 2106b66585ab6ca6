import Schematic.Proofs.SExpr.Plain

/-!
# Texts as runs of tokens

The printer and the parser meet in the tokens of a document.  What the printer
writes, on one line or on many, splits into the tokens of the document; and the
parser, given a text that splits into the tokens of a plain document, comes back
with that document, its numbers reread.

A text is only known up to the gaps between tokens: two texts that differ in
leading gaps are read alike.

## Main definitions

* `SExpr.tokens` — the tokens of a document.
* `SExpr.Lexes` — a text starts with some tokens.
* `SExpr.complete` — what the parser does with a complete expression.
* `SExpr.ReadOff` — the parser reads a document off its tokens.

## Main statements

* `SExpr.readFrom_of_lexes` — the tokens of a plain document are read as the
  document.
* `SExpr.readString?_escaped` — every string is read back as it was.
* `SExpr.lexes_lines` — the lines of a plain document split into its tokens.
-/

namespace Schematic.SExpr

variable {α : Type} [Scalar α]

/-! ### Tokens -/

mutual

/-- The tokens of a document. -/
def tokens : SExpr α → List Token
  | .list xs => .opening :: (tokensOf xs ++ [.closing])
  | .symbol s => [.bare s.toList]
  | .string s => [.quoted s]
  | .number v => [.bare (numberText v).toList]

/-- The tokens of the members of a list. -/
def tokensOf : List (SExpr α) → List Token
  | [] => []
  | x :: xs => tokens x ++ tokensOf xs

end

theorem tokensOf_append (xs ys : List (SExpr α)) :
    tokensOf (xs ++ ys) = tokensOf xs ++ tokensOf ys := by
  induction xs with
  | nil => rfl
  | cons x xs ih => rw [List.cons_append, tokensOf, ih, tokensOf, List.append_assoc]

/-- The text starts with the tokens, and what follows them is `rest` up to gaps
in front of it. -/
inductive Lexes : List Char → List Token → List Char → Prop where
  /-- No token: the texts differ in gaps only. -/
  | done {cs rest : List Char} (gaps : cs.dropWhile isGap = rest.dropWhile isGap) :
      Lexes cs [] rest
  /-- One token, and the others after it. -/
  | token {cs mid rest : List Char} {t : Token} {ts : List Token}
      (next : nextToken? cs = some (t, mid)) (more : Lexes mid ts rest) : Lexes cs (t :: ts) rest

namespace Lexes

variable {cs ds mid rest : List Char} {ts us : List Token}

theorem refl (cs : List Char) : Lexes cs [] cs := .done rfl

/-- The tokens of a text do not depend on the gaps in front of it. -/
theorem congr (hgap : cs.dropWhile isGap = ds.dropWhile isGap) (h : Lexes ds ts rest) :
    Lexes cs ts rest := by
  cases h with
  | done gaps => exact .done (hgap.trans gaps)
  | token next more => exact .token (by rwa [nextToken?, hgap]) more

theorem trans (h : Lexes cs ts mid) (h' : Lexes mid us rest) : Lexes cs (ts ++ us) rest := by
  induction h with
  | done gaps => exact h'.congr gaps
  | token next _ ih => exact .token next (ih h')

/-- A text after gaps. -/
theorem gaps {g : List Char} (hg : ∀ c ∈ g, isGap c = true) (cs : List Char) :
    Lexes (g ++ cs) [] cs :=
  .done (List.dropWhile_append_of_pos hg)

end Lexes

/-! ### Reading tokens -/

/-- What the parser does with a complete expression: it is the document, or the
next member of the innermost list that is open. -/
def complete (stack : List (List (SExpr α))) (e : SExpr α) (rest : List Char) :
    Option (SExpr α × List Char) :=
  match stack with
  | [] => some (e, rest)
  | xs :: more => readFrom ((e :: xs) :: more) rest

section Reading

variable {stack : List (List (SExpr α))} {cs mid rest : List Char}

theorem readFrom_opening (h : nextToken? cs = some (.opening, mid)) :
    readFrom stack cs = readFrom ([] :: stack) mid := by
  rw [readFrom]
  split
  all_goals simp_all

theorem readFrom_closing {xs : List (SExpr α)} (h : nextToken? cs = some (.closing, mid)) :
    readFrom (xs :: stack) cs = complete stack (.list xs.reverse) mid := by
  rw [readFrom]
  split
  all_goals simp_all
  cases stack <;> rfl

theorem readFrom_quoted {s : String} (h : nextToken? cs = some (.quoted s, mid)) :
    readFrom stack cs = complete stack (.string s) mid := by
  rw [readFrom]
  split
  all_goals simp_all
  cases stack <;> rfl

theorem readFrom_bare {w : List Char} (h : nextToken? cs = some (.bare w, mid)) :
    readFrom stack cs = complete stack (bareAtom w) mid := by
  rw [readFrom]
  split
  all_goals simp_all
  cases stack <;> rfl

/-- The parser reads a document off its tokens, in front of whatever follows them
in a text. -/
def ReadOff (rest : List Char) (e : SExpr α) : Prop :=
  ∀ (stack : List (List (SExpr α))) (cs : List Char) (ts : List Token),
    Lexes cs (tokens e ++ ts) rest →
      ∃ mid, Lexes mid ts rest ∧ readFrom stack cs = complete stack e.reread mid

/-- The members of a list are read one after the other onto the stack. -/
theorem readFrom_members {zs : List (SExpr α)} (hzs : ∀ z ∈ zs, ReadOff rest z)
    (stack : List (List (SExpr α))) (done : List (SExpr α)) {ts : List Token}
    (h : Lexes cs (tokensOf zs ++ ts) rest) :
    ∃ mid, Lexes mid ts rest ∧ readFrom (done :: stack) cs =
      readFrom (((rereadAll zs).reverse ++ done) :: stack) mid := by
  induction zs generalizing done cs with
  | nil => exact ⟨cs, h, rfl⟩
  | cons z zs ih =>
    obtain ⟨hz, hzs⟩ := List.forall_mem_cons.1 hzs
    rw [tokensOf, List.append_assoc] at h
    obtain ⟨mid, hmid, hread⟩ := hz (done :: stack) cs _ h
    obtain ⟨last, hlast, hrest⟩ := ih hzs (z.reread :: done) hmid
    refine ⟨last, hlast, ?_⟩
    rw [hread, complete, hrest, rereadAll, List.reverse_cons, List.append_assoc,
      List.singleton_append]

/-- The parser reads a plain document off its tokens. -/
theorem readFrom_of_lexes {e : SExpr α} (he : e.Plain) (rest : List Char) : ReadOff rest e := by
  induction he with
  | @list xs _ ih =>
    intro stack cs ts h
    rw [tokens, List.cons_append, List.append_assoc, List.singleton_append] at h
    cases h with
    | token next more =>
      obtain ⟨mid, hmid, hread⟩ := readFrom_members ih stack [] more
      cases hmid with
      | token close after =>
        refine ⟨_, after, ?_⟩
        rw [readFrom_opening next, hread, readFrom_closing close, List.append_nil,
          List.reverse_reverse, reread]
  | symbol word =>
    intro stack cs ts h
    rw [tokens, List.singleton_append] at h
    cases h with
    | token next more =>
      exact ⟨_, more, by rw [readFrom_bare next, bareAtom_of_isSymbol word, reread]⟩
  | string s =>
    intro stack cs ts h
    rw [tokens, List.singleton_append] at h
    cases h with
    | token next more => exact ⟨_, more, by rw [readFrom_quoted next, reread]⟩
  | number v =>
    intro stack cs ts h
    rw [tokens, List.singleton_append] at h
    cases h with
    | token next more => exact ⟨_, more, by rw [readFrom_bare next, reread]⟩

theorem isBlank_of_isGap {c : Char} (h : isGap c = true) : isBlank c = true := by
  simp only [isGap, Bool.or_eq_true, beq_iff_eq] at h
  rcases h with ((rfl | rfl) | rfl) | rfl <;> decide

/-- A text that splits into the tokens of a plain document is parsed as the
document. -/
theorem parse_of_lexes {e : SExpr α} (he : e.Plain) {text : String}
    (h : Lexes text.toList (tokens e) []) : parse text = .ok e.reread := by
  rw [← List.append_nil (tokens e)] at h
  obtain ⟨mid, hmid, hread⟩ := readFrom_of_lexes he [] [] _ _ h
  cases hmid with
  | done gaps =>
    have hblank : trimBlanksLeft mid = [] := by
      rw [List.dropWhile_nil, List.dropWhile_eq_nil_iff] at gaps
      exact List.dropWhile_eq_nil_iff.2 fun c hc => isBlank_of_isGap (gaps c hc)
    rw [parse, hread]
    simp only [complete, hblank]

end Reading

/-! ### Writing tokens -/

/-- A run of bare characters would end before the text. -/
def Breaks (rest : List Char) : Prop := ∀ c ∈ rest.head?, isBareChar c = false

theorem breaks_cons {c : Char} {rest : List Char} (h : isBareChar c = false) :
    Breaks (c :: rest) := by
  intro d hd
  rw [List.head?_cons, Option.mem_some_iff] at hd
  exact hd ▸ h

theorem isGap_of_isBareChar {c : Char} (h : isBareChar c = true) : isGap c = false := by
  cases hg : isGap c with
  | false => rfl
  | true => simp [isBareChar, isBlank_of_isGap hg] at h

theorem lexes_opening (rest : List Char) : Lexes ('(' :: rest) [.opening] rest :=
  .token rfl (.refl rest)

theorem lexes_closing (rest : List Char) : Lexes (')' :: rest) [.closing] rest :=
  .token rfl (.refl rest)

/-- A word is one token. -/
theorem lexes_bare {w rest : List Char} (hw : IsWord w) (hrest : Breaks rest) :
    Lexes (w ++ rest) [.bare w] rest := by
  obtain ⟨hne, hbare⟩ := hw
  cases w with
  | nil => exact absurd rfl hne
  | cons c w =>
    obtain ⟨hc, hw⟩ := List.forall_mem_cons.1 hbare
    have htake : (w ++ rest).takeWhile isBareChar = w := by
      rw [List.takeWhile_append_of_pos hw]
      cases rest with
      | nil => simp
      | cons d rest => simp [hrest d rfl]
    have hdrop : (w ++ rest).dropWhile isBareChar = rest := by
      rw [List.dropWhile_append_of_pos hw]
      cases rest with
      | nil => rfl
      | cons d rest => simp [hrest d rfl]
    refine .token ?_ (.refl rest)
    have hne : c ≠ '(' ∧ c ≠ ')' ∧ c ≠ '"' := by
      simp only [isBareChar, Bool.and_eq_true, bne_iff_ne] at hc
      exact ⟨hc.1.1.2, hc.1.2, hc.2⟩
    rw [List.cons_append, nextToken?, List.dropWhile_cons_of_neg (by simp [isGap_of_isBareChar hc]),
      tokenAt?, if_neg hne.1, if_neg hne.2.1, if_neg hne.2.2, if_pos hc, htake, hdrop]

/-- A string is read back as it was, whatever its characters are: what is
escaped is unescaped, and what is not escaped is read as it is. -/
theorem readString?_escaped (cs rest : List Char) :
    readString? (cs.flatMap escapeChar ++ '"' :: rest) = some (cs, rest) := by
  induction cs with
  | nil => rfl
  | cons c cs ih =>
    rw [List.flatMap_cons, List.append_assoc]
    -- the three characters that are escaped, and then any other one
    by_cases hquote : c = '"'
    · subst hquote
      change readString? ('\\' :: '"' :: (cs.flatMap escapeChar ++ '"' :: rest)) = _
      rw [readString?, ih]; rfl
    by_cases hslash : c = '\\'
    · subst hslash
      change readString? ('\\' :: '\\' :: (cs.flatMap escapeChar ++ '"' :: rest)) = _
      rw [readString?, ih]; rfl
    by_cases hbreak : c = '\n'
    · subst hbreak
      change readString? ('\\' :: 'n' :: (cs.flatMap escapeChar ++ '"' :: rest)) = _
      rw [readString?, ih]; rfl
    have hplain : escapeChar c = [c] := by
      unfold escapeChar
      split <;> simp_all
    rw [hplain, List.singleton_append, readString?, if_neg hslash, ih]
    · rfl
    all_goals simp_all

theorem lexes_string (s : String) (rest : List Char) :
    Lexes (stringChars s ++ rest) [.quoted s] rest := by
  refine .token ?_ (.refl rest)
  have hread : readString? (s.toList.flatMap escapeChar ++ ['"'] ++ rest) =
      some (s.toList, rest) := by
    rw [List.append_assoc, List.singleton_append, readString?_escaped]
  rw [stringChars, List.cons_append, List.cons_append, nextToken?,
    List.dropWhile_cons_of_neg (by decide), tokenAt?, if_neg (by decide), if_neg (by decide),
    if_pos rfl, hread]
  simp only [Option.map_some, String.ofList_toList]

/-- The one-line forms of the members of a list, if that of each one splits into
its tokens. -/
theorem lexes_inlineItems {xs : List (SExpr α)}
    (hxs : ∀ x ∈ xs, ∀ rest, Breaks rest → Lexes (inlineChars x ++ rest) (tokens x) rest)
    (rest : List Char) (hrest : Breaks rest) :
    Lexes (inlineItems xs ++ rest) (tokensOf xs) rest := by
  induction xs with
  | nil => exact .refl rest
  | cons x xs ih =>
    obtain ⟨hx, hxs⟩ := List.forall_mem_cons.1 hxs
    cases xs with
    | nil =>
      rw [tokensOf, tokensOf, List.append_nil]
      exact hx rest hrest
    | cons y ys =>
      have hsep : Lexes (' ' :: (inlineItems (y :: ys) ++ rest)) []
          (inlineItems (y :: ys) ++ rest) := .gaps (List.forall_mem_singleton.2 rfl) _
      rw [tokensOf, inlineItems, List.append_assoc, List.cons_append]
      exact (hx _ (breaks_cons (by decide))).trans (hsep.trans (ih hxs))

/-- A line, if its text splits into the tokens. -/
theorem lexes_line (text : List Char) {ts : List Token}
    (h : ∀ rest, Breaks rest → Lexes (text ++ rest) ts rest) (depth : Nat) (rest : List Char) :
    Lexes (Line.chars ⟨depth, text⟩ ++ rest) ts rest := by
  have hindent : Lexes (List.replicate (2 * depth) ' ' ++ (text ++ '\n' :: rest)) []
      (text ++ '\n' :: rest) := .gaps (fun c hc => by rw [List.eq_of_mem_replicate hc]; rfl) _
  have hbreak : Lexes ('\n' :: rest) [] rest := .gaps (List.forall_mem_singleton.2 rfl) _
  rw [Line.chars, List.append_assoc, List.append_assoc, List.singleton_append]
  have hline := hindent.trans ((h _ (breaks_cons (by decide))).trans hbreak)
  rwa [List.append_nil, List.nil_append] at hline

/-- The lines of the members of a list, if those of each one split into its
tokens.  Only the members from the first list on have lines of their own. -/
theorem lexes_memberLines {xs : List (SExpr α)}
    (hxs : ∀ x ∈ xs, ∀ depth rest,
      Lexes ((lines depth x).flatMap Line.chars ++ rest) (tokens x) rest)
    (depth : Nat) (broken : Bool) (rest : List Char) :
    Lexes ((memberLines depth broken xs).flatMap Line.chars ++ rest)
      (tokensOf (if broken then xs else xs.dropWhile fun x => !x.isList)) rest := by
  induction xs generalizing broken with
  | nil => cases broken <;> exact .refl rest
  | cons x xs ih =>
    obtain ⟨hx, hxs⟩ := List.forall_mem_cons.1 hxs
    cases hbroken : broken || x.isList with
    | true =>
      have hrest : (if broken then x :: xs else (x :: xs).dropWhile fun x => !x.isList) =
          x :: xs := by
        rcases Bool.or_eq_true_iff.1 hbroken with h | h
        · rw [if_pos h]
        · split
          · rfl
          · rw [List.dropWhile_cons_of_neg (by simp [h])]
      rw [hrest, memberLines, if_pos hbroken, List.flatMap_append, List.append_assoc, tokensOf]
      exact (hx depth _).trans (ih hxs true)
    | false =>
      obtain ⟨rfl, hatom⟩ := Bool.or_eq_false_iff.1 hbroken
      rw [memberLines, if_neg (by simp [hatom]), if_neg Bool.false_ne_true,
        List.dropWhile_cons_of_pos (by simp [hatom])]
      exact ih hxs false

section Documents

variable [PlainNumbers α]

/-- The one-line form of a plain document splits into its tokens. -/
theorem lexes_inlineChars {e : SExpr α} (he : e.Plain) :
    ∀ rest, Breaks rest → Lexes (inlineChars e ++ rest) (tokens e) rest := by
  induction he with
  | @list xs _ ih =>
    intro rest _
    rw [inlineChars, List.cons_append, List.cons_append, List.append_assoc, tokens,
      ← List.singleton_append]
    have hitems := lexes_inlineItems ih (')' :: rest) (breaks_cons (by decide))
    exact (lexes_opening _).trans (hitems.trans (lexes_closing rest))
  | symbol word => exact fun rest hrest => lexes_bare word.1 hrest
  | string s => exact fun rest _ => lexes_string s rest
  | number v => exact fun rest hrest => lexes_bare (PlainNumbers.isWord v) hrest

/-- The lines of a plain document split into its tokens: where they are broken
makes no difference. -/
theorem lexes_lines {e : SExpr α} (he : e.Plain) :
    ∀ depth rest, Lexes ((lines depth e).flatMap Line.chars ++ rest) (tokens e) rest := by
  have single : ∀ {e : SExpr α}, e.Plain → ∀ depth rest,
      Lexes ([(⟨depth, inlineChars e⟩ : Line)].flatMap Line.chars ++ rest) (tokens e) rest := by
    intro e he depth rest
    rw [List.flatMap_singleton]
    exact lexes_line _ (lexes_inlineChars he) depth rest
  induction he with
  | @list xs members ih =>
    intro depth rest
    rw [lines]
    split
    · exact single (.list members) depth rest
    -- The atoms in front stand on the first line, the other members below it.
    let atom : SExpr α → Bool := fun x => !x.isList
    have hlead : ∀ rest, Breaks rest →
        Lexes ('(' :: inlineItems (xs.takeWhile atom) ++ rest)
          (.opening :: tokensOf (xs.takeWhile atom)) rest := fun rest hrest =>
      (lexes_opening _).trans (lexes_inlineItems
        (fun x hx => lexes_inlineChars (members x (List.takeWhile_prefix atom |>.subset hx)))
        rest hrest)
    have hlast := lexes_line [')'] (fun rest _ => lexes_closing rest) depth rest
    have hmembers := lexes_memberLines ih (depth + 1) false (Line.chars ⟨depth, [')']⟩ ++ rest)
    rw [if_neg Bool.false_ne_true] at hmembers
    have hall := (lexes_line _ hlead depth _).trans (hmembers.trans hlast)
    rw [List.cons_append, ← List.append_assoc (tokensOf _), ← tokensOf_append,
      List.takeWhile_append_dropWhile] at hall
    rw [tokens, List.flatMap_cons, List.flatMap_append, List.flatMap_singleton,
      List.append_assoc, List.append_assoc]
    exact hall
  | symbol word => exact single (.symbol word)
  | string s => exact single (.string s)
  | number v => exact single (.number v)

end Documents

end Schematic.SExpr
