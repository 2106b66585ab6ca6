import Schematic.Number.Scalar
import Schematic.SExpr.Basic
import Schematic.Text.Blank
import Schematic.Text.Quoted

/-!
# Reading S-expressions

A text is read token by token, the lists still open being kept on a stack, and
reading stops at the end of the first complete expression.

## Main definitions

* `SExpr.Token`, `SExpr.nextToken?` — the next token and the text after it.
* `SExpr.readFrom` — one expression and the text after it.
* `SExpr.ParseError`, `SExpr.parse` — a whole document, with what can go wrong.

## Main statements

* `SExpr.nextToken?_length` — a token takes at least one character.
-/

namespace Schematic.SExpr

/-- Why a document cannot be read. -/
inductive ParseError where
  /-- No complete expression starts at the quoted place. -/
  | syntaxNear (context : String)
  /-- There is more text after the document. -/
  | trailing (text : String)
  deriving DecidableEq, Repr, Inhabited

/-- The wording of an error. -/
def ParseError.message : ParseError → String
  | .syntaxNear context => "S-expression syntax error near " ++ quoteText context
  | .trailing text => "Trailing input after document: " ++ quoteText text

/-- What a text is made of. -/
inductive Token where
  /-- An opening parenthesis. -/
  | opening
  /-- A closing parenthesis. -/
  | closing
  /-- A quoted string, without quotes and escapes. -/
  | quoted (text : String)
  /-- A run of other characters. -/
  | bare (text : List Char)
  deriving DecidableEq, Repr, Inhabited

/-- The blanks that may stand between tokens. -/
def isGap (c : Char) : Bool := c == ' ' || c == '\t' || c == '\n' || c == '\r'

/-- The characters of symbols and numbers. -/
def isBareChar (c : Char) : Bool := !isBlank c && c != '(' && c != ')' && c != '"'

/-- Read a string up to its closing quote.  A backslash may stand before a
backslash, a quote, `n` or `t` only. -/
def readString? : List Char → Option (List Char × List Char)
  | [] => none
  | '"' :: rest => some ([], rest)
  | '\\' :: '\\' :: rest => (readString? rest).map fun r => ('\\' :: r.1, r.2)
  | '\\' :: '"' :: rest => (readString? rest).map fun r => ('"' :: r.1, r.2)
  | '\\' :: 'n' :: rest => (readString? rest).map fun r => ('\n' :: r.1, r.2)
  | '\\' :: 't' :: rest => (readString? rest).map fun r => ('\t' :: r.1, r.2)
  | c :: rest => if c = '\\' then none else (readString? rest).map fun r => (c :: r.1, r.2)

/-- The token at the front of a text that starts with no gap. -/
def tokenAt? : List Char → Option (Token × List Char)
  | [] => none
  | c :: rest =>
      if c = '(' then some (.opening, rest)
      else if c = ')' then some (.closing, rest)
      else if c = '"' then
        (readString? rest).map fun r => (.quoted (String.ofList r.1), r.2)
      else if isBareChar c then
        some (.bare (c :: rest.takeWhile isBareChar), rest.dropWhile isBareChar)
      else none

/-- The next token and the text after it; none at the end of the text, at an
unfinished string and at a character that belongs to no token. -/
def nextToken? (cs : List Char) : Option (Token × List Char) := tokenAt? (cs.dropWhile isGap)

theorem readString?_length {cs : List Char} {r : List Char × List Char}
    (h : readString? cs = some r) : r.2.length < cs.length := by
  fun_induction readString? cs generalizing r with
  | case1 => simp at h
  | case2 rest => simp_all; subst h; simp
  | case3 rest ih | case4 rest ih | case5 rest ih | case6 rest ih =>
    obtain ⟨s, hs, rfl⟩ := Option.map_eq_some_iff.1 h
    have := ih hs
    simp only [List.length_cons]; omega
  | case7 => simp at h
  | case8 c rest _ _ _ _ _ _ ih =>
    obtain ⟨s, hs, rfl⟩ := Option.map_eq_some_iff.1 h
    have := ih hs
    simp only [List.length_cons]; omega

theorem length_dropWhile_le (p : Char → Bool) (cs : List Char) :
    (cs.dropWhile p).length ≤ cs.length := (List.dropWhile_suffix p).length_le

theorem tokenAt?_length {cs : List Char} {r : Token × List Char}
    (h : tokenAt? cs = some r) : r.2.length < cs.length := by
  cases cs with
  | nil => simp [tokenAt?] at h
  | cons c rest =>
    simp only [tokenAt?] at h
    split at h
    · cases h; simp
    · split at h
      · cases h; simp
      · split at h
        · obtain ⟨s, hs, rfl⟩ := Option.map_eq_some_iff.1 h
          have := readString?_length hs
          simp only [List.length_cons]; omega
        · split at h
          · cases h
            have := length_dropWhile_le isBareChar rest
            simp only [List.length_cons]; omega
          · cases h

/-- A token takes at least one character off the text. -/
theorem nextToken?_length {cs : List Char} {r : Token × List Char}
    (h : nextToken? cs = some r) : r.2.length < cs.length := by
  have := tokenAt?_length h
  have := length_dropWhile_le isGap cs
  omega

variable {α : Type} [Scalar α]

/-- The atom that a run of bare characters stands for: a number if it is a
decimal, else a symbol. -/
def bareAtom (cs : List Char) : SExpr α :=
  match Decimal.parse? cs with
  | some (.finite d) => .number (Scalar.ofDecimal d)
  | _ => .symbol (String.ofList cs)

/-- Read one expression.  The stack holds the members, last first, of the lists
that are still open, the innermost list first. -/
def readFrom (stack : List (List (SExpr α))) (cs : List Char) : Option (SExpr α × List Char) :=
  match _h : nextToken? cs with
  | none => none
  | some (.opening, rest) => readFrom ([] :: stack) rest
  | some (.closing, rest) =>
      match stack with
      | [] => none
      | [xs] => some (.list xs.reverse, rest)
      | xs :: outer :: more => readFrom ((.list xs.reverse :: outer) :: more) rest
  | some (.quoted s, rest) =>
      match stack with
      | [] => some (.string s, rest)
      | xs :: more => readFrom ((.string s :: xs) :: more) rest
  | some (.bare s, rest) =>
      match stack with
      | [] => some (bareAtom s, rest)
      | xs :: more => readFrom ((bareAtom s :: xs) :: more) rest
termination_by cs.length
decreasing_by all_goals exact nextToken?_length _h

/-- Read a document: one expression, with nothing but white space around it. -/
def parse (text : String) : Except ParseError (SExpr α) :=
  match readFrom [] text.toList with
  | none => .error (.syntaxNear (String.ofList ((text.toList.dropWhile isGap).take 40)))
  | some (e, rest) =>
      match trimBlanksLeft rest with
      | [] => .ok e
      | more => .error (.trailing (String.ofList (more.take 40)))

end Schematic.SExpr
