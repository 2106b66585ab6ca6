import Schematic.Text.Hex

/-!
# Reading JSON

An identifier map is a JSON object whose members are all texts.  It is cut into
tokens first, so that reading the object is a matter of their order.

## Main definitions

* `JsonToken`, `JsonToken.scan?` — the tokens of such an object.
* `readStringMembers?` — its members, in the order they are written.

## Main statements

* `length_of_splitQuoted?` — splitting a text off consumes its closing quote.
-/

namespace Schematic

/-- A token of an object of texts. -/
inductive JsonToken where
  /-- An opening brace. -/
  | objectStart
  /-- A closing brace. -/
  | objectEnd
  /-- `:` -/
  | colon
  /-- `,` -/
  | comma
  /-- A text. -/
  | string (text : String)
  deriving DecidableEq, Repr, Inhabited

/-! ### Texts -/

/-- The character of a code unit that is no part of a pair. -/
def charOfUnit? (n : Nat) : Option Char :=
  if 0xD800 ≤ n && n ≤ 0xDFFF then none else some (Char.ofNat n)

/-- The character of a pair of code units. -/
def charOfPair? (high low : Nat) : Option Char :=
  if 0xD800 ≤ high && high ≤ 0xDBFF && 0xDC00 ≤ low && low ≤ 0xDFFF then
    some (Char.ofNat (0x10000 + (high - 0xD800) * 0x400 + (low - 0xDC00)))
  else none

/-- The character of an escape of one letter. -/
def letterEscape? (c : Char) : Option Char :=
  if c = '"' || c = '\\' || c = '/' then some c
  else if c = 'b' then some '\x08'
  else if c = 'f' then some '\x0c'
  else if c = 'n' then some '\n'
  else if c = 'r' then some '\r'
  else if c = 't' then some '\t'
  else none

/-- What stands between quotes, with its escapes undone. -/
def unescape? : List Char → Option (List Char)
  | [] => some []
  | '\\' :: 'u' :: a :: b :: c :: d :: rest => do
      let unit ← hexValue? [a, b, c, d]
      match charOfUnit? unit with
      | some ch => (unescape? rest).map (ch :: ·)
      | none =>
          match rest with
          | '\\' :: 'u' :: e :: f :: g :: h :: rest => do
              let ch ← (hexValue? [e, f, g, h]).bind (charOfPair? unit)
              (unescape? rest).map (ch :: ·)
          | _ => none
  | '\\' :: c :: rest => do
      let ch ← letterEscape? c
      (unescape? rest).map (ch :: ·)
  | c :: rest => if c = '\\' || c.toNat < 32 then none else (unescape? rest).map (c :: ·)

/-- What stands before a closing quote, and what follows it.  A quote after a
backslash does not close. -/
def splitQuoted? : List Char → Option (List Char × List Char)
  | [] => none
  | '"' :: rest => some ([], rest)
  | '\\' :: c :: rest => (splitQuoted? rest).map fun r => ('\\' :: c :: r.1, r.2)
  | c :: rest => (splitQuoted? rest).map fun r => (c :: r.1, r.2)

/-- A closing quote is consumed. -/
theorem length_of_splitQuoted? {s : List Char} {r : List Char × List Char}
    (h : splitQuoted? s = some r) : r.2.length < s.length := by
  fun_induction splitQuoted? s generalizing r with
  | case1 => simp at h
  | case2 rest => simp only [Option.some.injEq] at h; subst h; simp
  | case3 c rest ih =>
    obtain ⟨q, hq, rfl⟩ := Option.map_eq_some_iff.1 h
    have := ih hq
    simp only [List.length_cons]; omega
  | case4 c rest _ _ ih =>
    obtain ⟨q, hq, rfl⟩ := Option.map_eq_some_iff.1 h
    have := ih hq
    simp only [List.length_cons]; omega

/-! ### Objects -/

/-- Whether a character may stand between tokens. -/
def isJsonBlank (c : Char) : Bool := c = ' ' || c = '\n' || c = '\r' || c = '\t'

/-- The tokens of a text; none when it holds anything else. -/
def JsonToken.scan? (s : List Char) : Option (List JsonToken) :=
  match s with
  | [] => some []
  | c :: rest =>
      if isJsonBlank c then scan? rest
      else if c = '{' then (scan? rest).map (.objectStart :: ·)
      else if c = '}' then (scan? rest).map (.objectEnd :: ·)
      else if c = ':' then (scan? rest).map (.colon :: ·)
      else if c = ',' then (scan? rest).map (.comma :: ·)
      else if c = '"' then
        match _h : splitQuoted? rest with
        | none => none
        | some (quoted, after) => do
            let text ← unescape? quoted
            (scan? after).map (.string (String.ofList text) :: ·)
      else none
termination_by s.length
decreasing_by
  all_goals simp only [List.length_cons]
  all_goals try have := length_of_splitQuoted? _h
  all_goals grind

/-- The members after the opening brace, the first of which has been announced
by it or by a comma. -/
def stringMembers? : List JsonToken → Option (List (String × String))
  | [.string name, .colon, .string value, .objectEnd] => some [(name, value)]
  | .string name :: .colon :: .string value :: .comma :: rest =>
      (stringMembers? rest).map ((name, value) :: ·)
  | _ => none

/-- The members of a JSON object whose members are all texts. -/
def readStringMembers? (text : String) : Option (List (String × String)) :=
  (JsonToken.scan? text.toList).bind fun
    | [.objectStart, .objectEnd] => some []
    | .objectStart :: rest => stringMembers? rest
    | _ => none

end Schematic
