/-!
# Tokens of YAML text

A YAML text is cut into tokens: scalars, punctuation, and the starts and ends of
block collections, which are told by indentation alone.  A scalar becomes a key
only when a colon follows it, so the place of a possible key is remembered and
the key token is put there afterwards.

## Main definitions

* `Yaml.Token` — the tokens.
* `Yaml.Scanner` — the state of a scan: the text ahead, the indentation levels
  and the places of possible keys.
* `Yaml.Scanner.openBlock`, `Yaml.Scanner.closeBlocks` — block collections.
* `Yaml.Scanner.saveCandidate?`, `Yaml.Scanner.dropCandidate?` — possible keys.
-/

namespace Schematic.Yaml

/-- A token of a YAML text. -/
inductive Token where
  /-- `---` -/
  | documentStart
  /-- `...` -/
  | documentEnd
  /-- The first entry of a block sequence follows. -/
  | blockSequenceStart
  /-- The first key of a block mapping follows. -/
  | blockMappingStart
  /-- A block collection ends. -/
  | blockEnd
  /-- `[` -/
  | flowSequenceStart
  /-- `]` -/
  | flowSequenceEnd
  /-- An opening brace. -/
  | flowMappingStart
  /-- A closing brace. -/
  | flowMappingEnd
  /-- `-` -/
  | blockEntry
  /-- `,` -/
  | flowEntry
  /-- A key follows. -/
  | key
  /-- A value follows. -/
  | value
  /-- A scalar, plain or of another form. -/
  | scalar (plain : Bool) (text : String)
  deriving DecidableEq, Repr, Inhabited

/-! ### Characters -/

/-- A space or a tab. -/
def isSpacing (c : Char) : Bool := c == ' ' || c == '\t'

/-- A character that ends a line. -/
def isBreak (c : Char) : Bool :=
  c == '\n' || c == '\r' || c == '\x85' || c == '\u2028' || c == '\u2029'

/-- Whether a text ends here or goes on with white space. -/
def atGap : List Char → Bool
  | [] => true
  | c :: _ => isSpacing c || isBreak c

/-- Whether a character may stand in a YAML text. -/
def isAllowed (c : Char) : Bool :=
  let n := c.toNat
  n == 0x09 || n == 0x0A || n == 0x0D || (0x20 ≤ n && n ≤ 0x7E) || n == 0x85 ||
    (0xA0 ≤ n && n ≤ 0xD7FF) || (0xE000 ≤ n && n ≤ 0xFFFD) || 0x10000 ≤ n

/-- Whether a document marker starts here. -/
def atDocumentMarker : List Char → Bool
  | '-' :: '-' :: '-' :: rest => atGap rest
  | '.' :: '.' :: '.' :: rest => atGap rest
  | _ => false

/-! ### The state of a scan -/

/-- A place where a key may turn out to start. -/
structure KeyCandidate where
  /-- How many tokens come before it. -/
  place : Nat
  /-- Whether nothing but a key can stand there. -/
  required : Bool
  /-- How many characters come before it. -/
  offset : Nat
  /-- Its line. -/
  line : Nat
  /-- Its column. -/
  column : Nat
  deriving Repr, Inhabited

/-- The state of a scan. -/
structure Scanner where
  /-- The text ahead. -/
  rest : List Char
  /-- How many characters were read. -/
  offset : Nat := 0
  /-- The line of the next character. -/
  line : Nat := 0
  /-- The column of the next character. -/
  column : Nat := 0
  /-- The tokens found. -/
  tokens : Array Token := #[]
  /-- The columns of the open block collections, the innermost first. -/
  indents : List Nat := []
  /-- How many flow collections are open. -/
  flowDepth : Nat := 0
  /-- Whether a key may start here. -/
  keyAllowed : Bool := true
  /-- The possible key of each open flow collection, the innermost first, and
  last that of the block around them. -/
  candidates : List (Option KeyCandidate) := [none]
  deriving Repr, Inhabited

namespace Scanner

/-- Move past one character. -/
def skip (s : Scanner) : Scanner :=
  match s.rest with
  | [] => s
  | '\r' :: '\n' :: rest =>
      { s with rest, offset := s.offset + 2, line := s.line + 1, column := 0 }
  | c :: rest =>
      if isBreak c then { s with rest, offset := s.offset + 1, line := s.line + 1, column := 0 }
      else { s with rest, offset := s.offset + 1, column := s.column + 1 }

/-- Move past some characters. -/
def skipMany : Nat → Scanner → Scanner
  | 0, s => s
  | n + 1, s => skipMany n s.skip

/-- Add a token. -/
def push (s : Scanner) (t : Token) : Scanner := { s with tokens := s.tokens.push t }

/-- Whether the next character lies right of every open block collection. -/
def deeper (s : Scanner) (column : Nat) : Bool := s.indents.head?.all (· < column)

/-- Open a block collection at a column, when it lies right of the open ones;
its start is put before the token at `place`. -/
def openBlock (s : Scanner) (column place : Nat) (start : Token) : Scanner :=
  if s.flowDepth = 0 && s.deeper column then
    { s with indents := column :: s.indents, tokens := s.tokens.insertIdxIfInBounds place start }
  else s

/-- Close the block collections that a list of indents holds right of a column;
`none` closes all of them. -/
def closeIndents (column : Option Nat) : List Nat → Array Token → List Nat × Array Token
  | [], tokens => ([], tokens)
  | i :: is, tokens =>
      if column.all (· < i) then closeIndents column is (tokens.push .blockEnd)
      else (i :: is, tokens)

/-- Close the block collections right of a column. -/
def closeBlocks (s : Scanner) (column : Option Nat) : Scanner :=
  if s.flowDepth = 0 then
    let (indents, tokens) := closeIndents column s.indents s.tokens
    { s with indents, tokens }
  else s

/-- Forget the possible key of the innermost collection; none when a key was
required there. -/
def dropCandidate? (s : Scanner) : Option Scanner :=
  match s.candidates with
  | some k :: ks => if k.required then none else some { s with candidates := none :: ks }
  | _ => some s

/-- Remember that a key may start here. -/
def saveCandidate? (s : Scanner) : Option Scanner :=
  if s.keyAllowed then
    (s.dropCandidate?).map fun s =>
      let k : KeyCandidate :=
        { place := s.tokens.size
          required := s.flowDepth == 0 && s.indents.head? == some s.column
          offset := s.offset
          line := s.line
          column := s.column }
      { s with candidates := some k :: s.candidates.drop 1 }
  else some s

/-- Whether a key can no longer start at a place: it has to stand on one line
and within 1024 characters. -/
def isStale (s : Scanner) (k : KeyCandidate) : Bool :=
  k.line < s.line || k.offset + 1024 < s.offset

/-- Forget the places where a key can no longer start; none when a key was
required at one of them. -/
def dropStale? (s : Scanner) : Option Scanner :=
  if s.candidates.any fun k => k.any fun k => k.required && s.isStale k then none
  else some { s with candidates := s.candidates.map (·.filter fun k => !s.isStale k) }

/-- Move to the next token, past white space, comments and line breaks; `fuel`
bounds the characters passed. -/
def skipGap : Nat → Scanner → Scanner
  | 0, s => s
  | fuel + 1, s =>
      match s.rest with
      | [] => s
      | c :: rest =>
          if c = ' ' || (c = '\t' && (s.flowDepth ≠ 0 || !s.keyAllowed)) then skipGap fuel s.skip
          else if c = '#' then
            skipGap fuel (s.skipMany (1 + (rest.takeWhile fun c => !isBreak c).length))
          else if isBreak c then
            let s := s.skip
            skipGap fuel (if s.flowDepth = 0 then { s with keyAllowed := true } else s)
          else if c = '\uFEFF' && s.column = 0 then skipGap fuel s.skip
          else s

end Scanner

end Schematic.Yaml
