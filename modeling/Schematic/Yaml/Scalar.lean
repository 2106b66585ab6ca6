import Schematic.Text.Hex
import Schematic.Yaml.Token

/-!
# Scalars in YAML text

A plain scalar runs on as long as nothing ends it, a quoted one to its closing
quote, a block scalar as long as its lines are indented.  A single line break
inside a plain or quoted scalar stands for a space.

## Main definitions

* `Yaml.Scanner.readPlain?` — a plain scalar.
* `Yaml.Scanner.readQuoted?` — a scalar between quotes.
* `Yaml.Scanner.readBlock?` — a scalar of indented lines.
-/

namespace Schematic.Yaml

/-! ### White space -/

/-- The white space inside a scalar: spacing on a line, or the line breaks that
take its place. -/
structure Spacing where
  /-- Spaces and tabs since the last other character, last first. -/
  blanks : List Char := []
  /-- The first line break since then. -/
  firstBreak : Option Char := none
  /-- The further line breaks, last first. -/
  moreBreaks : List Char := []
  deriving Repr, Inhabited

/-- The line break that a text holds for a line end. -/
def breakChar (c : Char) : Char := if c = '\u2028' || c = '\u2029' then c else '\n'

/-- What white space inside a scalar stands for, last character first: a single
line break is a space, further ones stay. -/
def Spacing.folded (w : Spacing) : List Char :=
  match w.firstBreak with
  | none => w.blanks
  | some b =>
      if b = '\n' then if w.moreBreaks.isEmpty then [' '] else w.moreBreaks
      else w.moreBreaks ++ [b]

/-- Take one more white space character. -/
def Spacing.add (w : Spacing) (c : Char) : Spacing :=
  if isSpacing c then
    if w.firstBreak.isSome then w else { w with blanks := c :: w.blanks }
  else if w.firstBreak.isSome then { w with moreBreaks := breakChar c :: w.moreBreaks }
  else { blanks := [], firstBreak := some (breakChar c), moreBreaks := [] }

/-- Move past white space inside a scalar.  A tab may not stand before the
column `indent` of a later line. -/
def Scanner.readSpacing? (indent : Nat) : Nat → Spacing → Scanner → Option (Spacing × Scanner)
  | 0, w, s => some (w, s)
  | fuel + 1, w, s =>
      match s.rest with
      | c :: _ =>
          if c = '\t' && w.firstBreak.isSome && s.column < indent then none
          else if isSpacing c || isBreak c then s.skip.readSpacing? indent fuel (w.add c)
          else some (w, s)
      | [] => some (w, s)

/-! ### Plain scalars -/

/-- A character that ends a plain scalar inside a flow collection. -/
def isFlowPunctuation (c : Char) : Bool :=
  c == ',' || c == '[' || c == ']' || c == '{' || c == '}'

/-- The longest run of characters that belongs to a plain scalar; none where a
colon inside a flow collection has no blank after it. -/
def plainRun? (inFlow : Bool) : List Char → Option (List Char)
  | [] => some []
  | c :: rest =>
      if isSpacing c || isBreak c then some []
      else if c = ':' then
        if inFlow && rest.head?.any (fun d => isFlowPunctuation d || d = '?') then none
        else if atGap rest then some []
        else (plainRun? inFlow rest).map (c :: ·)
      else if inFlow && isFlowPunctuation c then some []
      else (plainRun? inFlow rest).map (c :: ·)

/-- The least column of what belongs to the innermost block collection. -/
def Scanner.innerIndent (s : Scanner) : Nat :=
  match s.indents with
  | [] => 0
  | i :: _ => i + 1

/-- Read a plain scalar; `out` is what was read of it, last character first. -/
def Scanner.readPlain? : Nat → Spacing → List Char → Scanner → Option (List Char × Scanner)
  | 0, _, _, _ => none
  | fuel + 1, w, out, s =>
      let stop : Option (List Char × Scanner) :=
        some (out, if w.firstBreak.isSome then { s with keyAllowed := true } else s)
      if s.column = 0 && atDocumentMarker s.rest then stop
      else if s.rest.head? = some '#' then stop
      else do
        let run ← plainRun? (s.flowDepth ≠ 0) s.rest
        let (w, out) := if run.isEmpty then (w, out) else ({}, run.reverse ++ (w.folded ++ out))
        let s := s.skipMany run.length
        let stop : Option (List Char × Scanner) :=
          some (out, if w.firstBreak.isSome then { s with keyAllowed := true } else s)
        if s.rest.isEmpty || !atGap s.rest then stop
        else
          let indent := s.innerIndent
          let (w, s) ← s.readSpacing? indent s.rest.length w
          if s.flowDepth = 0 && s.column < indent then
            some (out, if w.firstBreak.isSome then { s with keyAllowed := true } else s)
          else s.readPlain? fuel w out

/-! ### Quoted scalars -/

/-- The character with a code point, if there is one. -/
def charOfCode? (n : Nat) : Option Char := if n.isValidChar then some (Char.ofNat n) else none

/-- The character that an escape in a double-quoted scalar stands for, and how
many characters the escape takes after its backslash. -/
def escape? : List Char → Option (Char × Nat)
  | [] => none
  | c :: rest =>
      match c with
      | '0' => some ('\x00', 1)
      | 'a' => some ('\x07', 1)
      | 'b' => some ('\x08', 1)
      | 't' | '\t' => some ('\t', 1)
      | 'n' => some ('\n', 1)
      | 'v' => some ('\x0b', 1)
      | 'f' => some ('\x0c', 1)
      | 'r' => some ('\r', 1)
      | 'e' => some ('\x1b', 1)
      | ' ' => some (' ', 1)
      | '"' => some ('"', 1)
      | '/' => some ('/', 1)
      | '\\' => some ('\\', 1)
      | 'N' => some ('\x85', 1)
      | '_' => some ('\xa0', 1)
      | 'L' => some ('\u2028', 1)
      | 'P' => some ('\u2029', 1)
      | 'x' => if rest.length < 2 then none else coded 2 rest
      | 'u' => if rest.length < 4 then none else coded 4 rest
      | 'U' => if rest.length < 8 then none else coded 8 rest
      | _ => none
where
  /-- A character given by its code point. -/
  coded (n : Nat) (rest : List Char) : Option (Char × Nat) :=
    ((hexValue? (rest.take n)).bind charOfCode?).map fun c => (c, n + 1)

/-- Read a quoted scalar after its opening quote; `out` is what was read of it,
last character first. -/
def Scanner.readQuoted? (single : Bool) : Nat → List Char → Scanner → Option (List Char × Scanner)
  | 0, _, _ => none
  | fuel + 1, out, s =>
      if s.column = 0 && atDocumentMarker s.rest then none
      else
        match s.rest with
        | [] => none
        | c :: rest =>
            if single && c = '\'' then
              if rest.head? = some '\'' then
                (s.skipMany 2).readQuoted? single fuel ('\'' :: out)
              else some (out, s.skip)
            else if !single && c = '"' then some (out, s.skip)
            else if !single && c = '\\' then
              if rest.head?.any isBreak then do
                -- An escaped line break vanishes with the blanks after it.
                let s := s.skip.skip
                let (w, s) ← s.readSpacing? 0 s.rest.length
                  { blanks := [], firstBreak := some '\n', moreBreaks := [] }
                s.readQuoted? single fuel (w.moreBreaks ++ out)
              else do
                let (c, n) ← escape? rest
                (s.skipMany (n + 1)).readQuoted? single fuel (c :: out)
            else if isSpacing c || isBreak c then do
              let (w, s) ← s.readSpacing? 0 s.rest.length {}
              s.readQuoted? single fuel (w.folded ++ out)
            else s.skip.readQuoted? single fuel (c :: out)

/-! ### Block scalars -/

/-- What becomes of the line breaks at the end of a block scalar. -/
inductive Chomping where
  /-- All are dropped. -/
  | strip
  /-- The first one stays. -/
  | clip
  /-- All stay. -/
  | keep
  deriving DecidableEq, Repr, Inhabited

/-- Split off a sign that tells the chomping. -/
def splitChomping : List Char → Option Chomping × List Char
  | '+' :: rest => (some .keep, rest)
  | '-' :: rest => (some .strip, rest)
  | rest => (none, rest)

/-- Split off a digit that tells how far the lines are indented. -/
def splitIncrement : List Char → Option Nat × List Char
  | [] => (none, [])
  | c :: rest => if '1' ≤ c && c ≤ '9' then (some (c.toNat - 48), rest) else (none, c :: rest)

/-- The header of a block scalar: a chomping sign and an indentation digit in
either order, and the text after them. -/
def blockHeader (cs : List Char) : Option Chomping × Option Nat × List Char :=
  let (before, rest) := splitChomping cs
  let (increment, rest) := splitIncrement rest
  let (after, rest) := if before.isSome then (none, rest) else splitChomping rest
  (before <|> after, increment, rest)

/-- Move past empty lines and the indentation of the next other one, and collect
the line breaks, last one first.  An `indent` of zero is not known yet: it is
that of the widest line passed. -/
def Scanner.readEmptyLines? (indent : Nat) :
    Nat → Nat → List Char → Scanner → Option (Nat × List Char × Scanner)
  | 0, _, _, _ => none
  | fuel + 1, widest, breaks, s =>
      let outside : Bool := indent = 0 || s.column < indent
      let widest := max widest s.column
      let found := if indent = 0 then max (max widest s.innerIndent) 1 else indent
      match s.rest with
      | [] => some (found, breaks, s)
      | c :: _ =>
          if outside && c = ' ' then s.skip.readEmptyLines? indent fuel widest breaks
          else if outside && c = '\t' then none
          else if isBreak c then s.skip.readEmptyLines? indent fuel widest (breakChar c :: breaks)
          else some (found, breaks, s)

/-- What was read of a block scalar. -/
structure BlockText where
  /-- The text, last character first, without the end of its last line. -/
  out : List Char := []
  /-- The line break after the last line, if there is one. -/
  lineEnd : List Char := []
  /-- The line breaks after that, last one first. -/
  breaks : List Char := []
  /-- Whether the last line starts with a blank. -/
  startsBlank : Bool := false
  deriving Repr, Inhabited

/-- Add a line.  Unless line breaks are kept as they are, the one between two
lines that start with no blank is folded. -/
def BlockText.addLine (b : BlockText) (literal : Bool) (line : List Char) : BlockText :=
  let startsBlank := line.head?.any isSpacing
  let folds := !literal && b.lineEnd = ['\n'] && !b.startsBlank && !startsBlank
  let lineEnd := if folds then (if b.breaks.isEmpty then [' '] else []) else b.lineEnd
  { out := line.reverse ++ (b.breaks ++ (lineEnd ++ b.out)), startsBlank }

/-- The whole text, last character first. -/
def BlockText.finish (b : BlockText) : Chomping → List Char
  | .strip => b.out
  | .clip => b.lineEnd ++ b.out
  | .keep => b.breaks ++ (b.lineEnd ++ b.out)

/-- Read the lines of a block scalar that are indented to a column. -/
def Scanner.readLines? (literal : Bool) (indent : Nat) :
    Nat → BlockText → Scanner → Option (BlockText × Scanner)
  | 0, _, _ => none
  | fuel + 1, b, s =>
      if s.rest.isEmpty || s.column ≠ indent then some (b, s)
      else do
        let line := s.rest.takeWhile (!isBreak ·)
        let s := s.skipMany line.length
        let lineEnd := (s.rest.head?.map breakChar).toList
        let s := s.skip
        let (_, breaks, s) ← s.readEmptyLines? indent (s.rest.length + 1) 0 []
        s.readLines? literal indent fuel { b.addLine literal line with lineEnd, breaks }

/-- Read a block scalar after the character that introduces it. -/
def Scanner.readBlock? (literal : Bool) (s : Scanner) : Option (List Char × Scanner) := do
  let (chomping, increment, rest) := blockHeader s.rest
  let gap := rest.takeWhile isSpacing
  let rest := rest.dropWhile isSpacing
  let comment := if rest.head? = some '#' then rest.takeWhile (!isBreak ·) else []
  let header := chomping.toList.length + increment.toList.length + gap.length
  let s := s.skipMany (header + comment.length)
  if s.rest.head?.any (!isBreak ·) then none
  let s := s.skip
  let indent := increment.elim 0 fun n => (s.indents.head?.getD 0) + n
  let (indent, breaks, s) ← s.readEmptyLines? indent (s.rest.length + 1) 0 []
  let (b, s) ← s.readLines? literal indent (s.rest.length + 1) { breaks }
  some (b.finish (chomping.getD .clip), s)

end Schematic.Yaml
