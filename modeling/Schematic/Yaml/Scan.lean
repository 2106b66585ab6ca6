import Schematic.Yaml.Scalar

/-!
# Cutting YAML text into tokens

The tokens cover block and flow collections, comments, scalars and document
markers.  Anchors, tags and directives are refused.

## Main definitions

* `Yaml.Scanner.token?` — the token that starts at the next character.
* `Yaml.Token.scan?` — all tokens of a text.
-/

namespace Schematic.Yaml

namespace Scanner

/-- A document marker. -/
def marker? (s : Scanner) (t : Token) : Option Scanner := do
  let s ← (s.closeBlocks none).dropCandidate?
  some ({ s with keyAllowed := false }.push t |>.skipMany 3)

/-- The start of a flow collection. -/
def flowStart? (s : Scanner) (t : Token) : Option Scanner := do
  let s ← s.saveCandidate?
  let s := { s with
    candidates := none :: s.candidates, flowDepth := s.flowDepth + 1, keyAllowed := true }
  some (s.push t).skip

/-- The end of a flow collection. -/
def flowEnd? (s : Scanner) (t : Token) : Option Scanner := do
  let s ← s.dropCandidate?
  let s :=
    if s.flowDepth = 0 then s
    else { s with flowDepth := s.flowDepth - 1, candidates := s.candidates.drop 1 }
  some ({ s with keyAllowed := false }.push t).skip

/-- A comma. -/
def flowEntry? (s : Scanner) : Option Scanner := do
  let s ← s.dropCandidate?
  some ({ s with keyAllowed := true }.push .flowEntry).skip

/-- The dash of a block sequence. -/
def blockEntry? (s : Scanner) : Option Scanner := do
  if s.flowDepth = 0 && !s.keyAllowed then none
  let s := s.openBlock s.column s.tokens.size .blockSequenceStart
  let s ← s.dropCandidate?
  some ({ s with keyAllowed := true }.push .blockEntry).skip

/-- The question mark before a key. -/
def key? (s : Scanner) : Option Scanner := do
  if s.flowDepth = 0 && !s.keyAllowed then none
  let s := s.openBlock s.column s.tokens.size .blockMappingStart
  let s ← s.dropCandidate?
  some ({ s with keyAllowed := s.flowDepth == 0 }.push .key).skip

/-- The colon before a value: what was a possible key becomes one. -/
def value? (s : Scanner) : Option Scanner :=
  match s.candidates with
  | some k :: ks =>
      let tokens := s.tokens.insertIdxIfInBounds k.place .key
      let s := { s with candidates := none :: ks, tokens }
      let s := s.openBlock k.column k.place .blockMappingStart
      some ({ s with keyAllowed := false }.push .value).skip
  | _ =>
      if s.flowDepth = 0 && !s.keyAllowed then none
      else
        let s := s.openBlock s.column s.tokens.size .blockMappingStart
        some ({ s with keyAllowed := s.flowDepth == 0 }.push .value).skip

/-- A quoted scalar. -/
def quoted? (s : Scanner) (single : Bool) : Option Scanner := do
  let s ← s.saveCandidate?
  let s := { s with keyAllowed := false }
  let (out, s) ← s.skip.readQuoted? single (s.rest.length + 1) []
  some (s.push (.scalar false (String.ofList out.reverse)))

/-- A plain scalar. -/
def plain? (s : Scanner) : Option Scanner := do
  let s ← s.saveCandidate?
  let s := { s with keyAllowed := false }
  let (out, s) ← s.readPlain? (s.rest.length + 1) {} []
  some (s.push (.scalar true (String.ofList out.reverse)))

/-- A block scalar. -/
def block? (s : Scanner) (literal : Bool) : Option Scanner := do
  let s ← s.dropCandidate?
  let (out, s) ← { s with keyAllowed := true }.skip.readBlock? literal
  some (s.push (.scalar false (String.ofList out.reverse)))

/-- Whether a plain scalar can start with a character. -/
def startsPlain (s : Scanner) (c : Char) (rest : List Char) : Bool :=
  if c = '-' then !rest.head?.any isSpacing
  else if c = '?' || c = ':' then s.flowDepth = 0 && !atGap rest
  else !isSpacing c && !reserved.contains c
where
  /-- The characters that introduce something else. -/
  reserved : List Char :=
    [',', '[', ']', '{', '}', '#', '&', '*', '!', '|', '>', '\'', '"', '%', '@', '\x60']

/-- Read one token that starts here. -/
def token? (s : Scanner) (c : Char) (rest : List Char) : Option Scanner :=
  if s.column = 0 && atDocumentMarker s.rest then
    s.marker? (if c = '-' then .documentStart else .documentEnd)
  else if c = '[' then s.flowStart? .flowSequenceStart
  else if c = '{' then s.flowStart? .flowMappingStart
  else if c = ']' then s.flowEnd? .flowSequenceEnd
  else if c = '}' then s.flowEnd? .flowMappingEnd
  else if c = ',' then s.flowEntry?
  else if c = '-' && atGap rest then s.blockEntry?
  else if c = '?' && (s.flowDepth ≠ 0 || atGap rest) then s.key?
  else if c = ':' && (s.flowDepth ≠ 0 || atGap rest) then s.value?
  else if c = '|' && s.flowDepth = 0 then s.block? true
  else if c = '>' && s.flowDepth = 0 then s.block? false
  else if c = '\'' then s.quoted? true
  else if c = '"' then s.quoted? false
  else if s.startsPlain c rest then s.plain?
  else none

/-- Read all tokens; `fuel` bounds their number. -/
def run? : Nat → Scanner → Option (Array Token)
  | 0, _ => none
  | fuel + 1, s => do
      let s ← (s.skipGap (s.rest.length + 1)).dropStale?
      let s := s.closeBlocks (some s.column)
      match s.rest with
      | [] =>
          let s ← (s.closeBlocks none).dropCandidate?
          some s.tokens
      | c :: rest =>
          let s ← s.token? c rest
          s.run? fuel

end Scanner

/-- The tokens of a text; none when it is no YAML of the kind read here. -/
def Token.scan? (text : String) : Option (Array Token) :=
  let cs := text.toList
  if cs.all isAllowed then Scanner.run? (2 * cs.length + 2) { rest := cs } else none

end Schematic.Yaml
