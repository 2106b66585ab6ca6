import Schematic.Yaml.Scan

/-!
# YAML documents

A document is a tree of scalars, sequences and mappings.  It is read off the
tokens by recursive descent, one function for each kind of collection.

## Main definitions

* `Yaml.Node` — documents.
* `Yaml.Node.read?` — the single document of a text.
-/

namespace Schematic.Yaml

/-- A document or a part of one. -/
inductive Node where
  /-- A scalar, plain or of another form. -/
  | scalar (plain : Bool) (text : String)
  /-- A sequence. -/
  | sequence (items : List Node)
  /-- A mapping, its pairs in the order they are written. -/
  | mapping (pairs : List (Node × Node))
  deriving Repr, Inhabited

namespace Node

/-- What stands where nothing is written. -/
def empty : Node := .scalar true ""

/-- Whether a value may be left out before a token of a block collection. -/
def endsBlockItem : List Token → Bool
  | .key :: _ | .value :: _ | .blockEnd :: _ => true
  | _ => false

/-- Whether a value may be left out before a token of a flow collection. -/
def endsFlowItem : List Token → Bool
  | .flowEntry :: _ | .flowSequenceEnd :: _ | .flowMappingEnd :: _ => true
  | _ => false

/-- Put a pair in front of a mapping's pairs. -/
def consPair (key value : Node) (r : List (Node × Node) × List Token) :
    List (Node × Node) × List Token :=
  ((key, value) :: r.1, r.2)

/-- Put an item in front of a sequence's items. -/
def consItem (item : Node) (r : List Node × List Token) : List Node × List Token :=
  (item :: r.1, r.2)

mutual

/-- A node.  `block` allows block collections, `loose` the entries of a block
sequence that is indented no further than its key. -/
def node? (block loose : Bool) : Nat → List Token → Option (Node × List Token)
  | 0, _ => none
  | fuel + 1, ts =>
      match ts with
      | .scalar plain text :: rest => some (.scalar plain text, rest)
      | .flowSequenceStart :: rest =>
          (flowItems? true fuel rest).map fun r => (.sequence r.1, r.2)
      | .flowMappingStart :: rest =>
          (flowPairs? true fuel rest).map fun r => (.mapping r.1, r.2)
      | .blockSequenceStart :: rest =>
          if block then (blockItems? fuel rest).map fun r => (.sequence r.1, r.2) else none
      | .blockMappingStart :: rest =>
          if block then (blockPairs? fuel rest).map fun r => (.mapping r.1, r.2) else none
      | .blockEntry :: _ =>
          if loose then (looseItems? fuel ts).map fun r => (.sequence r.1, r.2) else none
      | _ => none

/-- The entries of an indented block sequence, up to its end. -/
def blockItems? : Nat → List Token → Option (List Node × List Token)
  | 0, _ => none
  | fuel + 1, ts =>
      match ts with
      | .blockEnd :: rest => some ([], rest)
      | .blockEntry :: rest =>
          match rest with
          | .blockEntry :: _ | .blockEnd :: _ => (blockItems? fuel rest).map (consItem empty)
          | _ => do
              let (item, rest) ← node? true false fuel rest
              (blockItems? fuel rest).map (consItem item)
      | _ => none

/-- The entries of a block sequence that is indented no further than its key. -/
def looseItems? : Nat → List Token → Option (List Node × List Token)
  | 0, _ => none
  | fuel + 1, ts =>
      match ts with
      | .blockEntry :: rest =>
          match rest with
          | .blockEntry :: _ | .key :: _ | .value :: _ | .blockEnd :: _ =>
              (looseItems? fuel rest).map (consItem empty)
          | _ => do
              let (item, rest) ← node? true false fuel rest
              (looseItems? fuel rest).map (consItem item)
      | _ => some ([], ts)

/-- The pairs of a block mapping, up to its end. -/
def blockPairs? : Nat → List Token → Option (List (Node × Node) × List Token)
  | 0, _ => none
  | fuel + 1, ts =>
      match ts with
      | .blockEnd :: rest => some ([], rest)
      | .key :: rest => do
          let (key, rest) ←
            if endsBlockItem rest then some (empty, rest) else node? true true fuel rest
          let (value, rest) ←
            match rest with
            | .value :: rest =>
                if endsBlockItem rest then some (empty, rest) else node? true true fuel rest
            | _ => some (empty, rest)
          (blockPairs? fuel rest).map (consPair key value)
      | _ => none

/-- The items of a flow sequence, up to its end; an item may be a single
pair. -/
def flowItems? (first : Bool) : Nat → List Token → Option (List Node × List Token)
  | 0, _ => none
  | fuel + 1, ts =>
      match ts with
      | .flowSequenceEnd :: rest => some ([], rest)
      | _ => do
          let ts ←
            match first, ts with
            | true, ts => some ts
            | false, .flowEntry :: rest => some rest
            | false, _ => none
          match ts with
          | .flowSequenceEnd :: rest => some ([], rest)
          | .key :: rest => do
              let (pair, rest) ← itemPair? fuel rest
              (flowItems? false fuel rest).map (consItem (.mapping [pair]))
          | _ => do
              let (item, rest) ← node? false false fuel ts
              (flowItems? false fuel rest).map (consItem item)

/-- The pairs of a flow mapping, up to its end. -/
def flowPairs? (first : Bool) : Nat → List Token → Option (List (Node × Node) × List Token)
  | 0, _ => none
  | fuel + 1, ts =>
      match ts with
      | .flowMappingEnd :: rest => some ([], rest)
      | _ => do
          let ts ←
            match first, ts with
            | true, ts => some ts
            | false, .flowEntry :: rest => some rest
            | false, _ => none
          match ts with
          | .flowMappingEnd :: rest => some ([], rest)
          | .key :: rest => do
              let ((key, value), rest) ← flowPair? fuel rest
              (flowPairs? false fuel rest).map (consPair key value)
          | _ => do
              let (key, rest) ← node? false false fuel ts
              (flowPairs? false fuel rest).map (consPair key empty)

/-- A key and its value as an item of a flow sequence.  A token that shows at
once that the key is left out is used up by that. -/
def itemPair? : Nat → List Token → Option ((Node × Node) × List Token)
  | 0, _ => none
  | fuel + 1, ts => do
      let (key, rest) ←
        match ts with
        | .value :: rest | .flowEntry :: rest | .flowSequenceEnd :: rest => some (empty, rest)
        | _ => node? false false fuel ts
      flowValue? key fuel rest

/-- A key and its value as a part of a flow mapping. -/
def flowPair? : Nat → List Token → Option ((Node × Node) × List Token)
  | 0, _ => none
  | fuel + 1, ts => do
      let (key, rest) ←
        match ts with
        | .value :: _ => some (empty, ts)
        | _ => if endsFlowItem ts then some (empty, ts) else node? false false fuel ts
      flowValue? key fuel rest

/-- The value after a key inside a flow collection, if there is one. -/
def flowValue? (key : Node) : Nat → List Token → Option ((Node × Node) × List Token)
  | 0, _ => none
  | fuel + 1, ts =>
      match ts with
      | .value :: rest =>
          if endsFlowItem rest then some ((key, empty), rest)
          else (node? false false fuel rest).map fun r => ((key, r.1), r.2)
      | _ => some ((key, empty), ts)

end

/-- The single document of a token list; an empty one holds nothing. -/
def ofTokens? (ts : List Token) : Option Node := do
  let (explicit, body) := match ts with
    | .documentStart :: rest => (true, rest)
    | ts => (false, ts)
  let (root, rest) ←
    match body with
    | [] => some (empty, [])
    | .documentStart :: _ | .documentEnd :: _ => if explicit then some (empty, body) else none
    | _ => node? true false (5 * body.length + 5) body
  if rest.all (· == .documentEnd) then some root else none

/-- The single document of a text. -/
def read? (text : String) : Option Node :=
  (Token.scan? text).bind fun tokens => ofTokens? tokens.toList

end Node

end Schematic.Yaml
