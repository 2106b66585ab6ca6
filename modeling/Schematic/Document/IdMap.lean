import Schematic.Json.Reader
import Schematic.Json.Value
import Schematic.Table

/-!
# Identifiers that last

Everything that is drawn has an identifier.  Identifiers are kept from run to
run under keys made from names, so that drawing the same circuit again gives the
same identifiers.  A key without an identifier gets a new one, which `mint`
supplies.

## Main definitions

* `canonicalUuid?` — the one form in which an identifier is kept.
* `uuidOfWords` — an identifier from random words.
* `IdMap`, `IdMap.idFor` — identifiers by key.
* `IdMap.cover` — identifiers for some keys.
* `IdMap.read?`, `IdMap.text` — the stored form.

## Main statements

* `IdMap.find?_cover` — an identifier that is there stays, and every covered key
  has the one that `idFor` tells.
-/

namespace Schematic

/-! ### The form of identifiers -/

/-- The lengths of the parts of an identifier. -/
def uuidParts : List Nat := [8, 4, 4, 4, 12]

/-- Hexadecimal digits with dashes between the parts of an identifier. -/
def hyphenate (digits : List Char) : List Char :=
  let part (start length : Nat) : List Char := (digits.drop start).take length
  part 0 8 ++ '-' :: part 8 4 ++ '-' :: part 12 4 ++ '-' :: part 16 4 ++ '-' :: part 20 12

/-- The digits of an identifier that has its dashes in the right places. -/
def hyphenatedDigits? (text : List Char) : Option (List Char) :=
  let digits := text.filter (· ≠ '-')
  if digits.length = 32 && hyphenate digits = text then some digits else none

/-- The digits of an identifier: bare, with dashes, in braces or after a name
space in any letter case. -/
def uuidDigits? (text : List Char) : Option (List Char) :=
  let namespaceText := "urn:uuid:".toList
  if text.length = 32 then some text
  else if text.length = 38 && text.head? = some '{' && text.getLast? = some '}' then
    hyphenatedDigits? text.tail.dropLast
  else if text.length = 45 && namespaceText.isPrefixOf (text.map Char.toLower) then
    hyphenatedDigits? (text.drop namespaceText.length)
  else hyphenatedDigits? text

/-- The form in which an identifier is kept: small letters with dashes between
the parts. -/
def canonicalUuid? (text : String) : Option String :=
  (uuidDigits? text.toList).bind fun digits =>
    if digits.all isHexDigit then some (String.ofList (hyphenate (digits.map Char.toLower)))
    else none

/-- The hexadecimal digits of a word. -/
def wordDigits (w : UInt64) : List Char :=
  (List.range 16).map fun i => hexDigit (w.toNat / twoPow (60 - 4 * i))

/-- The identifier with the digits of two words, except for the two digits that
say that the others are random. -/
def uuidOfWords (high low : UInt64) : String :=
  let digits := wordDigits high ++ wordDigits low
  let variant := hexDigit (8 + low.toNat / twoPow 62)
  String.ofList (hyphenate ((digits.set 12 '4').set 16 variant))

/-! ### Maps -/

/-- Identifiers by key. -/
abbrev IdMap := Table String

namespace IdMap

/-- The identifier of a key: the one that is kept, else a new one. -/
def idFor (mint : String → String) (ids : IdMap) (key : String) : String :=
  (ids.find? key).getD (mint key)

/-- Keep a new identifier for a key that has none. -/
def coverKey (mint : String → String) (ids : IdMap) (key : String) : IdMap :=
  if (ids.find? key).isSome then ids else ids.insert key (mint key)

/-- Keep new identifiers for all keys that have none. -/
def cover (mint : String → String) (ids : IdMap) (keys : List String) : IdMap :=
  keys.foldl (coverKey mint) ids

theorem find?_coverKey (mint : String → String) (ids : IdMap) (key other : String) :
    (ids.coverKey mint key).find? other =
      if key = other then some (ids.idFor mint key) else ids.find? other := by
  unfold coverKey idFor
  cases h : ids.find? key with
  | some id => by_cases hk : key = other <;> simp_all
  | none => simp [Table.find?_insert]

/-- A key has its identifier once it is covered, and a kept one stays. -/
theorem find?_cover (mint : String → String) (ids : IdMap) (keys : List String) (key : String) :
    (ids.cover mint keys).find? key =
      if key ∈ keys then some (ids.idFor mint key) else ids.find? key := by
  unfold cover
  induction keys generalizing ids with
  | nil => simp
  | cons k ks ih =>
    rw [List.foldl_cons, ih]
    by_cases hk : k = key
    · subst hk; simp [find?_coverKey, idFor]
    · simp [find?_coverKey, idFor, hk, Ne.symm hk]

/-! ### The stored form -/

/-- Read a map; every member has to be an identifier, and of two members of one
name the last counts. -/
def read? (text : String) : Option IdMap := do
  let members ← readStringMembers? text
  let ids ← members.mapM fun m => (canonicalUuid? m.2).map fun id => (m.1, id)
  some (Table.ofList ids)

/-- The stored form of a map. -/
def text (ids : IdMap) : String :=
  (JsonValue.object (ids.entries.map fun e => (e.1, .string e.2))).text

end IdMap

end Schematic
