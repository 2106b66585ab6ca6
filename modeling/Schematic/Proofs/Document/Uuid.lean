import Schematic.Document.IdMap
import Schematic.Proofs.Lists
import Schematic.Proofs.SExpr.NumberText
import Schematic.Proofs.Tables

/-!
# The form of identifiers

An identifier is kept in one form, thirty-two small hexadecimal digits with four
dashes, and whatever is read into that form stays in it.  Such an identifier is
written without quotes, and although it may start with digits it is not mistaken for
a number: a number has a dash for its sign and one for the sign of its exponent, and
no more.

## Main definitions

* `IsUuid` — identifiers in the form in which they are kept.
* `IdMap.IsCanonical` — tables in order that keep such identifiers.

## Main statements

* `isUuid_iff` — the digits of an identifier.
* `isUuid_of_canonicalUuid?`, `isUuid_uuidOfWords` — what is read and what is made from
  random words is in that form.
* `IsUuid.isSymbol` — an identifier is a word and no number.
* `IdMap.isCanonical_of_read?`, `IdMap.IsCanonical.cover` — tables stay canonical.
-/

namespace Schematic

/-- An identifier in the form in which it is kept. -/
def IsUuid (id : String) : Prop := canonicalUuid? id = some id

instance instDecidableIsUuid (id : String) : Decidable (IsUuid id) :=
  inferInstanceAs (Decidable (canonicalUuid? id = some id))

/-! ### Hexadecimal digits -/

/-- The hexadecimal digits in both letter cases. -/
def hexDigits : List Char := "0123456789abcdefABCDEF".toList

theorem mem_hexDigits {c : Char} (h : isHexDigit c = true) : c ∈ hexDigits := by
  have hrange : (48 ≤ c.toNat ∧ c.toNat < 58) ∨ (97 ≤ c.toNat ∧ c.toNat < 103) ∨
      (65 ≤ c.toNat ∧ c.toNat < 71) := by
    unfold isHexDigit hexDigitValue? at h
    simp only [Char.isDigit, Bool.and_eq_true, decide_eq_true_eq, ge_iff_le, Char.le_def,
      UInt32.le_iff_toNat_le] at h
    split at h
    · next hdigit => exact .inl ⟨hdigit.1, Nat.lt_succ_of_le hdigit.2⟩
    split at h
    · next hsmall => exact .inr (.inl ⟨hsmall.1, Nat.lt_succ_of_le hsmall.2⟩)
    split at h
    · next hcapital => exact .inr (.inr ⟨hcapital.1, Nat.lt_succ_of_le hcapital.2⟩)
    · exact absurd h (by decide)
  have hall : ∀ n, n < 103 → (48 ≤ n ∧ n < 58) ∨ (97 ≤ n ∧ n < 103) ∨ (65 ≤ n ∧ n < 71) →
      Char.ofNat n ∈ hexDigits := by decide
  have hmem := hall c.toNat (by omega) hrange
  rwa [Char.ofNat_toNat] at hmem

theorem ne_dash_of_isHexDigit {c : Char} (h : isHexDigit c = true) : c ≠ '-' := by
  rintro rfl
  exact absurd h (by decide)

theorem isBareChar_of_isHexDigit {c : Char} (h : isHexDigit c = true) :
    SExpr.isBareChar c = true := by
  have hall : hexDigits.all SExpr.isBareChar = true := by decide
  exact List.all_eq_true.1 hall c (mem_hexDigits h)

/-- A small hexadecimal digit. -/
def IsSmallHexDigit (c : Char) : Prop := isHexDigit c = true ∧ c.toLower = c

theorem isSmallHexDigit_toLower {c : Char} (h : isHexDigit c = true) :
    IsSmallHexDigit c.toLower := by
  have hall : (hexDigits.all fun d =>
      isHexDigit d.toLower && d.toLower.toLower = d.toLower) = true := by decide
  have hlower := List.all_eq_true.1 hall c (mem_hexDigits h)
  rw [Bool.and_eq_true, decide_eq_true_eq] at hlower
  exact hlower

theorem isSmallHexDigit_hexDigit (n : Nat) : IsSmallHexDigit (hexDigit n) := by
  have hall : ∀ d : Fin 16, isHexDigit (Nat.digitChar d) = true ∧
      (Nat.digitChar d).toLower = Nat.digitChar d := by decide
  exact hall ⟨n % 16, Nat.mod_lt n (by decide)⟩

/-! ### Dashes between the digits -/

/-- The dashes stand between parts that make up the digits. -/
theorem filter_hyphenate {digits : List Char} (hlength : digits.length = 32)
    (hdash : '-' ∉ digits) : (hyphenate digits).filter (· ≠ '-') = digits := by
  have hpart : ∀ start length, ((digits.drop start).take length).filter (· ≠ '-') =
      (digits.drop start).take length := fun start length =>
    List.filter_eq_self.2 fun c hc => by
      have hmem := List.mem_of_mem_drop (List.mem_of_mem_take hc)
      simpa using fun heq : c = '-' => hdash (heq ▸ hmem)
  have hjoin : ∀ start length rest : Nat, rest = start + length →
      (digits.drop start).take length ++ digits.drop rest = digits.drop start := by
    rintro start length _ rfl
    rw [← List.drop_drop, List.take_append_drop]
  have hlast : (digits.drop 20).take 12 = digits.drop 20 := by
    rw [List.take_of_length_le]
    simp [hlength]
  have hdashes : ∀ cs : List Char, ('-' :: cs).filter (· ≠ '-') = cs.filter (· ≠ '-') :=
    fun cs => List.filter_cons_of_neg (by simp)
  simp only [hyphenate, List.cons_append, List.append_assoc, List.filter_append, hdashes, hpart]
  rw [hlast, hjoin 16 4 20 rfl, hjoin 12 4 16 rfl, hjoin 8 4 12 rfl, hjoin 0 8 8 rfl,
    List.drop_zero]

theorem length_hyphenate {digits : List Char} (hlength : digits.length = 32) :
    (hyphenate digits).length = 36 := by
  simp [hyphenate, hlength]

theorem four_le_count_hyphenate (digits : List Char) : 4 ≤ (hyphenate digits).count '-' := by
  simp only [hyphenate, List.count_append, List.count_cons_self]
  omega

theorem mem_of_mem_hyphenate {digits : List Char} {c : Char} (h : c ∈ hyphenate digits) :
    c = '-' ∨ c ∈ digits := by
  have hpart : ∀ {start length}, c ∈ (digits.drop start).take length → c ∈ digits :=
    fun hc => List.mem_of_mem_drop (List.mem_of_mem_take hc)
  simp only [hyphenate, List.mem_append, List.mem_cons] at h
  rcases h with (((h | rfl | h) | rfl | h) | rfl | h) | rfl | h
  all_goals first
    | exact .inl rfl
    | exact .inr (hpart h)

/-! ### The form that is kept -/

/-- Thirty-two hexadecimal digits with their dashes are read as these digits. -/
theorem canonicalUuid?_hyphenate {digits : List Char} (hlength : digits.length = 32)
    (hhex : ∀ c ∈ digits, isHexDigit c = true) :
    canonicalUuid? (String.ofList (hyphenate digits)) =
      some (String.ofList (hyphenate (digits.map Char.toLower))) := by
  have hdash : '-' ∉ digits := fun hmem => ne_dash_of_isHexDigit (hhex _ hmem) rfl
  have hdigits : hyphenatedDigits? (hyphenate digits) = some digits := by
    simp only [hyphenatedDigits?, filter_hyphenate hlength hdash, hlength]
    simp
  have hread : uuidDigits? (hyphenate digits) = some digits := by
    simp [uuidDigits?, length_hyphenate hlength, hdigits]
  rw [canonicalUuid?, String.toList_ofList, hread, Option.bind_some,
    if_pos (List.all_eq_true.2 hhex)]

theorem length_of_hyphenatedDigits? {text digits : List Char}
    (h : hyphenatedDigits? text = some digits) : digits.length = 32 := by
  simp only [hyphenatedDigits?, Option.ite_none_right_eq_some, Bool.and_eq_true,
    decide_eq_true_eq, Option.some.injEq] at h
  obtain ⟨⟨hlength, -⟩, rfl⟩ := h
  exact hlength

theorem length_of_uuidDigits? {text digits : List Char} (h : uuidDigits? text = some digits) :
    digits.length = 32 := by
  simp only [uuidDigits?] at h
  split at h
  · next hlength => exact Option.some.inj h ▸ hlength
  split at h
  · exact length_of_hyphenatedDigits? h
  split at h
  · exact length_of_hyphenatedDigits? h
  · exact length_of_hyphenatedDigits? h

/-- What is read are thirty-two hexadecimal digits, which are kept in small letters. -/
theorem exists_digits_of_canonicalUuid? {text id : String} (h : canonicalUuid? text = some id) :
    ∃ digits : List Char, digits.length = 32 ∧ (∀ c ∈ digits, IsSmallHexDigit c) ∧
      id = String.ofList (hyphenate digits) := by
  obtain ⟨digits, hread, hcanonical⟩ := Option.bind_eq_some_iff.1 h
  rw [Option.ite_none_right_eq_some, Option.some.injEq, List.all_eq_true] at hcanonical
  refine ⟨digits.map Char.toLower, ?_, ?_, hcanonical.2.symm⟩
  · rw [List.length_map, length_of_uuidDigits? hread]
  · exact List.forall_mem_map.2 fun c hc => isSmallHexDigit_toLower (hcanonical.1 c hc)

/-- An identifier is thirty-two small hexadecimal digits with their dashes. -/
theorem isUuid_iff {id : String} :
    IsUuid id ↔ ∃ digits : List Char, digits.length = 32 ∧ (∀ c ∈ digits, IsSmallHexDigit c) ∧
      id = String.ofList (hyphenate digits) := by
  refine ⟨exists_digits_of_canonicalUuid?, ?_⟩
  rintro ⟨digits, hlength, hsmall, rfl⟩
  rw [IsUuid, canonicalUuid?_hyphenate hlength fun c hc => (hsmall c hc).1,
    List.map_congr_left fun c hc => (hsmall c hc).2, List.map_id']

/-- What is read into the form that is kept is in that form. -/
theorem isUuid_of_canonicalUuid? {text id : String} (h : canonicalUuid? text = some id) :
    IsUuid id :=
  isUuid_iff.2 (exists_digits_of_canonicalUuid? h)

/-- What is made from random words is in the form that is kept. -/
theorem isUuid_uuidOfWords (high low : UInt64) : IsUuid (uuidOfWords high low) := by
  have hword : ∀ w : UInt64, ∀ c ∈ wordDigits w, IsSmallHexDigit c := fun w c hc => by
    obtain ⟨i, -, rfl⟩ := List.mem_map.1 hc
    exact isSmallHexDigit_hexDigit _
  refine isUuid_iff.2 ⟨_, ?_, fun c hc => ?_, rfl⟩
  · simp [wordDigits]
  · rcases List.mem_or_eq_of_mem_set hc with hc | rfl
    · rcases List.mem_or_eq_of_mem_set hc with hc | rfl
      · exact (List.mem_append.1 hc).elim (hword _ c) (hword _ c)
      · exact isSmallHexDigit_hexDigit 4
    · exact isSmallHexDigit_hexDigit _

/-! ### Identifiers are no numbers -/

theorem count_dash_of_all_isDigit {cs : List Char} (h : ∀ c ∈ cs, c.isDigit = true) :
    cs.count '-' = 0 :=
  List.count_eq_zero.2 fun hmem => absurd (h _ hmem) (by decide)

theorem Decimal.count_dash_le_splitSign (cs : List Char) :
    cs.count '-' ≤ (Decimal.splitSign cs).2.count '-' + 1 := by
  unfold splitSign
  split
  · rw [List.count_cons_self]
  · rw [List.count_cons_of_ne (by decide)]
    exact Nat.le_succ _
  · exact Nat.le_succ _

theorem Decimal.count_dash_le_of_parseExponent? {cs : List Char} {e : Int}
    (h : parseExponent? cs = some e) : cs.count '-' ≤ 1 := by
  cases cs with
  | nil => simp
  | cons c rest =>
    simp only [parseExponent?] at h
    split at h
    · next hletter =>
      split at h
      · cases h
      · next hdigits =>
        simp only [Bool.or_eq_true, Bool.not_eq_true', not_or, Bool.not_eq_false,
          List.all_eq_true] at hdigits
        have hsign := count_dash_le_splitSign rest
        rw [count_dash_of_all_isDigit hdigits.2] at hsign
        have hne : c ≠ '-' := by rcases hletter with rfl | rfl <;> decide
        rw [List.count_cons_of_ne hne]
        omega
    · cases h

/-- A number has a dash for the sign of its exponent, if it has any. -/
theorem Decimal.count_dash_le_of_parseUnsigned? {negative : Bool} {cs : List Char} {d : Decimal}
    (h : parseUnsigned? negative cs = some d) : cs.count '-' ≤ 1 := by
  have hsplit : ∀ ds : List Char, ds.count '-' = (ds.dropWhile Char.isDigit).count '-' := by
    intro ds
    have hdigits : (ds.takeWhile Char.isDigit).count '-' = 0 :=
      count_dash_of_all_isDigit fun c hc => List.mem_takeWhile_imp hc
    have hjoin := congrArg (List.count '-') (List.takeWhile_append_dropWhile (p := Char.isDigit)
      (l := ds))
    rw [List.count_append, hdigits, Nat.zero_add] at hjoin
    exact hjoin.symm
  rw [hsplit]
  simp only [parseUnsigned?] at h
  generalize cs.dropWhile Char.isDigit = after at h ⊢
  rw [Option.ite_none_left_eq_some] at h
  obtain ⟨e, he, -⟩ := Option.map_eq_some_iff.1 h.2
  have hexponent := count_dash_le_of_parseExponent? he
  split at hexponent
  · next more =>
    rw [List.count_cons_of_ne (by decide), hsplit]
    exact hexponent
  · exact hexponent

/-- A number has no more than two dashes. -/
theorem Decimal.count_dash_le_of_parse? {cs : List Char} {d : Decimal}
    (h : parse? cs = some (.finite d)) : cs.count '-' ≤ 2 := by
  have hsign := count_dash_le_splitSign cs
  simp only [parse?] at h
  split at h
  · cases h
  split at h
  · cases h
  · obtain ⟨value, hvalue, -⟩ := Option.map_eq_some_iff.1 h
    have hbody := count_dash_le_of_parseUnsigned? hvalue
    omega

/-- An identifier is a word, and although it may start with digits it is no number. -/
theorem IsUuid.isSymbol {id : String} (h : IsUuid id) : SExpr.IsSymbol id := by
  obtain ⟨digits, hlength, hsmall, rfl⟩ := isUuid_iff.1 h
  have hdashes := four_le_count_hyphenate digits
  rw [SExpr.IsSymbol, String.toList_ofList]
  refine ⟨⟨fun hnil => ?_, fun c hc => ?_⟩, ?_⟩
  · rw [hnil] at hdashes
    exact absurd hdashes (by decide)
  · rcases mem_of_mem_hyphenate hc with rfl | hc
    · decide
    · exact isBareChar_of_isHexDigit (hsmall c hc).1
  · unfold SExpr.readsAsNumber
    split
    · next hnumber =>
      have htwo := Decimal.count_dash_le_of_parse? hnumber
      omega
    · rfl

/-! ### Tables of identifiers -/

namespace IdMap

/-- A table in order whose identifiers are in the form in which they are kept. -/
structure IsCanonical (ids : IdMap) : Prop where
  /-- The keys are in ascending order. -/
  sorted : ids.Sorted
  /-- What is kept are identifiers. -/
  isUuid : ∀ e ∈ ids.entries, IsUuid e.2

theorem isCanonical_empty : IsCanonical ∅ := ⟨Table.sorted_empty, nofun⟩

variable {ids : IdMap}

theorem IsCanonical.insert (h : ids.IsCanonical) (key : String) {id : String} (hid : IsUuid id) :
    IsCanonical (Table.insert ids key id) := by
  refine ⟨h.sorted.insert key id, fun e he => ?_⟩
  rcases Table.eq_or_mem_of_mem_insert he with rfl | he
  · exact hid
  · exact h.isUuid e he

/-- A table stays canonical when new identifiers are kept in it. -/
theorem IsCanonical.cover (h : ids.IsCanonical) {mint : String → String}
    (hmint : ∀ key, IsUuid (mint key)) (keys : List String) :
    (ids.cover mint keys).IsCanonical := by
  induction keys generalizing ids with
  | nil => exact h
  | cons key keys ih =>
    refine ih ?_
    unfold coverKey
    split
    · exact h
    · exact h.insert key (hmint key)

/-- A key of a canonical table has an identifier in the form that is kept. -/
theorem IsCanonical.isUuid_idFor (h : ids.IsCanonical) {mint : String → String}
    (hmint : ∀ key, IsUuid (mint key)) (key : String) : IsUuid (ids.idFor mint key) := by
  unfold idFor
  cases hfind : ids.find? key with
  | none => exact hmint key
  | some id => exact h.isUuid _ (Table.mem_of_find?_eq_some hfind)

/-- A table that is read is canonical. -/
theorem isCanonical_of_read? {text : String} (h : IdMap.read? text = some ids) :
    ids.IsCanonical := by
  obtain ⟨members, -, h⟩ := Option.bind_eq_some_iff.1 h
  obtain ⟨es, hes, h⟩ := Option.bind_eq_some_iff.1 h
  obtain rfl := Option.some.inj h
  have hall : ∀ e ∈ es, IsUuid e.2 := by
    intro e he
    have hmem := List.mem_map_of_mem (f := some) he
    rw [← mapM_eq_some_iff.1 hes] at hmem
    obtain ⟨m, -, hm⟩ := List.mem_map.1 hmem
    obtain ⟨id, hid, rfl⟩ := Option.map_eq_some_iff.1 hm
    exact isUuid_of_canonicalUuid? hid
  have hfold : ∀ (es : List (String × String)) (t : IdMap), t.IsCanonical →
      (∀ e ∈ es, IsUuid e.2) → IsCanonical (es.foldl (fun t e => t.insert e.1 e.2) t) := by
    intro es
    induction es with
    | nil => exact fun t ht _ => ht
    | cons e es ih =>
      intro t ht hes
      obtain ⟨he, hes⟩ := List.forall_mem_cons.1 hes
      exact ih _ (ht.insert e.1 he) hes
  exact hfold es ∅ isCanonical_empty hall

end IdMap

end Schematic
