import Mathlib.Data.List.Nodup
import Mathlib.Data.Set.Function
import Schematic.Circuit.PinRef
import Schematic.Document.SheetDocument

/-!
# Keys

The key of an item on a sheet is made from names with underscores between them.
As long as designators and pin numbers have no underscores of their own, the names
can be told from the key again: what comes before the first underscore is the
designator, and the end of the key tells what kind of item it is.  The keys that
pins are connected by may hold anything, since they stand before an ending of
their own.

With an underscore in a designator this breaks down, and the symbol of one
component shares its key with a pin of another one.

## Main definitions

* `Entity`, `Entity.key` — what has an identifier on a sheet, and its key.
* `Entity.Plain` — there are no underscores in its names.
* `IdMap.Fresh` — identifiers that are distinct, and new ones that differ from them.

## Main statements

* `WireKey.text_injective` — the key of a wire tells its ends.
* `Entity.key_injOn` — the key of an item with plain names tells the item.
* `Entity.key_symbol_eq_key_symbolPin` — names that are not plain can share a key.
* `IdMap.Fresh.idFor_injOn` — different keys have different identifiers.
-/

namespace Schematic

/-! ### Taking keys apart -/

/-- What stands before and after the first occurrence of a separator. -/
theorem eq_of_append_cons {c : Char} {before before' after after' : List Char} (h : c ∉ before)
    (h' : c ∉ before') (heq : before ++ c :: after = before' ++ c :: after') :
    before = before' ∧ after = after' := by
  induction before generalizing before' with
  | nil =>
    cases before' with
    | nil => exact ⟨rfl, (List.cons.inj heq).2⟩
    | cons d ds => exact absurd ((List.cons.inj heq).1 ▸ List.mem_cons_self) h'
  | cons d ds ih =>
    cases before' with
    | nil => exact absurd ((List.cons.inj heq).1 ▸ List.mem_cons_self) h
    | cons e es =>
      obtain ⟨rfl, hrest⟩ := List.cons.inj heq
      obtain ⟨rfl, hafter⟩ := ih (List.not_mem_of_not_mem_cons h)
        (List.not_mem_of_not_mem_cons h') hrest
      exact ⟨rfl, hafter⟩

/-- The last characters of a text are those of its last part, if that is long enough. -/
theorem take_reverse_append {k : Nat} (before : List Char) {last : List Char}
    (h : k ≤ last.length) : (before ++ last).reverse.take k = last.reverse.take k := by
  rw [List.reverse_append, List.take_append_of_le_length (by rwa [List.length_reverse])]

/-! ### Numbers in keys -/

theorem toDigits_injective {m n : Nat} (h : Nat.toDigits 10 m = Nat.toDigits 10 n) : m = n := by
  rw [← Nat.ofDigitChars_ten_toDigits (n := m), h, Nat.ofDigitChars_ten_toDigits]

/-- Zeros in front do not count. -/
theorem ofDigitChars_paddedDigits (width n : Nat) :
    Nat.ofDigitChars 10 (paddedDigits width n) 0 = n := by
  have hzeros : ∀ k, Nat.ofDigitChars 10 (List.replicate k '0') 0 = 0 := by
    intro k
    induction k with
    | zero => rfl
    | succ k ih => rw [List.replicate_succ, Nat.ofDigitChars_cons]; exact ih
  rw [paddedDigits, Nat.ofDigitChars_append, hzeros, Nat.ofDigitChars_ten_toDigits]

theorem paddedDigits_injective {width m n : Nat} (h : paddedDigits width m = paddedDigits width n) :
    m = n := by
  rw [← ofDigitChars_paddedDigits width m, h, ofDigitChars_paddedDigits]

theorem isDigit_of_mem_paddedDigits {width n : Nat} {c : Char} (h : c ∈ paddedDigits width n) :
    c.isDigit = true := by
  rcases List.mem_append.1 h with h | h
  · rw [List.eq_of_mem_replicate h]
    rfl
  · exact Nat.isDigit_of_mem_toDigits (by decide) (by decide) h

theorem le_length_paddedDigits (width n : Nat) : width ≤ (paddedDigits width n).length := by
  rw [paddedDigits, List.length_append, List.length_replicate]
  omega

theorem toList_tenThousandthsText (n : Int) :
    (tenThousandthsText n).toList = (if n < 0 then ['-'] else []) ++
      (Nat.toDigits 10 (n.natAbs / 10000) ++ '.' :: paddedDigits 4 (n.natAbs % 10000)) := by
  have hsign : (if n < 0 then "-" else "").toList = if n < 0 then ['-'] else [] := by
    split <;> rfl
  simp only [tenThousandthsText, String.toList_append, hsign, digitText, String.toList_ofList,
    List.append_assoc]
  rfl

/-- A number with four decimals has digits, a point and a sign. -/
theorem not_mem_tenThousandthsText {n : Int} {c : Char} (hdigit : c.isDigit = false)
    (hpoint : c ≠ '.') (hsign : c ≠ '-') : c ∉ (tenThousandthsText n).toList := by
  rw [toList_tenThousandthsText]
  intro h
  rcases List.mem_append.1 h with h | h
  · split at h
    · exact hsign (List.mem_singleton.1 h)
    · cases h
  · rcases List.mem_append.1 h with h | h
    · rw [Nat.isDigit_of_mem_toDigits (by decide) (by decide) h] at hdigit
      cases hdigit
    · rcases List.mem_cons.1 h with h | h
      · exact hpoint h
      · rw [isDigit_of_mem_paddedDigits h] at hdigit
        cases hdigit

/-- Its last two characters are digits. -/
theorem isDigit_end_tenThousandthsText {n : Int} {c : Char}
    (h : c ∈ (tenThousandthsText n).toList.reverse.take 2) : c.isDigit = true := by
  have hlength := le_length_paddedDigits 4 (n.natAbs % 10000)
  rw [toList_tenThousandthsText, take_reverse_append _
    (by rw [List.length_append, List.length_cons]; omega), List.append_cons,
    take_reverse_append _ (by omega)] at h
  exact isDigit_of_mem_paddedDigits (List.mem_reverse.1 (List.mem_of_mem_take h))

theorem tenThousandthsText_injective {m n : Int} (h : tenThousandthsText m = tenThousandthsText n) :
    m = n := by
  have hlist := congrArg String.toList h
  rw [toList_tenThousandthsText, toList_tenThousandthsText] at hlist
  -- digits are neither a sign nor a point
  have hdigit : ∀ (k : Nat) (c : Char), c.isDigit = false → c ∉ Nat.toDigits 10 k := by
    intro k c hc hmem
    rw [Nat.isDigit_of_mem_toDigits (by decide) (by decide) hmem] at hc
    cases hc
  have hbody : ∀ (k : Nat) (rest rest' : List Char), '-' :: rest ≠ Nat.toDigits 10 k ++ rest' := by
    intro k rest rest' heq
    obtain ⟨c, cs, hcs⟩ := List.exists_cons_of_ne_nil (Nat.toDigits_ne_nil (n := k) (b := 10))
    rw [hcs, List.cons_append, List.cons.injEq] at heq
    exact hdigit k '-' rfl (by rw [hcs, heq.1]; exact List.mem_cons_self)
  have habs : ∀ {i j : Nat}, Nat.toDigits 10 (i / 10000) ++ '.' :: paddedDigits 4 (i % 10000) =
      Nat.toDigits 10 (j / 10000) ++ '.' :: paddedDigits 4 (j % 10000) → i = j := by
    intro i j heq
    obtain ⟨hwhole, hfraction⟩ := eq_of_append_cons (hdigit _ _ rfl) (hdigit _ _ rfl) heq
    have hw := toDigits_injective hwhole
    have hf := paddedDigits_injective hfraction
    omega
  split at hlist <;> split at hlist
  · have := habs (List.append_cancel_left hlist)
    omega
  · exact absurd hlist (hbody _ _ _)
  · exact absurd hlist.symm (hbody _ _ _)
  · have := habs hlist
    omega

/-- The key of a wire tells its ends. -/
theorem WireKey.text_injective {k l : WireKey} (h : k.text = l.text) : k = l := by
  have hplain : ∀ n, '_' ∉ (tenThousandthsText n).toList := fun n =>
    not_mem_tenThousandthsText rfl (by decide) (by decide)
  have hlist := congrArg String.toList h
  have hmark : "_".toList = ['_'] := rfl
  simp only [text, String.toList_append, List.append_assoc, hmark, List.singleton_append,
    List.append_cancel_left_eq] at hlist
  obtain ⟨hlowx, hlist⟩ := eq_of_append_cons (hplain _) (hplain _) hlist
  obtain ⟨hlowy, hlist⟩ := eq_of_append_cons (hplain _) (hplain _) hlist
  obtain ⟨hhighx, hhighy⟩ := eq_of_append_cons (hplain _) (hplain _) hlist
  have hinj : ∀ {m n}, (tenThousandthsText m).toList = (tenThousandthsText n).toList → m = n :=
    fun heq => tenThousandthsText_injective (String.ext heq)
  have hlow : k.low = l.low := Prod.ext (hinj hlowx) (hinj hlowy)
  have hhigh : k.high = l.high := Prod.ext (hinj hhighx) (hinj hhighy)
  cases k
  cases l
  exact congr (congrArg WireKey.mk hlow) hhigh

/-- After its first word the key of a wire ends in digits, and it has underscores. -/
theorem WireKey.exists_toList_text (k : WireKey) : ∃ cs : List Char,
    k.text.toList = "wire".toList ++ '_' :: cs ∧ '_' ∈ cs ∧
      ∀ c ∈ cs.reverse.take 2, c.isDigit = true := by
  have hlength := le_length_paddedDigits 4 (k.high.2.natAbs % 10000)
  refine ⟨(tenThousandthsText k.low.1).toList ++ '_' :: (tenThousandthsText k.low.2).toList ++
    '_' :: (tenThousandthsText k.high.1).toList ++ ['_'] ++
    (tenThousandthsText k.high.2).toList, ?_, ?_, fun c hc => ?_⟩
  · have hword : "wire_".toList = "wire".toList ++ ['_'] := by decide
    have hmark : "_".toList = ['_'] := rfl
    simp only [text, String.toList_append, hword, hmark, List.append_assoc, List.singleton_append]
    rfl
  · simp
  · rw [take_reverse_append _ (by
      rw [toList_tenThousandthsText, List.length_append, List.length_append, List.length_cons]
      omega)] at hc
    exact isDigit_end_tenThousandthsText hc

/-! ### Items and their keys -/

/-- What has an identifier on a sheet.  Pins are given by the designator of their component and
by their number or by the key that they are connected by. -/
inductive Entity where
  /-- The sheet itself. -/
  | sheet
  /-- A wire between two rounded ends. -/
  | wire (ends : WireKey)
  /-- The flag of an unconnected pin. -/
  | flag (pin : PinRef)
  /-- The symbol of a component. -/
  | symbol (reference : String)
  /-- A pin of the symbol of a component. -/
  | symbolPin (pin : PinRef)
  /-- The power symbol at a pin. -/
  | power (pin : PinRef)
  /-- The pin of the power symbol at a pin. -/
  | powerPin (pin : PinRef)
  deriving DecidableEq, Repr

namespace Entity

/-- The names of a pin with an underscore between them. -/
def joined (pin : PinRef) : String := pin.reference ++ "_" ++ pin.key

/-- The key of an item. -/
def key : Entity → String
  | sheet => Sheet.sheetKey
  | wire ends => ends.text
  | flag pin => joined pin ++ "_nc"
  | symbol reference => reference
  | symbolPin pin => joined pin
  | power pin => joined pin ++ "_pwr"
  | powerPin pin => joined pin ++ "_pwr" ++ "_1"

/-- There are no underscores in the designators and in the numbers of pins, and no component is
called like the sheet. -/
def Plain : Entity → Prop
  | sheet | wire _ => True
  | flag pin | power pin | powerPin pin => '_' ∉ pin.reference.toList
  | symbol reference => '_' ∉ reference.toList ∧ reference ≠ Sheet.sheetKey
  | symbolPin pin => '_' ∉ pin.reference.toList ∧ '_' ∉ pin.key.toList

/-- The kinds of items. -/
inductive Kind where
  | sheet | wire | flag | symbol | symbolPin | power | powerPin
  deriving DecidableEq

/-- The kind of an item. -/
def kind : Entity → Kind
  | sheet => .sheet
  | wire _ => .wire
  | flag _ => .flag
  | symbol _ => .symbol
  | symbolPin _ => .symbolPin
  | power _ => .power
  | powerPin _ => .powerPin

/-- What stands before the first underscore of a key, and after it if it has one. -/
def parts : Entity → List Char × Option (List Char)
  | sheet => (Sheet.sheetKey.toList, none)
  | wire ends => ("wire".toList, some (ends.text.toList.drop 5))
  | flag pin => (pin.reference.toList, some (pin.key.toList ++ "_nc".toList))
  | symbol reference => (reference.toList, none)
  | symbolPin pin => (pin.reference.toList, some pin.key.toList)
  | power pin => (pin.reference.toList, some (pin.key.toList ++ "_pwr".toList))
  | powerPin pin => (pin.reference.toList, some (pin.key.toList ++ "_pwr_1".toList))

/-- The kind of an item from the parts of its key. -/
def kindOf : List Char × Option (List Char) → Kind
  | (stem, none) => if stem = Sheet.sheetKey.toList then .sheet else .symbol
  | (_, some rest) =>
      if '_' ∉ rest then .symbolPin
      else if rest.reverse.take 2 = ['c', 'n'] then .flag
      else if rest.reverse.take 2 = ['r', 'w'] then .power
      else if rest.reverse.take 2 = ['1', '_'] then .powerPin
      else .wire

variable {x y : Entity}

theorem Plain.not_mem_stem (h : x.Plain) : '_' ∉ x.parts.1 := by
  cases x with
  | sheet => exact (by decide : '_' ∉ Sheet.sheetKey.toList)
  | wire ends => exact (by decide : '_' ∉ "wire".toList)
  | flag pin => exact h
  | symbol reference => exact h.1
  | symbolPin pin => exact h.1
  | power pin => exact h
  | powerPin pin => exact h

theorem toList_joined (pin : PinRef) :
    (joined pin).toList = pin.reference.toList ++ '_' :: pin.key.toList := by
  have hmark : "_".toList = ['_'] := rfl
  rw [joined, String.toList_append, String.toList_append, hmark, List.append_assoc,
    List.singleton_append]

theorem toList_key (x : Entity) :
    x.key.toList = x.parts.1 ++ (x.parts.2.map fun cs => '_' :: cs).getD [] := by
  cases x with
  | sheet => exact (List.append_nil _).symm
  | symbol reference => exact (List.append_nil _).symm
  | wire ends =>
    obtain ⟨cs, hcs, -⟩ := ends.exists_toList_text
    have hdrop : ends.text.toList.drop 5 = cs := by rw [hcs]; rfl
    simp only [key, parts, hdrop, Option.map_some, Option.getD_some]
    exact hcs
  | symbolPin pin => exact toList_joined pin
  | flag pin | power pin =>
    rw [key, String.toList_append, toList_joined, List.append_assoc]
    rfl
  | powerPin pin =>
    have hending : "_pwr_1".toList = "_pwr".toList ++ "_1".toList := by decide
    rw [key, String.toList_append, String.toList_append, toList_joined, List.append_assoc,
      List.append_assoc, ← hending]
    rfl

/-- The key of an item with plain names tells its parts. -/
theorem parts_eq_of_key_eq (hx : x.Plain) (hy : y.Plain) (h : x.key = y.key) :
    x.parts = y.parts := by
  have hlist := congrArg String.toList h
  rw [toList_key, toList_key] at hlist
  have hxstem := hx.not_mem_stem
  have hystem := hy.not_mem_stem
  refine Prod.ext_iff.2 ?_
  cases hxrest : x.parts.2 <;> cases hyrest : y.parts.2 <;>
    simp only [hxrest, hyrest, Option.map_none, Option.map_some, Option.getD_none,
      Option.getD_some, List.append_nil] at hlist
  · exact ⟨hlist, rfl⟩
  · exact absurd (hlist ▸ List.mem_append_right _ List.mem_cons_self) hxstem
  · exact absurd (hlist ▸ List.mem_append_right _ List.mem_cons_self) hystem
  · obtain ⟨hstem, hrest⟩ := eq_of_append_cons hxstem hystem hlist
    exact ⟨hstem, congrArg some hrest⟩

/-- Its parts tell its kind. -/
theorem Plain.kindOf_parts (h : x.Plain) : kindOf x.parts = x.kind := by
  have hending : ∀ (cs : List Char) {ending : String}, 2 ≤ ending.toList.length →
      (cs ++ ending.toList).reverse.take 2 = ending.toList.reverse.take 2 := fun cs _ hlength =>
    take_reverse_append cs hlength
  cases x with
  | sheet => simp [parts, kindOf, kind]
  | symbol reference => exact if_neg fun heq => h.2 (String.ext heq)
  | symbolPin pin => exact if_pos h.2
  | flag pin =>
    simp only [parts, kindOf, kind]
    rw [if_neg (by simp), hending _ (by decide), if_pos (by decide)]
  | power pin =>
    simp only [parts, kindOf, kind]
    rw [if_neg (by simp), hending _ (by decide), if_neg (by decide), if_pos (by decide)]
  | powerPin pin =>
    simp only [parts, kindOf, kind]
    rw [if_neg (by simp), hending _ (by decide), if_neg (by decide), if_neg (by decide),
      if_pos (by decide)]
  | wire ends =>
    obtain ⟨cs, hcs, hmark, hdigits⟩ := ends.exists_toList_text
    have hdrop : ends.text.toList.drop 5 = cs := by rw [hcs]; rfl
    have hother : ∀ {c d : Char}, c.isDigit = false ∨ d.isDigit = false →
        cs.reverse.take 2 ≠ [c, d] := by
      intro c d hletter heq
      rw [heq] at hdigits
      simp only [List.forall_mem_cons] at hdigits
      rcases hletter with hc | hd
      · rw [hdigits.1] at hc
        cases hc
      · rw [hdigits.2.1] at hd
        cases hd
    simp only [parts, kindOf, kind, hdrop]
    rw [if_neg (by simpa using hmark), if_neg (hother (.inl rfl)), if_neg (hother (.inl rfl)),
      if_neg (hother (.inr rfl))]

/-- The key of an item with plain names tells the item. -/
theorem key_injOn : Set.InjOn key {x | x.Plain} := by
  intro x hx y hy h
  have hparts := parts_eq_of_key_eq hx hy h
  have hkind : x.kind = y.kind := by
    rw [← Plain.kindOf_parts hx, ← Plain.kindOf_parts hy, hparts]
  have hpin : ∀ {p q : PinRef}, p.reference.toList = q.reference.toList →
      p.key.toList = q.key.toList → p = q := by
    intro p q hreference hkey
    obtain ⟨r, k⟩ := p
    obtain ⟨r', k'⟩ := q
    exact congr (congrArg PinRef.mk (String.ext hreference)) (String.ext hkey)
  cases x <;> cases y <;> try cases hkind
  case sheet.sheet => rfl
  case wire.wire k l => exact congrArg wire (WireKey.text_injective h)
  case symbol.symbol r s => exact congrArg symbol h
  case symbolPin.symbolPin p q =>
    obtain ⟨hreference, hkey⟩ := Prod.mk.inj hparts
    exact congrArg symbolPin (hpin hreference (Option.some.inj hkey))
  case flag.flag p q =>
    obtain ⟨hreference, hkey⟩ := Prod.mk.inj hparts
    exact congrArg flag (hpin hreference (List.append_cancel_right (Option.some.inj hkey)))
  case power.power p q =>
    obtain ⟨hreference, hkey⟩ := Prod.mk.inj hparts
    exact congrArg power (hpin hreference (List.append_cancel_right (Option.some.inj hkey)))
  case powerPin.powerPin p q =>
    obtain ⟨hreference, hkey⟩ := Prod.mk.inj hparts
    exact congrArg powerPin (hpin hreference (List.append_cancel_right (Option.some.inj hkey)))

/-- With an underscore in a designator the symbol of one component shares its key with a pin of
another one. -/
theorem key_symbol_eq_key_symbolPin (pin : PinRef) :
    (symbol (joined pin)).key = (symbolPin pin).key := rfl

/-! ### Items without repetitions -/

/-- The part of the document in which an item stands. -/
def place : Entity → Nat
  | sheet => 0
  | wire _ => 1
  | flag _ => 2
  | symbol _ | symbolPin _ => 3
  | power _ | powerPin _ => 4

/-- Items of the next part of a document come up for the first time. -/
theorem nodup_append_of_place {xs ys : List Entity} {part : Nat}
    (hxs : xs.Nodup ∧ ∀ x ∈ xs, x.place < part) (hys : ys.Nodup)
    (hpart : ∀ y ∈ ys, y.place = part) :
    (xs ++ ys).Nodup ∧ ∀ z ∈ xs ++ ys, z.place < part + 1 := by
  refine ⟨List.nodup_append.2 ⟨hxs.1, hys, ?_⟩, fun z hz => ?_⟩
  · rintro x hx _ hy rfl
    exact absurd (hpart x hy) (Nat.ne_of_lt (hxs.2 x hx))
  · rcases List.mem_append.1 hz with hz | hz
    · exact Nat.lt_succ_of_lt (hxs.2 z hz)
    · exact Nat.lt_succ_of_le (Nat.le_of_eq (hpart z hz))

/-- A symbol and its pins. -/
def ofSymbol (reference : String) (pins : List String) : List Entity :=
  symbol reference :: pins.map fun number => symbolPin ⟨reference, number⟩

/-- A power symbol and its pin. -/
def ofPower (pin : PinRef) : List Entity := [power pin, powerPin pin]

theorem place_of_mem_ofSymbol {reference : String} {pins : List String} {x : Entity}
    (h : x ∈ ofSymbol reference pins) : x.place = 3 := by
  rcases List.mem_cons.1 h with rfl | h
  · rfl
  · obtain ⟨number, -, rfl⟩ := List.mem_map.1 h
    rfl

theorem place_of_mem_ofPower {pin : PinRef} {x : Entity} (h : x ∈ ofPower pin) : x.place = 4 := by
  simp only [ofPower, List.mem_cons, List.not_mem_nil, or_false] at h
  rcases h with rfl | rfl <;> rfl

theorem eq_of_mem_ofSymbol {reference reference' : String} {pins pins' : List String} {x : Entity}
    (h : x ∈ ofSymbol reference pins) (h' : x ∈ ofSymbol reference' pins') :
    reference = reference' := by
  have hpin : ∀ {r : String} {ns : List String}, x ∈ ofSymbol r ns →
      x = symbol r ∨ ∃ number, x = symbolPin ⟨r, number⟩ := by
    intro r ns hx
    refine (List.mem_cons.1 hx).imp_right fun hx => ?_
    obtain ⟨number, -, rfl⟩ := List.mem_map.1 hx
    exact ⟨number, rfl⟩
  rcases hpin h with rfl | ⟨number, rfl⟩ <;> rcases hpin h' with heq | ⟨other, heq⟩ <;> cases heq
  · rfl
  · rfl

/-- The symbols of components with different designators, and their pins, are all different if no
symbol has two pins of one number. -/
theorem nodup_flatMap_ofSymbol {β : Type} {xs : List β} {reference : β → String}
    {pins : β → List String} (hreferences : (xs.map reference).Nodup)
    (hpins : ∀ x ∈ xs, (pins x).Nodup) :
    (xs.flatMap fun x => ofSymbol (reference x) (pins x)).Nodup := by
  refine List.nodup_flatMap.2 ⟨fun x hx => ?_, ?_⟩
  · refine List.nodup_cons.2 ⟨by simp, (hpins x hx).map fun a b heq => ?_⟩
    exact (PinRef.mk.inj (symbolPin.inj heq)).2
  · exact (List.pairwise_map.1 hreferences).imp fun hne y hy hy' =>
      hne (eq_of_mem_ofSymbol hy hy')

/-- So are power symbols at different pins, and their pins. -/
theorem nodup_flatMap_ofPower {pins : List PinRef} (h : pins.Nodup) :
    (pins.flatMap ofPower).Nodup := by
  refine List.nodup_flatMap.2 ⟨fun pin _ => by simp [ofPower], h.imp fun hne x hx hx' => hne ?_⟩
  simp only [ofPower, List.mem_cons, List.not_mem_nil, or_false] at hx hx'
  rcases hx with rfl | rfl <;> rcases hx' with heq | heq <;> cases heq <;> rfl

end Entity

/-! ### Identifiers of different keys -/

namespace IdMap

/-- The identifiers of a map are distinct, and those that are made for new keys are distinct and
differ from them. -/
structure Fresh (ids : IdMap) (mint : String → String) (keys : List String) : Prop where
  /-- No identifier is stored twice. -/
  stored : (ids.entries.map Prod.snd).Nodup
  /-- A new one is not stored. -/
  unused : ∀ key ∈ keys, ids.find? key = none → mint key ∉ ids.entries.map Prod.snd
  /-- New ones are distinct. -/
  distinct : ∀ key ∈ keys, ∀ other ∈ keys, ids.find? key = none → ids.find? other = none →
    mint key = mint other → key = other

/-- Where nothing is stored, identifiers that are made from keys in an injective way are fresh. -/
theorem fresh_empty {mint : String → String} (h : Function.Injective mint) (keys : List String) :
    (∅ : IdMap).Fresh mint keys where
  stored := List.nodup_nil
  unused _ _ _ := List.not_mem_nil
  distinct _ _ _ _ _ _ heq := h heq

/-- Then different keys have different identifiers. -/
theorem Fresh.idFor_injOn {ids : IdMap} {mint : String → String} {keys : List String}
    (h : ids.Fresh mint keys) : Set.InjOn (ids.idFor mint) {key | key ∈ keys} := by
  have hvalue : ∀ {key id}, ids.find? key = some id → id ∈ ids.entries.map Prod.snd :=
    fun hfind => List.mem_map_of_mem (Table.mem_of_find?_eq_some hfind)
  intro key hkey other hother heq
  rw [idFor, idFor] at heq
  cases hfind : ids.find? key with
  | some id =>
    rw [hfind, Option.getD_some] at heq
    cases hfind' : ids.find? other with
    | some id' =>
      rw [hfind', Option.getD_some] at heq
      have hentry := List.inj_on_of_nodup_map h.stored (Table.mem_of_find?_eq_some hfind)
        (Table.mem_of_find?_eq_some hfind') heq
      exact congrArg Prod.fst hentry
    | none =>
      rw [hfind', Option.getD_none] at heq
      exact absurd (heq ▸ hvalue hfind) (h.unused other hother hfind')
  | none =>
    rw [hfind, Option.getD_none] at heq
    cases hfind' : ids.find? other with
    | some id' =>
      rw [hfind', Option.getD_some] at heq
      exact absurd (heq ▸ hvalue hfind') (h.unused key hkey hfind)
    | none =>
      rw [hfind', Option.getD_none] at heq
      exact h.distinct key hkey other hother hfind hfind' heq

end IdMap

end Schematic
