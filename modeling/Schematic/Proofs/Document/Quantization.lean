import Mathlib.Data.List.DropRight
import Mathlib.Data.Sym.Sym2
import Schematic.Proofs.Drawing.Entities
import Schematic.Proofs.Routing.Taken
import Schematic.Proofs.SExpr.NumberText

/-!
# One quantization

The ends of a wire are rounded three times: to whole ten-thousandths for its key, to the
text with four decimals under which its identifier is kept, and to the numbers that are
printed in a document, which have no trailing zeros.  With exact coordinates that 64 bits of
ten-thousandths are enough for, all three start from the same whole numbers, and each of
them tells these numbers again.  So it does not matter by which of the three two wires
are compared, and a sheet, on which no two wires have one key, is printed without two
wires that look the same.

A printed number is the text with four decimals without its trailing zeros, also if it
is zero; since the digits after the point are always four, it tells what was dropped.

## Main definitions

* `Point.Fits` — the coordinates of a point have 64 bits of ten-thousandths.
* `units`, `Point.units` — coordinates in whole ten-thousandths.
* `printedEnd` — an end of a wire as it is printed.
* `SExpr.printedEnds` — the ends that can be read from the record of a wire.
* `QuantizedAlike` — two segments are compared alike by keys, identifiers and prints.
* `Sheet.WiresApart` — no two wire records are printed or identified alike.

## Main statements

* `tenThousandths_eq_units` — no coordinate of a point that fits is cut off.
* `numberText_eq` — a printed number is the text with four decimals, trimmed.
* `trimmedText_injective` — trimming loses nothing.
* `WireKey.ofRounded_eq_iff` — a key is an unordered pair of ends.
* `quantizedAlike_and_wiresApart` — keys, identifiers and prints of wires agree.
-/

namespace Schematic

open Scalar ExactScalar

variable {α : Type} [Scalar α]

/-! ### Whole ten-thousandths -/

section Units

variable [ExactScalar α]

/-- A coordinate in whole ten-thousandths, a tie going away from zero. -/
noncomputable def units (v : α) : ℤ := roundAway (value v * (10000 : ℤ))

/-- The coordinates of a point in whole ten-thousandths. -/
noncomputable def Point.units (p : Point α) : ℤ × ℤ := (Schematic.units p.x, Schematic.units p.y)

/-- The coordinates of a point are so small that their ten-thousandths have 64 bits. -/
structure Point.Fits (p : Point α) : Prop where
  /-- The first one is. -/
  x : |value p.x| * 10 ^ 4 < 2 ^ 63 - 1
  /-- The second one is. -/
  y : |value p.y| * 10 ^ 4 < 2 ^ 63 - 1

theorem value_scaled (v : α) : value (v * 10000) = value v * (10000 : ℤ) := by
  rw [value_mul, value_literal]
  norm_num

theorem isInt64_roundAway {r : ℝ} (h : |r| < 2 ^ 63 - 1) : IsInt64 (roundAway r) := by
  obtain ⟨hlow, hhigh⟩ := abs_lt.1 h
  unfold roundAway IsInt64
  split
  · constructor
    · apply Int.le_floor.2
      push_cast
      linarith
    · apply Int.lt_add_one_iff.1
      apply Int.floor_lt.2
      push_cast
      linarith
  · constructor
    · apply Int.sub_one_lt_iff.1
      apply Int.lt_ceil.2
      push_cast
      linarith
    · apply Int.ceil_le.2
      push_cast
      linarith

/-- The number of ten-thousandths of a small coordinate is not cut off. -/
theorem tenThousandths_eq_units {v : α} (h : |value v| * 10 ^ 4 < 2 ^ 63 - 1) :
    tenThousandths v = units v := by
  have hrange : IsInt64 (units v) := by
    apply isInt64_roundAway
    rw [abs_mul]
    norm_num at h ⊢
    exact h
  unfold tenThousandths toIndex
  rw [truncate_eq, value_round, value_scaled, wholePart_intCast]
  exact clampInt64_of_isInt64 hrange

theorem Point.Fits.roundedEnd_eq {p : Point α} (h : p.Fits) : roundedEnd p = p.units :=
  Prod.ext (tenThousandths_eq_units h.x) (tenThousandths_eq_units h.y)

end Units

/-! ### Printed numbers -/

/-- The text with four decimals without its trailing zeros. -/
def trimmedText (n : ℤ) : String := trimFraction (tenThousandthsText n)

/-- A whole number of ten-thousandths is written without rounding. -/
theorem fixedText_units (n : ℤ) :
    fixedText 4 (decide (n < 0)) n.natAbs 10000 = tenThousandthsText n := by
  have hround : roundDiv (n.natAbs * tenPow 4) 10000 = n.natAbs := by
    show roundDiv (n.natAbs * 10000) 10000 = n.natAbs
    unfold roundDiv
    simp only [Nat.mul_div_cancel _ (by omega : 0 < 10000), Nat.mul_mod_left]
    rfl
  unfold fixedText tenThousandthsText
  simp only [hround, decide_eq_true_eq]
  rfl

/-- A printed number is the text with four decimals of its ten-thousandths, trimmed. -/
theorem numberText_eq [ExactScalar α] (v : α) : numberText v = trimmedText (units v) := by
  have hvalue : value (roundToTenThousandths v) = units v / 10000 := by
    unfold roundToTenThousandths
    rw [value_div _ _ (by rw [value_literal]; norm_num), value_round, value_scaled, value_literal]
    rfl
  have hzero : (roundToTenThousandths v == 0) = true ↔ units v = 0 := by
    rw [beq_iff, ← value_injective.eq_iff, hvalue, value_literal, Nat.cast_zero,
      div_eq_zero_iff, Int.cast_eq_zero]
    exact or_iff_left (by norm_num)
  have hfixed : Scalar.fixed 4 (roundToTenThousandths v) = tenThousandthsText (units v) := by
    rw [fixed_eq 4 _ (units v).natAbs 10000 (by omega), ← fixedText_units]
    · congr 1
      rw [decide_eq_decide, hvalue, div_neg_iff]
      norm_num
    · rw [hvalue, abs_div, Nat.cast_natAbs, Int.cast_abs]
      norm_num
  unfold numberText
  rw [if_pos (isFinite_eq v)]
  show (if (roundToTenThousandths v == 0) = true then "0" else _) = _
  split
  · next h =>
    rw [hzero.1 h]
    decide
  · rw [hfixed, trimmedText]

/-- What trimming leaves of a text with a point: the part before the point, and the part after it
without its trailing zeros if it is not all zeros. -/
theorem toList_trimFraction {s : String} {whole fraction : List Char}
    (hs : s.toList = whole ++ '.' :: fraction) (hwhole : '.' ∉ whole) (hfraction : '.' ∉ fraction) :
    (trimFraction s).toList = whole ++
      if fraction.rdropWhile (· = '0') = [] then [] else '.' :: fraction.rdropWhile (· = '0') := by
  have hnone : ∀ cs : List Char, '.' ∉ cs → cs.dropWhile (· = '.') = cs := by
    intro cs hcs
    cases cs with
    | nil => rfl
    | cons c cs =>
      apply List.dropWhile_cons_of_neg
      intro hc
      exact hcs (of_decide_eq_true hc ▸ List.mem_cons_self)
  have hreverse : s.toList.reverse = fraction.reverse ++ '.' :: whole.reverse := by
    rw [hs, List.reverse_append, List.reverse_cons, List.append_assoc, List.singleton_append]
  unfold trimFraction List.rdropWhile
  simp only [hreverse, String.toList_ofList, List.dropWhile_append, List.isEmpty_iff,
    List.reverse_eq_nil_iff]
  split
  · -- all digits after the point go, and so does the point
    rw [List.dropWhile_cons_of_neg (by decide), List.dropWhile_cons_of_pos (by decide),
      hnone _ (by rwa [List.mem_reverse]), List.reverse_reverse, List.append_nil]
  · next hne =>
    -- the last digit that stays is no point
    obtain ⟨c, cs, hcs⟩ := List.exists_cons_of_ne_nil hne
    have hc : c ≠ '.' := by
      rintro rfl
      apply hfraction
      rw [← List.mem_reverse]
      exact (List.dropWhile_suffix _).subset (hcs ▸ List.mem_cons_self)
    rw [hcs, List.cons_append, List.dropWhile_cons_of_neg (by simpa using hc)]
    simp only [List.reverse_cons, List.reverse_append, List.reverse_reverse, List.append_assoc,
      List.cons_append, List.nil_append]

/-- Texts of one length are the same if they are so without their trailing zeros. -/
theorem eq_of_rdropWhile_eq {cs ds : List Char} (hlength : cs.length = ds.length)
    (h : cs.rdropWhile (· = '0') = ds.rdropWhile (· = '0')) : cs = ds := by
  have hsplit : ∀ es : List Char, es = es.rdropWhile (· = '0') ++
      List.replicate (es.length - (es.rdropWhile (· = '0')).length) '0' := by
    intro es
    have hzeros : es.rtakeWhile (· = '0') =
        List.replicate (es.rtakeWhile (· = '0')).length '0' := by
      apply List.eq_replicate_of_mem
      intro c hc
      have hzero := List.mem_rtakeWhile_imp hc
      exact of_decide_eq_true hzero
    have hall := List.rdropWhile_append_rtakeWhile (p := (· = '0')) (l := es)
    have hcount := congrArg List.length hall
    rw [List.length_append] at hcount
    rw [hzeros] at hall
    have hrest : es.length - (es.rdropWhile (· = '0')).length =
        (es.rtakeWhile (· = '0')).length := by omega
    rw [hrest, hall]
  rw [hsplit cs, hsplit ds, h, hlength]

theorem length_paddedDigits_four {n : ℕ} (h : n < 10000) : (paddedDigits 4 n).length = 4 := by
  have hdigits : (Nat.toDigits 10 n).length ≤ 4 := Nat.toDigits_length 10 n 4 (by omega) h
  unfold paddedDigits
  simp only [List.length_append, List.length_replicate]
  omega

/-- A trimmed text tells the number of ten-thousandths. -/
theorem trimmedText_injective : Function.Injective trimmedText := by
  intro m n h
  apply tenThousandthsText_injective
  have hsplit : ∀ k : ℤ, ∃ whole fraction : List Char,
      (tenThousandthsText k).toList = whole ++ '.' :: fraction ∧ '.' ∉ whole ∧ '.' ∉ fraction ∧
        fraction.length = 4 := by
    intro k
    have hpoint : ∀ {c : Char}, c.isDigit = true → c ≠ '.' := by
      rintro _ hc rfl
      exact absurd hc (by decide)
    refine ⟨_, _, (toList_tenThousandthsText k).trans (List.append_assoc ..).symm, ?_, ?_,
      length_paddedDigits_four (Nat.mod_lt _ (by omega))⟩
    · rw [List.mem_append]
      rintro (hsign | hdigit)
      · split at hsign
        · exact absurd (List.mem_singleton.1 hsign) (by decide)
        · cases hsign
      · exact hpoint (Nat.isDigit_of_mem_toDigits (by omega) (by omega) hdigit) rfl
    · intro hdigit
      exact hpoint (isDigit_of_mem_paddedDigits hdigit) rfl
  obtain ⟨whole, fraction, hm, hwhole, hfraction, hlength⟩ := hsplit m
  obtain ⟨whole', fraction', hn, hwhole', hfraction', hlength'⟩ := hsplit n
  have hlist := congrArg String.toList h
  unfold trimmedText at hlist
  rw [toList_trimFraction hm hwhole hfraction, toList_trimFraction hn hwhole' hfraction'] at hlist
  -- the first point, if there is one, tells the two parts
  have hparts : whole = whole' ∧
      fraction.rdropWhile (· = '0') = fraction'.rdropWhile (· = '0') := by
    split at hlist <;> split at hlist
    · next hnil hnil' =>
      rw [List.append_nil, List.append_nil] at hlist
      exact ⟨hlist, hnil.trans hnil'.symm⟩
    · rw [List.append_nil] at hlist
      exact absurd (hlist ▸ List.mem_append_right _ List.mem_cons_self) hwhole
    · rw [List.append_nil] at hlist
      exact absurd (hlist.symm ▸ List.mem_append_right _ List.mem_cons_self) hwhole'
    · exact eq_of_append_cons hwhole hwhole' hlist
  apply String.ext
  rw [hm, hn, hparts.1, eq_of_rdropWhile_eq (hlength.trans hlength'.symm) hparts.2]

theorem isNumeral_trimmedText (n : ℤ) : SExpr.IsNumeral (trimmedText n) := by
  unfold trimmedText
  rw [← fixedText_units]
  exact SExpr.isNumeral_fixedText 4 (by omega) _ _ _

/-! ### Printed ends -/

/-- An end of a wire as it is printed. -/
def printedEnd (p : Point α) : String := (numbers "xy" [p.x, p.y]).inlineText

theorem toList_printedEnd (p : Point α) : (printedEnd p).toList =
    "(xy ".toList ++ ((numberText p.x).toList ++ ' ' :: ((numberText p.y).toList ++ [')'])) := by
  show (String.ofList (SExpr.inlineChars
    (.list [.symbol "xy", .number p.x, .number p.y]))).toList = _
  simp only [String.toList_ofList, SExpr.inlineChars, SExpr.inlineItems]
  show '(' :: 'x' :: 'y' :: ' ' :: _ = '(' :: 'x' :: 'y' :: ' ' :: _
  congr 4
  exact List.append_assoc _ _ _

/-- A printed end tells the ten-thousandths of its point. -/
theorem printedEnd_eq_iff [ExactScalar α] {p q : Point α} :
    printedEnd p = printedEnd q ↔ p.units = q.units := by
  have htext : ∀ r : Point α, (printedEnd r).toList = "(xy ".toList ++
      ((trimmedText (units r.x)).toList ++ ' ' :: ((trimmedText (units r.y)).toList ++ [')'])) := by
    intro r
    rw [toList_printedEnd, numberText_eq, numberText_eq]
  constructor
  · intro h
    have hblank : ∀ n, ' ' ∉ (trimmedText n).toList := by
      intro n hmem
      exact absurd ((isNumeral_trimmedText n).2 _ hmem) (by decide)
    have hlist := congrArg String.toList h
    rw [htext, htext] at hlist
    obtain ⟨hx, hy⟩ := eq_of_append_cons (hblank _) (hblank _) (List.append_cancel_left hlist)
    apply Prod.ext
    · exact trimmedText_injective (String.ext hx)
    · exact trimmedText_injective (String.ext (List.append_cancel_right hy))
  · intro h
    obtain ⟨hx, hy⟩ := Prod.mk.inj h
    apply String.ext
    rw [htext, htext, hx, hy]

/-! ### Keys -/

/-- A key is an unordered pair of ends. -/
theorem WireKey.ofRounded_eq_iff {p q r t : ℤ × ℤ} :
    ofRounded p q = ofRounded r t ↔ s(p, q) = s(r, t) := by
  have hends : ∀ a b : ℤ × ℤ, s((ofRounded a b).low, (ofRounded a b).high) = s(a, b) := by
    intro a b
    unfold ofRounded
    split
    · rfl
    · exact Sym2.eq_swap
  constructor
  · intro h
    rw [← hends p q, h, hends]
  · intro h
    rcases Sym2.eq_iff.1 h with ⟨rfl, rfl⟩ | ⟨rfl, rfl⟩
    · rfl
    · exact ofRounded_comm p q

section Alike

variable [ExactScalar α]

/-- Whether two segments are the same is seen alike from their keys, from the texts of these and
from their printed ends, in whatever order the ends are. -/
structure QuantizedAlike (a b c d : Point α) : Prop where
  /-- A key holds the whole ten-thousandths of both ends, the lower end first. -/
  key_eq : WireKey.ofEnds a b = .ofRounded a.units b.units
  /-- Segments with one text have one key. -/
  text_iff : (WireKey.ofEnds a b).text = (WireKey.ofEnds c d).text ↔
    WireKey.ofEnds a b = WireKey.ofEnds c d
  /-- Segments with the same printed ends have one key. -/
  printed_iff : s(printedEnd a, printedEnd b) = s(printedEnd c, printedEnd d) ↔
    WireKey.ofEnds a b = WireKey.ofEnds c d
  /-- The text of a key tells its four numbers. -/
  determined : ∀ k : WireKey, k.text = (WireKey.ofEnds a b).text →
    k = .ofRounded a.units b.units

/-- Printed ends without their order tell the ten-thousandths without their order. -/
theorem printedEnds_eq_iff {a b c d : Point α} :
    s(printedEnd a, printedEnd b) = s(printedEnd c, printedEnd d) ↔
      s(a.units, b.units) = s(c.units, d.units) := by
  simp only [Sym2.eq_iff, printedEnd_eq_iff]

theorem quantizedAlike {a b c d : Point α} (ha : a.Fits) (hb : b.Fits) (hc : c.Fits)
    (hd : d.Fits) : QuantizedAlike a b c d := by
  have hkey : ∀ {p q : Point α}, p.Fits → q.Fits →
      WireKey.ofEnds p q = .ofRounded p.units q.units := by
    intro p q hp hq
    rw [WireKey.ofEnds, hp.roundedEnd_eq, hq.roundedEnd_eq]
  exact {
    key_eq := hkey ha hb
    text_iff := ⟨WireKey.text_injective, congrArg WireKey.text⟩
    printed_iff := by rw [hkey ha hb, hkey hc hd, WireKey.ofRounded_eq_iff, printedEnds_eq_iff]
    determined := fun k hk => (WireKey.text_injective hk).trans (hkey ha hb) }

end Alike

/-! ### The wires of a document -/

namespace SExpr

/-- The two printed ends in the record of a wire, in no order. -/
def printedEnds (wire : SExpr α) : Option (Sym2 String) :=
  match (wire.child? "pts").map (children "xy") with
  | some [p, q] => some s(p.inlineText, q.inlineText)
  | _ => none

end SExpr

namespace Sheet

/-- The wire records of a document are those of the wires of the sheet. -/
theorem children_wire_document (s : Sheet α) (symbols : SymbolSource α)
    (idOf : String → String) :
    (s.document symbols idOf).children "wire" = s.wires.map (wireRecord idOf) := by
  rw [children_document]
  simp [parts]

/-- No two wires of a document are the same to the eye or by name. -/
structure WiresApart (s : Sheet α) (symbols : SymbolSource α) : Prop where
  /-- No two records have the same printed ends, in whatever order. -/
  printed : ∀ idOf : String → String,
    (((s.document symbols idOf).children "wire").map SExpr.printedEnds).Nodup
  /-- Every record has two printed ends and an identifier. -/
  readable : ∀ idOf : String → String, ∀ e ∈ (s.document symbols idOf).children "wire",
    e.printedEnds ≠ none ∧ e.entry? "uuid" ≠ none
  /-- No two wires have one text that their identifiers are kept under. -/
  texts : (s.wires.map fun w => w.key.text).Nodup
  /-- No two records have one identifier, if new identifiers are fresh. -/
  identified : ∀ (ids : IdMap) (mint : String → String), ids.Fresh mint s.keys →
    (((s.document symbols (ids.idFor mint)).children "wire").map fun e => e.entry? "uuid").Nodup

theorem wiresApart_of_nodup_keys [ExactScalar α] {s : Sheet α}
    (hkeys : (s.wires.map (·.key)).Nodup) (hfits : ∀ w ∈ s.wires, w.a.Fits ∧ w.b.Fits)
    (symbols : SymbolSource α) : s.WiresApart symbols := by
  have htexts : (s.wires.map fun w => w.key.text).Nodup := by
    apply nodup_map_of_finer hkeys
    exact fun _ _ _ _ h => WireKey.text_injective h
  exact {
    printed := by
      intro idOf
      rw [children_wire_document, List.map_map]
      -- ends that are printed alike have one key
      apply nodup_map_of_finer hkeys
      intro v hv w hw h
      obtain ⟨hva, hvb⟩ := hfits v hv
      obtain ⟨hwa, hwb⟩ := hfits w hw
      exact (quantizedAlike hva hvb hwa hwb).printed_iff.1 (Option.some.inj h)
    readable := by
      intro idOf e he
      rw [children_wire_document] at he
      obtain ⟨w, -, rfl⟩ := List.mem_map.1 he
      exact ⟨Option.some_ne_none _, Option.some_ne_none _⟩
    texts := htexts
    identified := by
      intro ids mint hfresh
      have hmem : ∀ w ∈ s.wires, w.key.text ∈ s.keys := by
        intro w hw
        simp only [keys, List.cons_append, List.append_assoc, List.mem_cons, List.mem_append]
        exact .inr (.inl (List.mem_map_of_mem hw))
      rw [children_wire_document, List.map_map]
      apply nodup_map_of_finer htexts
      intro v hv w hw h
      exact hfresh.idFor_injOn (hmem v hv) (hmem w hw) (Option.some.inj h) }

end Sheet

/-- Keys, the texts that identifiers are kept under, and printed ends compare segments alike, and
on no sheet there are two wires that are printed or identified alike. -/
theorem quantizedAlike_and_wiresApart [ExactScalar α] :
    (∀ a b c d : Point α, a.Fits → b.Fits → c.Fits → d.Fits → QuantizedAlike a b c d) ∧
      ∀ (n : Netlist α) (symbols : SymbolSource α) (config : Config α),
        (∀ w ∈ (n.generate symbols config).sheet.wires, w.a.Fits ∧ w.b.Fits) →
          (n.generate symbols config).sheet.WiresApart symbols := by
  constructor
  · intro a b c d ha hb hc hd
    exact quantizedAlike ha hb hc hd
  · intro n symbols config hfits
    apply Sheet.wiresApart_of_nodup_keys _ hfits
    exact DrawingContext.nodup_keys_wires (n.drawingContext symbols config)

theorem Point.fits_rat_iff {p : Point ℚ} :
    p.Fits ↔ |p.x| * 10 ^ 4 < 2 ^ 63 - 1 ∧ |p.y| * 10 ^ 4 < 2 ^ 63 - 1 := by
  have hcast : ∀ q : ℚ, |value q| * 10 ^ 4 < 2 ^ 63 - 1 ↔ |q| * 10 ^ 4 < 2 ^ 63 - 1 := by
    intro q
    show |(q : ℝ)| * 10 ^ 4 < 2 ^ 63 - 1 ↔ _
    exact_mod_cast Iff.rfl
  rw [← hcast, ← hcast]
  exact ⟨fun h => ⟨h.x, h.y⟩, fun h => ⟨h.1, h.2⟩⟩

/-- A lamp of which only the ground is connected. -/
def CircuitDef.groundedLamp : CircuitDef ℚ :=
  { lamp with nets := [{ name := some "GND", pins := ["R1.2", "J1.2"] }] }

/-- Two segments with one key, the ends of which are halves of a ten-thousandth, negative numbers
and numbers that are printed as zero, in different orders; and the wires of a lamp. -/
theorem quantizedAlike_halves_and_wiresApart_groundedLamp :
    let a : Point ℚ := ⟨-1 / 2, 1 / 20000⟩
    let b : Point ℚ := ⟨-1 / 30000, -3⟩
    let c : Point ℚ := ⟨1 / 40000, -3⟩
    let d : Point ℚ := ⟨-9999 / 20000, 1 / 10000⟩
    (QuantizedAlike a b c d ∧ WireKey.ofEnds a b = ⟨(-5000, 1), (0, -30000)⟩ ∧
      WireKey.ofEnds c d = ⟨(-5000, 1), (0, -30000)⟩ ∧ printedEnd a = "(xy -0.5 0.0001)" ∧
      printedEnd b = "(xy 0 -3)") ∧
      ∃ n, CircuitDef.groundedLamp.toNetlist CircuitDef.literalPins = .ok n ∧
        let sheet := (n.generate SymbolLibrary.builtin.source default).sheet
        sheet.wires.length = 2 ∧ sheet.WiresApart SymbolLibrary.builtin.source := by
  have hdrawn : (match CircuitDef.groundedLamp.toNetlist CircuitDef.literalPins with
      | .ok n =>
          let wires := (n.generate SymbolLibrary.builtin.source default).sheet.wires
          decide (wires.length = 2) && wires.all fun w => decide
            ((|w.a.x| * 10 ^ 4 < 2 ^ 63 - 1 ∧ |w.a.y| * 10 ^ 4 < 2 ^ 63 - 1) ∧
              |w.b.x| * 10 ^ 4 < 2 ^ 63 - 1 ∧ |w.b.y| * 10 ^ 4 < 2 ^ 63 - 1)
      | .error _ => false) = true := by decide +kernel
  intro a b c d
  constructor
  · refine ⟨quantizedAlike_and_wiresApart.1 a b c d ?_ ?_ ?_ ?_, by decide +kernel⟩
    all_goals exact Point.fits_rat_iff.2 (by decide +kernel)
  · split at hdrawn
    · next n ok =>
      obtain ⟨hcount, hall⟩ := Bool.and_eq_true_iff.1 hdrawn
      refine ⟨n, ok, of_decide_eq_true hcount, quantizedAlike_and_wiresApart.2 n _ _ ?_⟩
      intro w hw
      obtain ⟨ha, hb⟩ := of_decide_eq_true (List.all_eq_true.1 hall w hw)
      exact ⟨Point.fits_rat_iff.2 ha, Point.fits_rat_iff.2 hb⟩
    · cases hdrawn

end Schematic
