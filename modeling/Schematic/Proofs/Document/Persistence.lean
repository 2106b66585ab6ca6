import Schematic.Drawing.Generation
import Schematic.Proofs.Document.Identifiers

/-!
# Identifiers last

A map of identifiers only grows: a key that has an identifier is passed over, and
a key without one gets it at the end.  After a document has been written each of
its keys has an identifier, so that writing it once more asks for no new one.
Whatever is written in between adds keys and changes none, and so the text comes
out the same again.

New identifiers are told by a function of the key.  It may stand for a supply
from which they are taken one after the other, as keys come up, since each key
takes at most one.

## Main definitions

* `IdMap.Extends` — a map that has kept all that another one has.
* `IdMap.ask` — an identifier that is asked for, and may come from a supply.
* `Writing`, `IdMap.after` — sheets that are written one after the other.
* `IdMap.Lasting` — what stays when sheets are written.

## Main statements

* `IdMap.exists_mint` — a supply acts like a function of the key.
* `Writing.text_of_extends`, `Writing.left_of_extends` — writing a sheet again.
* `IdMap.lasting` — identifiers last, and so do the documents with them.
-/

namespace Schematic

namespace IdMap

variable {ids more most : IdMap} {mint mint' : String → String} {keys : List String}

/-! ### Maps that grow -/

/-- A map has kept all the identifiers of another one. -/
def Extends (ids more : IdMap) : Prop :=
  ∀ key id, ids.find? key = some id → more.find? key = some id

theorem Extends.refl (ids : IdMap) : ids.Extends ids := fun _ _ h => h

theorem Extends.trans (h : ids.Extends more) (h' : more.Extends most) : ids.Extends most :=
  fun key id hid => h' key id (h key id hid)

theorem idFor_of_find? {key id : String} (h : ids.find? key = some id) :
    ids.idFor mint key = id := by
  rw [idFor, h, Option.getD_some]

/-- Covering keys keeps what is there. -/
theorem extends_cover (mint : String → String) (ids : IdMap) (keys : List String) :
    ids.Extends (ids.cover mint keys) := by
  intro key id h
  rw [find?_cover, idFor_of_find? h]
  split
  · rfl
  · exact h

/-- A covered key has the identifier that was told for it. -/
theorem find?_cover_of_mem {key : String} (h : key ∈ keys) :
    (ids.cover mint keys).find? key = some (ids.idFor mint key) := by
  rw [find?_cover, if_pos h]

/-- Keys that have identifiers are passed over. -/
theorem cover_of_covered (h : ∀ key ∈ keys, (ids.find? key).isSome = true) :
    ids.cover mint keys = ids := by
  rw [cover]
  induction keys with
  | nil => rfl
  | cons key keys ih =>
    obtain ⟨hkey, hkeys⟩ := List.forall_mem_cons.1 h
    rw [List.foldl_cons, coverKey, if_pos hkey]
    exact ih hkeys

/-! ### Identifiers from a supply -/

/-- Covering a key leaves what is told for the others, and for itself. -/
theorem idFor_coverKey (mint mint' : String → String) (ids : IdMap) (key other : String)
    (h : ids.idFor mint other = ids.idFor mint' other) :
    (ids.coverKey mint key).idFor mint' other = ids.idFor mint' other := by
  rw [idFor, find?_coverKey]
  by_cases hkey : key = other
  · rw [if_pos hkey, hkey, Option.getD_some, h]
  · rw [if_neg hkey, idFor]

/-- How keys are covered depends on what is told for them. -/
theorem cover_congr (h : ∀ key ∈ keys, ids.idFor mint key = ids.idFor mint' key) :
    ids.cover mint keys = ids.cover mint' keys := by
  rw [cover, cover]
  induction keys generalizing ids with
  | nil => rfl
  | cons key keys ih =>
    obtain ⟨hkey, hkeys⟩ := List.forall_mem_cons.1 h
    have hstep : ids.coverKey mint key = ids.coverKey mint' key := by
      rw [coverKey, coverKey]
      cases hfind : ids.find? key with
      | some id => rfl
      | none =>
        rw [idFor, idFor, hfind] at hkey
        rw [show mint key = mint' key from hkey]
    rw [List.foldl_cons, List.foldl_cons, ← hstep]
    refine ih fun other hother => ?_
    rw [idFor_coverKey mint mint' ids key other (hkeys other hother), ← hkeys other hother,
      idFor_coverKey mint mint ids key other rfl]

/-- Ask for the identifier of a key: the one that is kept, else the next one of a supply, so many
of which have been used. -/
def ask (supply : Nat → String) (key : String) : StateM (IdMap × Nat) String := fun state =>
  match state.1.find? key with
  | some id => (id, state)
  | none => (supply state.2, state.1.insert key (supply state.2), state.2 + 1)

theorem mapM_ask_cons (supply : Nat → String) (key : String) (keys : List String)
    (state : IdMap × Nat) :
    ((key :: keys).mapM (ask supply)).run state =
      (((ask supply key).run state).1 ::
          ((keys.mapM (ask supply)).run ((ask supply key).run state).2).1,
        ((keys.mapM (ask supply)).run ((ask supply key).run state).2).2) := by
  rw [List.mapM_cons]
  rfl

/-- When keys are asked for one after the other, the answers are those that some function tells,
and the keys are covered with it. -/
theorem exists_mint (supply : Nat → String) (keys : List String) (state : IdMap × Nat) :
    ∃ mint, ((keys.mapM (ask supply)).run state).1 = keys.map (state.1.idFor mint) ∧
      ((keys.mapM (ask supply)).run state).2.1 = state.1.cover mint keys := by
  induction keys generalizing state with
  | nil => exact ⟨fun _ => supply 0, rfl, rfl⟩
  | cons key keys ih =>
    rw [mapM_ask_cons]
    cases hfind : state.1.find? key with
    | some id =>
      have hask : (ask supply key).run state = (id, state) := by
        change ask supply key state = _
        rw [ask, hfind]
      obtain ⟨mint, hanswers, hmap⟩ := ih state
      rw [hask]
      refine ⟨mint, ?_, ?_⟩
      · rw [hanswers, List.map_cons, idFor_of_find? hfind]
      · rw [hmap, cover, cover, List.foldl_cons, coverKey, hfind, if_pos (by rfl)]
    | none =>
      let next : IdMap := state.1.insert key (supply state.2)
      have hask : (ask supply key).run state = (supply state.2, next, state.2 + 1) := by
        change ask supply key state = _
        rw [ask, hfind]
      obtain ⟨told, hanswers, hmap⟩ := ih (next, state.2 + 1)
      -- the key has its identifier from now on, so that it may be told to have had it before
      let mint : String → String := fun k => if k = key then supply state.2 else told k
      have hkey : state.1.idFor mint key = supply state.2 := by
        rw [idFor, hfind, Option.getD_none]
        exact if_pos rfl
      have hnext : state.1.coverKey mint key = next := by
        rw [coverKey, hfind, if_neg (by decide)]
        exact congrArg _ (if_pos rfl)
      have htold : next.idFor told = state.1.idFor mint := by
        funext k
        rw [idFor, Table.find?_insert]
        by_cases h : key = k
        · rw [if_pos h, ← h, hkey, Option.getD_some]
        · rw [if_neg h, idFor]
          exact congrArg _ (if_neg (Ne.symm h)).symm
      have hmint : next.idFor mint = state.1.idFor mint := by
        funext k
        rw [← hnext, idFor_coverKey mint mint state.1 key k rfl]
      rw [hask]
      refine ⟨mint, ?_, ?_⟩
      · rw [hanswers, htold, List.map_cons, hkey]
      · have hcover : state.1.cover mint (key :: keys) = next.cover mint keys := by
          rw [cover, List.foldl_cons, hnext, cover]
        rw [hmap, hcover]
        exact cover_congr fun k _ => by rw [htold, hmint]

end IdMap

/-! ### Sheets that are written one after the other -/

/-- A sheet that is written with its symbols, and with new identifiers from some function. -/
structure Writing (α : Type) where
  /-- The sheet. -/
  sheet : Sheet α
  /-- The symbols that it uses. -/
  symbols : SymbolSource α
  /-- What tells new identifiers. -/
  mint : String → String

variable {α : Type} [Scalar α]

namespace Writing

/-- The text that is written when there are some identifiers. -/
def text (w : Writing α) (ids : IdMap) : String := (w.sheet.write w.symbols w.mint ids).1

/-- The identifiers that are left. -/
def left (w : Writing α) (ids : IdMap) : IdMap := (w.sheet.write w.symbols w.mint ids).2

/-- The writing of the sheet of a circuit. -/
def ofCircuit (n : Netlist α) (symbols : SymbolSource α) (config : Config α)
    (mint : String → String) : Writing α :=
  ⟨(n.generate symbols config).sheet, symbols, mint⟩

/-- The same sheet, with other new identifiers. -/
def withMint (w : Writing α) (mint : String → String) : Writing α := { w with mint }

variable (w : Writing α) {ids more : IdMap}

theorem extends_left (ids : IdMap) : ids.Extends (w.left ids) :=
  IdMap.extends_cover w.mint ids w.sheet.keys

/-- What is left has the identifier of each key. -/
theorem find?_left {key : String} (h : key ∈ w.sheet.keys) :
    (w.left ids).find? key = some (ids.idFor w.mint key) :=
  IdMap.find?_cover_of_mem h

/-- As long as its identifiers are kept a sheet is written as before. -/
theorem text_of_extends (h : (w.left ids).Extends more) (mint : String → String) :
    (w.withMint mint).text more = w.text ids := by
  have hkeys : ∀ key ∈ w.sheet.keys, more.idFor mint key = ids.idFor w.mint key :=
    fun key hkey => IdMap.idFor_of_find? (h key _ (w.find?_left hkey))
  exact congrArg SExpr.documentText (w.sheet.document_congr w.symbols hkeys)

/-- No identifier is added then. -/
theorem left_of_extends (h : (w.left ids).Extends more) (mint : String → String) :
    (w.withMint mint).left more = more :=
  IdMap.cover_of_covered fun key hkey => by rw [h key _ (w.find?_left hkey)]; rfl

end Writing

namespace IdMap

/-- The identifiers that are left after some writings. -/
def after (ids : IdMap) (ws : List (Writing α)) : IdMap := ws.foldl (fun ids w => w.left ids) ids

theorem extends_after (ids : IdMap) (ws : List (Writing α)) : ids.Extends (ids.after ws) := by
  induction ws generalizing ids with
  | nil => exact .refl ids
  | cons w ws ih => exact (w.extends_left ids).trans (ih (w.left ids))

/-- What stays, from some identifiers on, when sheets are written one after the other. -/
structure Lasting (α : Type) [Scalar α] (ids : IdMap) : Prop where
  /-- An identifier that is there at some time is there with the same key ever after. -/
  kept : ∀ earlier later : List (Writing α),
    (ids.after earlier).Extends ((ids.after earlier).after later)
  /-- The identifiers in a document are those that the map has for the keys of the sheet. -/
  written : ∀ (earlier : List (Writing α)) (w : Writing α), ∃ idOf : String → String,
    w.text (ids.after earlier) = (w.sheet.document w.symbols idOf).documentText ∧
      (w.sheet.document w.symbols idOf).uuids = w.sheet.keys.map idOf ∧
      ∀ key ∈ w.sheet.keys, (w.left (ids.after earlier)).find? key = some (idOf key)
  /-- New identifiers may come from a supply, as keys that have none come up: then some function
  tells those that are in the document, and the map that is left is the one with them. -/
  supplied : ∀ (earlier : List (Writing α)) (w : Writing α) (supply : Nat → String) (used : Nat),
    ∃ mint, ((w.sheet.keys.mapM (ask supply)).run (ids.after earlier, used)).1 =
        (w.sheet.document w.symbols ((ids.after earlier).idFor mint)).uuids ∧
      ((w.sheet.keys.mapM (ask supply)).run (ids.after earlier, used)).2.1 =
        (w.withMint mint).left (ids.after earlier)
  /-- A sheet that is written again, at once or later on, is written as the first time, and adds
  nothing to the map. -/
  again : ∀ (earlier : List (Writing α)) (w : Writing α) (later : List (Writing α))
    (mint : String → String),
    (w.withMint mint).text ((w.left (ids.after earlier)).after later) =
        w.text (ids.after earlier) ∧
      (w.withMint mint).left ((w.left (ids.after earlier)).after later) =
        (w.left (ids.after earlier)).after later
  /-- A circuit that is drawn again gives the same text, whatever was drawn in between. -/
  redrawn : ∀ (earlier : List (Writing α)) (n : Netlist α) (symbols : SymbolSource α)
    (config : Config α) (later : List (Writing α)) (mint mint' : String → String),
    (Writing.ofCircuit n symbols config mint').text
        (((Writing.ofCircuit n symbols config mint).left (ids.after earlier)).after later) =
      (Writing.ofCircuit n symbols config mint).text (ids.after earlier)

/-- Whatever is written one after the other, from any identifiers on, they last. -/
theorem lasting (ids : IdMap) : ids.Lasting α where
  kept _ later := extends_after _ later
  written earlier w :=
    ⟨(ids.after earlier).idFor w.mint, rfl, w.sheet.uuids_document _ w.symbols,
      fun _ hkey => w.find?_left hkey⟩
  supplied earlier w supply used := by
    obtain ⟨mint, hanswers, hmap⟩ := exists_mint supply w.sheet.keys (ids.after earlier, used)
    exact ⟨mint, hanswers.trans (w.sheet.uuids_document _ w.symbols).symm, hmap⟩
  again _ w later mint :=
    ⟨w.text_of_extends (extends_after _ later) mint,
      w.left_of_extends (extends_after _ later) mint⟩
  redrawn _ n symbols config later mint mint' :=
    (Writing.ofCircuit n symbols config mint).text_of_extends (extends_after _ later) mint'

end IdMap

end Schematic
