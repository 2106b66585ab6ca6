import Mathlib.Data.List.DropRight
import Schematic.Proofs.Steps
import Schematic.Proofs.Tables
import Schematic.Run.Files

/-!
# What becomes of files

Files are written where no directory stands, and directories are made where nothing
stands.  So whatever is done to some files, their directories stay; a path that led
somewhere leads there ever after, and what stands there is the same unless that very
file was written.  What was done may therefore be done again without a change.

## Main definitions

* `Files.placeOf`, `Files.nameOf` — the place that a path leads to where all its
  directories are there, and the name under which it is kept.
* `Files.Leads` — files that come from others, and the names that were written.

## Main statements

* `Files.eq_placeOf_of_resolve` — a path that leads somewhere leads to its place.
* `Files.leads_of_write`, `Files.leads_of_createDirectories` — what the operations do.
* `Files.Leads.entryAt?`, `Files.Leads.resolve`, `Files.Leads.read` — what stays.
* `Files.Leads.write`, `Files.Leads.createDirectories` — doing it again changes nothing.
-/

namespace Schematic

namespace Files

variable {f g : Files} {place p : List String} {path text : String}

/-! ### Places -/

/-- The place that a path leads to where all its directories are there. -/
def placeOf (path : String) : List String := (startOf path).2.foldl step (startOf path).1

/-- The name under which what stands at the place of a path is kept. -/
def nameOf (path : String) : String := "/".intercalate (placeOf path)

theorem follow_eq_ok_iff {part : String} :
    f.follow place part = .ok p ↔ f.entryAt? place = some .directory ∧
      part.utf8ByteSize ≤ maxNameBytes ∧ p = step place part := by
  rw [follow]
  split
  · next hnone => simp [hnone]
  · next hfile => simp [hfile]
  · next hdirectory =>
    by_cases hlong : maxNameBytes < part.utf8ByteSize
    · simp [hlong, Nat.not_le.2 hlong]
    · simp [hlong, hdirectory, Nat.le_of_not_lt hlong, eq_comm]

theorem followAll_cons_eq_ok_iff {part : String} {parts : List String} :
    f.followAll place (part :: parts) = .ok p ↔
      ∃ q, f.follow place part = .ok q ∧ f.followAll q parts = .ok p := by
  rw [followAll, List.foldlM_cons, except_bind_eq_ok_iff]
  rfl

theorem followAll_append_eq_ok_iff {first rest : List String} :
    f.followAll place (first ++ rest) = .ok p ↔
      ∃ q, f.followAll place first = .ok q ∧ f.followAll q rest = .ok p := by
  rw [followAll, List.foldlM_append, except_bind_eq_ok_iff]
  rfl

/-- Parts that are followed lead to one place, whatever the files are. -/
theorem eq_of_followAll {parts : List String} (h : f.followAll place parts = .ok p) :
    p = parts.foldl step place := by
  induction parts generalizing place with
  | nil => exact (Except.ok.inj h).symm
  | cons part parts ih =>
    obtain ⟨q, hq, hp⟩ := followAll_cons_eq_ok_iff.1 h
    rw [ih hp, List.foldl_cons, (follow_eq_ok_iff.1 hq).2.2]

theorem resolve_eq_ok_iff :
    f.resolve path = .ok p ↔
      checkPath path = .ok () ∧ f.followAll (startOf path).1 (startOf path).2 = .ok p := by
  rw [resolve, except_bind_eq_ok_iff]
  exact ⟨fun ⟨⟨⟩, h⟩ => h, fun h => ⟨⟨⟩, h⟩⟩

/-- A path that leads somewhere leads to its place. -/
theorem eq_placeOf_of_resolve (h : f.resolve path = .ok p) : p = placeOf path :=
  eq_of_followAll (resolve_eq_ok_iff.1 h).2

theorem find?_of_resolve (h : f.resolve path = .ok p) : f.find? path = f.entryAt? p := by
  rw [find?, h]
  rfl

/-- What a path leads to stands at its place. -/
theorem find?_eq_some_iff {e : FileEntry} :
    f.find? path = some e ↔
      f.resolve path = .ok (placeOf path) ∧ f.entryAt? (placeOf path) = some e := by
  refine ⟨fun h => ?_, fun h => (find?_of_resolve h.1).trans h.2⟩
  cases hresolve : f.resolve path with
  | error e => rw [find?, hresolve] at h; cases h
  | ok p =>
    rw [find?_of_resolve hresolve] at h
    obtain rfl := eq_placeOf_of_resolve hresolve
    exact ⟨rfl, h⟩

theorem isDirectory_iff : f.isDirectory path = true ↔ f.find? path = some .directory := by
  rw [isDirectory, beq_iff_eq]

theorem read_eq_ok_iff : f.read path = .ok text ↔ f.find? path = some (.file text) := by
  rw [read]
  cases hresolve : f.resolve path with
  | error e => simp [find?, hresolve, bind, Except.bind, Except.toOption]
  | ok p =>
    rw [find?_of_resolve hresolve]
    simp only [bind, Except.bind]
    split
    · next hnone => simp [hnone]
    · next hdirectory => simp [hdirectory]
    · next hfile => simp [hfile]

/-! ### What is put somewhere -/

/-- Something that is no directory stands where it was put. -/
theorem entryAt?_put_self (h : f.entryAt? place ≠ some .directory) (e : FileEntry) :
    (f.put place e).entryAt? place = some e := by
  rw [entryAt?] at h ⊢
  split
  · next hthere => exact absurd (if_pos hthere) h
  · rw [put, Table.find?_insert, if_pos rfl]

/-- What is put under another name leaves a place alone. -/
theorem entryAt?_put_of_ne {other : List String}
    (h : "/".intercalate other ≠ "/".intercalate place) (e : FileEntry) :
    (f.put other e).entryAt? place = f.entryAt? place := by
  rw [entryAt?, entryAt?, put, Table.find?_insert, if_neg h]

/-- Where neither a directory nor the same stands, something that is put leaves it alone. -/
theorem entryAt?_put_of_some {other : List String} {e : FileEntry}
    (hdirectory : f.entryAt? other ≠ some .directory) (hother : f.entryAt? other ≠ some e)
    (h : f.entryAt? place = some e) (new : FileEntry) :
    (f.put other new).entryAt? place = some e := by
  by_cases hname : "/".intercalate other = "/".intercalate place
  · rw [entryAt?] at hdirectory hother h ⊢
    split at hdirectory
    · exact absurd rfl hdirectory
    split at h
    · next hthere => rw [if_pos hthere, h]
    · next hnew hthere =>
      rw [if_neg hnew, hname, h] at hother
      exact absurd rfl hother
  · rw [entryAt?_put_of_ne hname, h]

/-- Where nothing stands no entry stands. -/
theorem not_holds_of_entryAt? {e : FileEntry} (h : f.entryAt? place = none) :
    ¬ f.entries.Holds ("/".intercalate place) e := by
  intro hholds
  rw [entryAt?] at h
  split at h
  · cases h
  · rw [hholds.find?] at h
    cases h

/-! ### Files that come from others -/

/-- Files that come from others by writing files, which have the given names, and by making
directories where nothing stood. -/
inductive Leads (f : Files) : List String → Files → Prop where
  /-- Nothing was done. -/
  | refl : Leads f [] f
  /-- A file was written. -/
  | file {names : List String} {g : Files} {place : List String} (text : String)
      (before : Leads f names g) (h : g.entryAt? place ≠ some .directory) :
      Leads f ("/".intercalate place :: names) (g.put place (.file text))
  /-- A directory was made. -/
  | directory {names : List String} {g : Files} {place : List String}
      (before : Leads f names g) (h : g.entryAt? place = none) :
      Leads f names (g.put place .directory)

namespace Leads

variable {names : List String}

theorem trans {h : Files} {more : List String} (hg : f.Leads names g) (hh : g.Leads more h) :
    f.Leads (more ++ names) h := by
  induction hh with
  | refl => exact hg
  | file text _ hplace ih => exact .file text ih hplace
  | directory _ hplace ih => exact .directory ih hplace

/-- Directories stay. -/
theorem directory_stays (h : f.Leads names g) (hf : f.entryAt? place = some .directory) :
    g.entryAt? place = some .directory := by
  induction h with
  | refl => exact hf
  | file text _ hplace ih => exact entryAt?_put_of_some hplace hplace ih _
  | directory _ hplace ih =>
    exact entryAt?_put_of_some (by simp [hplace]) (by simp [hplace]) ih _

/-- What was not written stays. -/
theorem entryAt? (h : f.Leads names g) {e : FileEntry} (hname : "/".intercalate place ∉ names)
    (hf : f.entryAt? place = some e) : g.entryAt? place = some e := by
  induction h with
  | refl => exact hf
  | file text _ _ ih =>
    obtain ⟨hne, hnames⟩ := List.ne_and_not_mem_of_not_mem_cons hname
    rw [entryAt?_put_of_ne (Ne.symm hne), ih hnames]
  | directory _ hplace ih =>
    exact entryAt?_put_of_some (by simp [hplace]) (by simp [hplace]) (ih hname) _

/-- What was not written may be written once more as it is. -/
theorem holds (h : f.Leads names g) {name : String} {e : FileEntry} (hname : name ∉ names)
    (hf : f.entries.Holds name e) : g.entries.Holds name e := by
  induction h with
  | refl => exact hf
  | file text _ _ ih =>
    obtain ⟨hne, hnames⟩ := List.ne_and_not_mem_of_not_mem_cons hname
    exact (ih hnames).insert (Ne.symm hne) _
  | directory _ hplace ih =>
    refine (ih hname).insert (fun heq => ?_) _
    exact not_holds_of_entryAt? hplace (heq ▸ ih hname)

theorem followAll {parts : List String} (h : f.Leads names g)
    (hf : f.followAll place parts = .ok p) : g.followAll place parts = .ok p := by
  induction parts generalizing place with
  | nil => exact hf
  | cons part parts ih =>
    obtain ⟨q, hq, hp⟩ := followAll_cons_eq_ok_iff.1 hf
    obtain ⟨hplace, hstep⟩ := follow_eq_ok_iff.1 hq
    exact followAll_cons_eq_ok_iff.2
      ⟨q, follow_eq_ok_iff.2 ⟨h.directory_stays hplace, hstep⟩, ih hp⟩

/-- A path that leads somewhere leads there ever after. -/
theorem resolve (h : f.Leads names g) (hf : f.resolve path = .ok p) : g.resolve path = .ok p := by
  obtain ⟨hpath, hparts⟩ := resolve_eq_ok_iff.1 hf
  exact resolve_eq_ok_iff.2 ⟨hpath, h.followAll hparts⟩

/-- A path leads to what it led to, unless that was written. -/
theorem find? (h : f.Leads names g) {e : FileEntry} (hname : nameOf path ∉ names)
    (hf : f.find? path = some e) : g.find? path = some e := by
  obtain ⟨hpath, hplace⟩ := find?_eq_some_iff.1 hf
  exact find?_eq_some_iff.2 ⟨h.resolve hpath, h.entryAt? hname hplace⟩

theorem isDirectory (h : f.Leads names g) (hf : f.isDirectory path = true) :
    g.isDirectory path = true := by
  obtain ⟨hpath, hplace⟩ := find?_eq_some_iff.1 (isDirectory_iff.1 hf)
  exact isDirectory_iff.2 (find?_eq_some_iff.2 ⟨h.resolve hpath, h.directory_stays hplace⟩)

/-- A file that was not written is read as before. -/
theorem read (h : f.Leads names g) (hname : nameOf path ∉ names) (hf : f.read path = .ok text) :
    g.read path = .ok text :=
  read_eq_ok_iff.2 (h.find? hname (read_eq_ok_iff.1 hf))

end Leads

/-! ### Writing files -/

theorem write_eq_ok_iff :
    f.write path text = .ok g ↔ directoryForm? (startOf path).2 = none ∧
      f.resolve path = .ok (placeOf path) ∧ f.entryAt? (placeOf path) ≠ some .directory ∧
      g = f.put (placeOf path) (.file text) := by
  rw [write, except_bind_eq_ok_iff, resolve_eq_ok_iff]
  cases hform : directoryForm? (startOf path).2 with
  | some before =>
    -- a path in the form of a directory is refused, though some ways later than others
    simp only [hform, except_bind_eq_ok_iff, reduceCtorEq, and_false, exists_false, false_and]
  | none =>
    simp only [hform, except_bind_eq_ok_iff]
    constructor
    · rintro ⟨_, hpath, q, hq, hput⟩
      obtain rfl := eq_of_followAll hq
      split at hput
      · cases hput
      · next hplace => exact ⟨trivial, ⟨hpath, hq⟩, hplace, (Except.ok.inj hput).symm⟩
    · rintro ⟨-, ⟨hpath, hq⟩, hplace, rfl⟩
      refine ⟨(), hpath, placeOf path, hq, ?_⟩
      split
      · next hdirectory => exact absurd hdirectory hplace
      · rfl

theorem leads_of_write (h : f.write path text = .ok g) : f.Leads [nameOf path] g := by
  obtain ⟨-, -, hplace, rfl⟩ := write_eq_ok_iff.1 h
  exact .file text .refl hplace

theorem read_of_write (h : f.write path text = .ok g) : g.read path = .ok text := by
  have hleads := leads_of_write h
  obtain ⟨-, hpath, hplace, rfl⟩ := write_eq_ok_iff.1 h
  exact read_eq_ok_iff.2 (find?_eq_some_iff.2 ⟨hleads.resolve hpath, entryAt?_put_self hplace _⟩)

/-- A file that was written may be written again. -/
theorem write_again (h : f.write path text = .ok g) : g.write path text = .ok g := by
  have hfile := (find?_eq_some_iff.1 (read_eq_ok_iff.1 (read_of_write h))).2
  have hleads := leads_of_write h
  obtain ⟨hform, hpath, -, rfl⟩ := write_eq_ok_iff.1 h
  refine write_eq_ok_iff.2 ⟨hform, hleads.resolve hpath, by rw [hfile]; exact nofun, ?_⟩
  exact congrArg Files.mk (Table.holds_insert _ _ _).symm

/-- A file may be written again as long as it stays what it is. -/
theorem Leads.write {names : List String} (h : f.Leads names g) (hname : nameOf path ∉ names)
    (hf : f.write path text = .ok f) : g.write path text = .ok g := by
  have hfile := h.entryAt? hname (find?_eq_some_iff.1 (read_eq_ok_iff.1 (read_of_write hf))).2
  obtain ⟨hform, hpath, -, hput⟩ := write_eq_ok_iff.1 hf
  have hholds : g.entries.Holds (nameOf path) (.file text) :=
    h.holds hname (congrArg Files.entries hput.symm)
  refine write_eq_ok_iff.2 ⟨hform, h.resolve hpath, by rw [hfile]; exact nofun, ?_⟩
  exact congrArg Files.mk (Eq.symm hholds)

/-! ### Making directories -/

/-- The parts of a path without the empty ones at its end. -/
def trimmed (path : String) : List String := (startOf path).2.rdropWhile (· = "")

theorem exists_startOf_eq_trimmed (path : String) :
    ∃ parts, (startOf path).2 = trimmed path ++ parts ∧ ∀ part ∈ parts, part = "" :=
  ⟨(startOf path).2.rtakeWhile (· = ""), (List.rdropWhile_append_rtakeWhile ..).symm,
    fun _ hpart => by simpa using List.mem_rtakeWhile_imp hpart⟩

/-- Empty parts lead nowhere else. -/
theorem foldl_step_empty {parts : List String} (h : ∀ part ∈ parts, part = "")
    (place : List String) : parts.foldl step place = place := by
  induction parts with
  | nil => rfl
  | cons part parts ih =>
    obtain ⟨rfl, hrest⟩ := List.forall_mem_cons.1 h
    exact ih hrest

/-- Empty parts stay in a directory. -/
theorem followAll_empty {parts : List String} (h : ∀ part ∈ parts, part = "")
    (hplace : f.entryAt? place = some .directory) : f.followAll place parts = .ok place := by
  induction parts with
  | nil => rfl
  | cons part parts ih =>
    obtain ⟨rfl, hrest⟩ := List.forall_mem_cons.1 h
    exact followAll_cons_eq_ok_iff.2
      ⟨place, follow_eq_ok_iff.2 ⟨hplace, by decide, rfl⟩, ih hrest⟩

theorem foldl_step_trimmed (path : String) :
    (trimmed path).foldl step (startOf path).1 = placeOf path := by
  obtain ⟨parts, hparts, hempty⟩ := exists_startOf_eq_trimmed path
  rw [placeOf, hparts, List.foldl_append, foldl_step_empty hempty]

theorem followAll_trimmed (h : f.resolve path = .ok p) :
    f.followAll (startOf path).1 (trimmed path) = .ok p := by
  obtain rfl := eq_placeOf_of_resolve h
  obtain ⟨parts, hparts, -⟩ := exists_startOf_eq_trimmed path
  have hall := (resolve_eq_ok_iff.1 h).2
  rw [hparts, followAll_append_eq_ok_iff] at hall
  obtain ⟨q, hq, -⟩ := hall
  rw [hq, eq_of_followAll hq, foldl_step_trimmed]

theorem makeDirectory_eq_ok_iff :
    f.makeDirectory path = .ok g ↔ checkPath path = .ok () ∧
      f.followAll (startOf path).1 (trimmed path) = .ok (placeOf path) ∧
      f.entryAt? (placeOf path) = none ∧ g = f.put (placeOf path) .directory := by
  rw [makeDirectory, except_bind_eq_ok_iff]
  simp only [except_bind_eq_ok_iff]
  constructor
  · rintro ⟨_, hpath, q, hq, hput⟩
    obtain rfl : q = placeOf path := (eq_of_followAll hq).trans (foldl_step_trimmed path)
    split at hput
    · cases hput
    · next hplace =>
      exact ⟨hpath, hq, Option.not_isSome_iff_eq_none.1 hplace, (Except.ok.inj hput).symm⟩
  · rintro ⟨hpath, hq, hplace, rfl⟩
    exact ⟨(), hpath, placeOf path, hq, by rw [hplace]; rfl⟩

theorem leads_of_makeDirectory (h : f.makeDirectory path = .ok g) : f.Leads [] g := by
  obtain ⟨-, -, hplace, rfl⟩ := makeDirectory_eq_ok_iff.1 h
  exact .directory .refl hplace

/-- A directory that was made is there. -/
theorem isDirectory_of_makeDirectory (h : f.makeDirectory path = .ok g) :
    g.isDirectory path = true := by
  have hleads := leads_of_makeDirectory h
  obtain ⟨hpath, hparts, hplace, rfl⟩ := makeDirectory_eq_ok_iff.1 h
  have hthere := entryAt?_put_self (f := f) (by rw [hplace]; exact nofun) .directory
  obtain ⟨blank, hblank, hempty⟩ := exists_startOf_eq_trimmed path
  refine isDirectory_iff.2 (find?_eq_some_iff.2 ⟨resolve_eq_ok_iff.2 ⟨hpath, ?_⟩, hthere⟩)
  rw [hblank, followAll_append_eq_ok_iff]
  exact ⟨placeOf path, hleads.followAll hparts, followAll_empty hempty hthere⟩

theorem ensureDirectory_eq_ok_iff :
    f.ensureDirectory path = .ok g ↔
      f.makeDirectory path = .ok g ∨
        (∃ e, f.makeDirectory path = .error e) ∧ f.isDirectory path = true ∧ g = f := by
  rw [ensureDirectory]
  cases f.makeDirectory path with
  | ok made => simp
  | error e =>
    by_cases hthere : f.isDirectory path = true
    · simp [hthere, eq_comm]
    · simp [hthere]

/-- A directory is there once it is ensured. -/
theorem isDirectory_of_ensureDirectory (h : f.ensureDirectory path = .ok g) :
    g.isDirectory path = true := by
  rcases ensureDirectory_eq_ok_iff.1 h with h | ⟨-, hthere, rfl⟩
  · exact isDirectory_of_makeDirectory h
  · exact hthere

theorem leads_of_ensureDirectory (h : f.ensureDirectory path = .ok g) : f.Leads [] g := by
  rcases ensureDirectory_eq_ok_iff.1 h with h | ⟨-, -, rfl⟩
  · exact leads_of_makeDirectory h
  · exact .refl

theorem makeDirectory_of_isDirectory (h : f.isDirectory path = true) :
    f.makeDirectory path = .error .alreadyExists := by
  obtain ⟨hresolve, hplace⟩ := find?_eq_some_iff.1 (isDirectory_iff.1 h)
  rw [makeDirectory, (resolve_eq_ok_iff.1 hresolve).1]
  have hparts := followAll_trimmed hresolve
  rw [trimmed, List.rdropWhile] at hparts
  simp only [bind, Except.bind, hparts, hplace]
  rfl

theorem leads_of_makeWithParents {depth : Nat} (h : makeWithParents depth f path = .ok g) :
    f.Leads [] g := by
  induction depth generalizing path g with
  | zero => exact Except.ok.inj h ▸ .refl
  | succ depth ih =>
    rw [makeWithParents] at h
    split at h
    · exact Except.ok.inj h ▸ .refl
    split at h
    · obtain ⟨made, hmade, hensure⟩ := except_bind_eq_ok_iff.1 h
      exact (ih hmade).trans (leads_of_ensureDirectory hensure)
    · exact leads_of_ensureDirectory h

theorem leads_of_createDirectories (h : f.createDirectories path = .ok g) : f.Leads [] g :=
  leads_of_makeWithParents h

/-- A directory that is there need not be made. -/
theorem createDirectories_of_isDirectory (h : f.isDirectory path = true) :
    f.createDirectories path = .ok f := by
  have hmade := makeDirectory_of_isDirectory h
  rw [createDirectories]
  cases (pathParts path).length with
  | zero => rfl
  | succ depth =>
    rw [makeWithParents]
    split
    · rfl
    · simp only [hmade]
      rw [ensureDirectory, hmade]
      exact if_pos h

theorem length_splitSlashes_pos (text : List Char) : 0 < (splitSlashes text).length := by
  cases text with
  | nil => decide
  | cons c text =>
    rw [splitSlashes]
    split
    · exact Nat.succ_pos _
    · split <;> exact Nat.succ_pos _

theorem isDirectory_of_createDirectories (h : f.createDirectories path = .ok g) :
    path = "" ∨ g.isDirectory path = true := by
  refine or_iff_not_imp_left.2 fun hpath => ?_
  obtain ⟨depth, hdepth⟩ : ∃ depth, (pathParts path).length = depth + 1 :=
    Nat.exists_eq_add_one.2 (by rw [pathParts, List.length_map]; exact length_splitSlashes_pos _)
  rw [createDirectories, hdepth, makeWithParents, if_neg hpath] at h
  split at h
  · obtain ⟨made, -, hensure⟩ := except_bind_eq_ok_iff.1 h
    exact isDirectory_of_ensureDirectory hensure
  · exact isDirectory_of_ensureDirectory h

/-- Directories that were made need not be made again, whatever was done since. -/
theorem Leads.createDirectories {names : List String} (h : f.createDirectories path = .ok g)
    {after : Files} (hafter : g.Leads names after) :
    after.createDirectories path = .ok after := by
  rcases isDirectory_of_createDirectories h with rfl | hthere
  · rfl
  · exact createDirectories_of_isDirectory (hafter.isDirectory hthere)

end Files

end Schematic
