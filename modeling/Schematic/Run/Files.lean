import Schematic.Table

/-!
# Files

A run reads and writes files.  They are kept as a tree of texts and directories
under the working directory, so that what a run does to them is a value.

## Main definitions

* `Files` — the files and directories.
* `Files.resolve` — the place a path leads to.
* `Files.read`, `Files.write`, `Files.makeDirectory` — the operations.
* `Files.createDirectories` — a directory with those around it.
* `IoFailure` — why an operation fails.
* `joinPath`, `parentPath` — paths as texts.
-/

namespace Schematic

/-- Why a file operation fails. -/
inductive IoFailure where
  /-- There is no such file or directory. -/
  | notFound
  /-- A file stands where a directory is needed. -/
  | notDirectory
  /-- A directory stands where a file is needed. -/
  | isDirectory
  /-- Something stands where a directory is to be made. -/
  | alreadyExists
  /-- A name or a whole path is too long. -/
  | nameTooLong
  /-- A path holds a character that no name can have. -/
  | nulInName
  deriving DecidableEq, Repr, Inhabited

/-- The wording of a failure. -/
def IoFailure.message : IoFailure → String
  | .notFound => "No such file or directory (os error 2)"
  | .notDirectory => "Not a directory (os error 20)"
  | .isDirectory => "Is a directory (os error 21)"
  | .alreadyExists => "File exists (os error 17)"
  | .nameTooLong => "File name too long (os error 36)"
  | .nulInName => "file name contained an unexpected NUL byte"

/-! ### Paths -/

/-- The parts of a path between its slashes. -/
def splitSlashes : List Char → List (List Char)
  | [] => [[]]
  | c :: cs =>
      if c = '/' then [] :: splitSlashes cs
      else
        match splitSlashes cs with
        | [] => [[c]]
        | part :: parts => (c :: part) :: parts

/-- The parts of a path. -/
def pathParts (path : String) : List String := (splitSlashes path.toList).map String.ofList

/-- Whether a part of a path stays where it is. -/
def isIdlePart (part : String) : Bool := part = "" || part = "."

/-- A name in a directory. -/
def joinPath (directory name : String) : String :=
  if directory = "" || name.toList.head? = some '/' then name
  else if directory.toList.getLast? = some '/' then directory ++ name
  else directory ++ "/" ++ name

/-- The parts of a path without those at its end that stay where they are. -/
def trimIdle (parts : List String) : List String := (parts.reverse.dropWhile isIdlePart).reverse

/-- The path of some parts; those at its end that stay where they are do not
count. -/
def pathOfParts (parts : List String) : String :=
  let kept := trimIdle parts
  if kept.isEmpty && parts.head? = some "" then "/" else "/".intercalate kept

/-- The path without its last part; parts that stay where they are do not
count. -/
def parentPath (path : String) : String := pathOfParts (trimIdle (pathParts path)).dropLast

/-- The most bytes of a name in a directory. -/
def maxNameBytes : Nat := 255

/-- The most bytes of a path. -/
def maxPathBytes : Nat := 4095

/-- Refuse a path that leads nowhere, whatever the files are. -/
def checkPath (path : String) : Except IoFailure Unit :=
  if path.toList.contains '\x00' then .error .nulInName
  else if path = "" then .error .notFound
  else if maxPathBytes < path.utf8ByteSize then .error .nameTooLong
  else .ok ()

/-! ### Trees of files -/

/-- What stands at a place. -/
inductive FileEntry where
  /-- A file. -/
  | file (text : String)
  /-- A directory. -/
  | directory
  deriving DecidableEq, Repr, Inhabited

/-- Files and directories by place. -/
structure Files where
  /-- What stands at each place, except for the working directory itself. -/
  entries : Table FileEntry
  deriving DecidableEq, Repr, Inhabited

namespace Files

/-- What stands at a place, given by the names that lead to it.  The working
directory, the ones above it and the root are always there. -/
def entryAt? (f : Files) (place : List String) : Option FileEntry :=
  if place = [""] || place.all (· = "..") then some .directory
  else f.entries.find? ("/".intercalate place)

/-- Put something at a place. -/
def put (f : Files) (place : List String) (entry : FileEntry) : Files :=
  ⟨f.entries.insert ("/".intercalate place) entry⟩

/-- The place above one; the root has none above it. -/
def above (place : List String) : List String :=
  if place = [""] then place
  else if place = [] || place.getLast? = some ".." then place ++ [".."]
  else place.dropLast

/-- The place that one part of a path leads to. -/
def step (place : List String) (part : String) : List String :=
  if isIdlePart part then place
  else if part = ".." then above place
  else place ++ [part]

/-- Follow one part of a path from a place, which has to be a directory. -/
def follow (f : Files) (place : List String) (part : String) : Except IoFailure (List String) :=
  match f.entryAt? place with
  | none => .error .notFound
  | some (.file _) => .error .notDirectory
  | some .directory =>
      if maxNameBytes < part.utf8ByteSize then .error .nameTooLong else .ok (step place part)

/-- Where a path starts, and the parts to follow from there. -/
def startOf (path : String) : List String × List String :=
  match pathParts path with
  | "" :: parts => ([""], parts)
  | parts => ([], parts)

/-- The place that parts of a path lead to, one after the other. -/
def followAll (f : Files) (place : List String) (parts : List String) :
    Except IoFailure (List String) :=
  parts.foldlM f.follow place

/-- The place a path leads to; something need not stand there yet. -/
def resolve (f : Files) (path : String) : Except IoFailure (List String) := do
  checkPath path
  f.followAll (startOf path).1 (startOf path).2

/-- What a path leads to. -/
def find? (f : Files) (path : String) : Option FileEntry :=
  (f.resolve path).toOption.bind f.entryAt?

/-- Whether a path leads to something. -/
def contains (f : Files) (path : String) : Bool := (f.find? path).isSome

/-- The text of a file. -/
def read (f : Files) (path : String) : Except IoFailure String := do
  match f.entryAt? (← f.resolve path) with
  | none => .error .notFound
  | some .directory => .error .isDirectory
  | some (.file text) => .ok text

/-- The parts of a path up to its last name, when only slashes come after that;
such a path asks for a directory. -/
def directoryForm? (parts : List String) : Option (List String) :=
  match parts.reverse with
  | "" :: rest =>
      match rest.dropWhile (· = "") with
      | name :: before => if name = "." || name = ".." then none else some before.reverse
      | [] => none
  | _ => none

/-- Write a file in a directory that is there. -/
def write (f : Files) (path text : String) : Except IoFailure Files := do
  checkPath path
  let (start, parts) := startOf path
  match directoryForm? parts with
  | some before => do
      let place ← f.followAll start before
      let _ ← f.follow place ""
      .error .isDirectory
  | none =>
      let place ← f.followAll start parts
      match f.entryAt? place with
      | some .directory => .error .isDirectory
      | _ => .ok (f.put place (.file text))

/-- The places that parts of a path lead to, one after the other. -/
def placesAlong (place : List String) : List String → List (List String)
  | [] => [place]
  | part :: parts => place :: placesAlong (step place part) parts

/-- What stands at other places, or otherwise, than before. -/
def changes (before after : Files) : List (String × FileEntry) :=
  after.entries.entries.filter fun e => before.entries.find? e.1 ≠ some e.2

/-- Whether a path leads to a directory. -/
def isDirectory (f : Files) (path : String) : Bool := f.find? path == some .directory

/-- Make a directory in a directory that is there. -/
def makeDirectory (f : Files) (path : String) : Except IoFailure Files := do
  checkPath path
  let (start, parts) := startOf path
  let place ← f.followAll start (parts.reverse.dropWhile (· = "")).reverse
  if (f.entryAt? place).isSome then .error .alreadyExists else .ok (f.put place .directory)

/-- Make a directory, unless it is there. -/
def ensureDirectory (f : Files) (path : String) : Except IoFailure Files :=
  match f.makeDirectory path with
  | .ok f => .ok f
  | .error e => if f.isDirectory path then .ok f else .error e

/-- Make a directory; where the one around it is missing, make that first, up to
some number of times. -/
def makeWithParents : Nat → Files → String → Except IoFailure Files
  | 0, f, _ => .ok f
  | depth + 1, f, path =>
      if path = "" then .ok f
      else
        match f.makeDirectory path with
        | .error .notFound =>
            (makeWithParents depth f (parentPath path)).bind fun f => f.ensureDirectory path
        | _ => f.ensureDirectory path

/-- Make a directory and the directories around it; none are needed for the
empty path. -/
def createDirectories (f : Files) (path : String) : Except IoFailure Files :=
  makeWithParents (pathParts path).length f path

end Files

end Schematic
