import Schematic.Run.CommandLine

/-!
# The program

The program looks up what stands at the places its arguments lead to, runs on
that, and then writes what has changed.

## Main definitions

* `learnPath` — look up what stands along a path.
* `main` — the program.
-/

namespace Schematic

/-- The path to a place. -/
def pathTo (place : List String) : String :=
  if place = [""] then "/" else "/".intercalate place

/-- Look up what stands at a place. -/
def learnPlace (f : Files) (place : List String) : IO Files := do
  if place = [] then return f
  match ← (IO.FS.readFile (pathTo place)).toBaseIO with
  | .ok text => return f.put place (.file text)
  | .error (.inappropriateType _ 21 _) => return f.put place .directory
  | .error (.inappropriateType ..) => return f
  | .error (.noFileOrDirectory ..) => return f
  | .error (.invalidArgument ..) => return f
  | .error e => throw e

/-- Look up what stands at all places along a path. -/
def learnPath (f : Files) (path : String) : IO Files :=
  (Files.placesAlong (Files.startOf path).1 (Files.startOf path).2).foldlM learnPlace f

/-- Look up what a run for some arguments may need. -/
def learnArguments (args : List String) : IO Files := do
  match Invocation.parse args with
  | .error _ => return default
  | .ok invocation =>
      let named ← invocation.namedPaths.foldlM learnPath default
      (invocation.artifactPaths named).foldlM learnPath named

/-- Write something to a path. -/
def writeEntry (path : String) : FileEntry → IO Unit
  | .file text => IO.FS.writeFile path text
  | .directory => IO.FS.createDirAll path

/-- A random word. -/
def randomWord : IO UInt64 := do
  let bytes ← IO.getRandomBytes 8
  return bytes.toList.foldl (fun w b => w * 256 + b.toUInt64) 0

/-- Run for some arguments; the answer is the exit code. -/
def runMain (args : List String) : IO UInt32 := do
  let files ← learnArguments args
  let high ← randomWord
  let low ← randomWord
  let mint (key : String) : String :=
    uuidOfWords (mixHash high (hash key)) (mixHash (hash key) low)
  let outcome := runProgram args mint files
  for (path, entry) in files.changes outcome.files do
    writeEntry path entry
  IO.print outcome.output
  IO.eprint outcome.errors
  return outcome.exit.toUInt32

end Schematic

/-- The program. -/
def main (args : List String) : IO UInt32 := Schematic.runMain args
