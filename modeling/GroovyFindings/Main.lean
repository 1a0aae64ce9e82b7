import GroovyFindings.Program
import GroovyFindings.Shell.Machine

/-!
# The program on a real disk

The program runs on a picture of the disk: what marks the root of the
project, all that is below the root, and what the settings name outside of
it. What the run has changed in the picture is then changed on the disk.

## Main definitions

* `Picture.take` — the picture for some options.
* `Picture.develop` — brings the disk into line with a picture.
* `main` — the program.
-/

namespace GroovyFindings.Picture

/-- The place of an absolute path. -/
def placeOf (path : String) : Place :=
  ((path.splitOn "/").filter (· ≠ "")).map String.toList

/-- The path of a place, as a string. -/
def pathText (place : Place) : String := (Disk.pathOf place).text

/-- The places above a place, outermost first. -/
def placesAbove (place : Place) : List Place := (List.range place.length).map place.take

/-- The picture with something added at a place, and the directories that
lead there. -/
def add (d : Disk) (place : Place) (node : Disk.Node) : Disk :=
  let above := (placesAbove place).filter fun p => (d.node? p).isNone
  { d with entries := (place, node) :: above.map (·, .dir) ++ d.entries }

/-- The bytes of a file; none if it cannot be read. -/
def bytesOf (path : String) : IO (List UInt8) := do
  match ← (IO.FS.readBinFile path).toBaseIO with
  | .ok bytes => return bytes.toList
  | .error _ => return []

/-- Adds what is at a path, and if `deep` all that is below it. Links are
taken for links to where they lead in the end. -/
partial def addPath (deep : Bool) (d : Disk) (path : String) : IO Disk := do
  let place := placeOf path
  let real := (← (IO.FS.realPath path).toBaseIO).toOption
  match real with
  | none => return d
  | some real =>
      let target := real.toString
      match ← real.metadata.toBaseIO with
      | .error _ => return d
      | .ok m =>
          if target ≠ path then
            let d ← if (d.node? (placeOf target)).isSome then pure d else addPath deep d target
            return add d place (.link (.ofString target))
          else
            match m.type with
            | .dir =>
                let mut d := add d place .dir
                if deep then
                  for entry in ← real.readDir do
                    d ← addPath true d entry.path.toString
                return d
            | .file => return add d place (.file (← bytesOf path))
            | _ => return d

/-- Adds what is at a path if the picture does not show it. -/
def addMissing (d : Disk) (p : Path) : IO Disk := do
  if d.present p then return d
  match ← (IO.FS.realPath p.text).toBaseIO with
  | .ok real => addPath true d real.toString
  | .error _ => return d

/-- What marks the roots above a path. -/
def marks (d : Disk) (path : String) : IO Disk := do
  let mut d ← addPath false d path
  for place in placesAbove (placeOf path) ++ [placeOf path] do
    for name in Settings.markers do
      d ← addPath false d (pathText (place ++ [name.toList]))
  return d

/-- The picture for some options. -/
def take (o : Settings.Options) : IO Disk := do
  let here ← IO.FS.realPath "."
  let d := { Disk.blank with cwd := placeOf here.toString }
  let start ← (IO.FS.realPath (Settings.startPath o).text).toBaseIO
  let d ← marks d (match start with
    | .ok path => path.toString
    | .error _ => here.toString)
  let root := Settings.projectRoot d (Settings.startPath o)
  let d ← addPath true d root.text
  match Settings.resolve d o with
  | .error _ => return d
  | .ok e => (e.profile :: e.mainDirs ++ e.testDirs ++ e.reportPath.toList).foldlM addMissing d

/-- Brings the disk into line: `before` is how it is. -/
def develop (before after : Disk) : IO Unit := do
  for (place, node) in after.entries.reverse do
    if before.node? place ≠ some node then
      match node with
      | .file content => IO.FS.writeBinFile (pathText place) ⟨content.toArray⟩
      | .dir => IO.FS.createDirAll (pathText place)
      | .link _ => pure ()
  for (place, node) in before.entries do
    match node with
    | .file _ => if (after.node? place).isNone then IO.FS.removeFile (pathText place)
    | _ => pure ()

end GroovyFindings.Picture

open GroovyFindings in
/-- Reads the arguments, runs the program and shows how it ends. -/
def main (arguments : List String) : IO UInt32 := do
  let before ← match CommandLine.parse arguments with
    | .ok ⟨_, .analyze o _⟩ => Picture.take o
    | _ => pure Disk.blank
  let colours := (← IO.getEnv "NO_COLOR").isNone
  let linter (words : List String) := (Linter.Command.ofWords words).runner Shell.machine
  let r := Program.run linter none before colours arguments
  Picture.develop before r.disk
  for w in r.warnings do
    IO.eprintln w.message
  IO.print r.ending.printed
  match r.ending.complaint with
  | some text => IO.eprintln text
  | none => pure ()
  return UInt32.ofNat r.ending.code
