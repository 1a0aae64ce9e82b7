import GroovyFindings.Glob.Walk
import GroovyFindings.Path.Relative
import GroovyFindings.Source.File
import GroovyFindings.Source.Suffix

/-!
# Looking for the project's files

All files below the main directories, and then those below the test
directories, are tracked. Within a directory they are ordered by their
paths. A file that several directories hold is tracked once, as the first
of them has it. A directory's name is read as a pattern.

## Main definitions

* `Root` — a directory to look in.
* `Root.walk` — the paths of the files in it.
* `Root.track` — the tracked files that paths give, in order.
* `assemble` — the tracked files of all directories.
* `scan` — the files of a project.
-/

namespace GroovyFindings

namespace Scan

/-- A directory to look in. -/
structure Root where
  path : Path
  kind : SourceKind
deriving DecidableEq, Repr

/-- A directory whose name is no pattern. -/
structure Error where
  root : Path
  cause : Glob.Error
deriving DecidableEq, Repr

/-- The words for such a directory. -/
def Error.message (e : Error) : String :=
  "bad source directory " ++ e.root.text ++ ": " ++ e.cause.message

/-- The directories to look in, below a base. -/
def roots (base : Path) (main test : List Path) : List Root :=
  main.map (fun d => ⟨base.join d, .main⟩) ++ test.map (fun d => ⟨base.join d, .test⟩)

/-- The paths of the files below a directory. One that is not there has
none. -/
def Root.walk (d : Disk) (r : Root) : Except Error (List Path) :=
  if d.isDir r.path then
    match Glob.Pattern.ofChars ((r.path.child "**").child "*").chars with
    | .ok pattern => .ok ((pattern.paths d).filter d.isFile)
    | .error e => .error ⟨r.path, e⟩
  else .ok []

/-- The path of a file as seen from its directory, with slashes. -/
def Root.relative (r : Root) (p : Path) : String :=
  String.ofList (Text.replaceAll '\\' '/' ((p.relativeTo? r.path).getD p).chars)

/-- A file as it is tracked. -/
def Root.file (r : Root) (suffixes : List String) (p : Path) : TrackedFile where
  relative := r.relative p
  absolute := p
  language := if hasSuffix (r.relative p) suffixes then some groovyLanguage else none
  kind := r.kind

/-- The tracked files that the paths of a directory give. -/
def Root.track (r : Root) (suffixes : List String) (paths : List Path) :
    List TrackedFile :=
  (paths.mergeSort Path.le).map (r.file suffixes)

/-- The files without those whose absolute path has come before. -/
def dropRepeats : List TrackedFile → List TrackedFile
  | [] => []
  | f :: rest =>
      f :: (dropRepeats rest).filter fun g => ¬ g.absolute.SameAs f.absolute

/-- The tracked files of directories, given the paths of the files in
each. -/
def assemble (suffixes : List String) (walks : List (Root × List Path)) :
    List TrackedFile :=
  dropRepeats (walks.flatMap fun w => w.1.track suffixes w.2)

end Scan

/-- The files of a project, or the first directory whose name is no
pattern. -/
def scan (d : Disk) (base : Path) (main test : List Path) (suffixes : List String) :
    Except Scan.Error (List TrackedFile) := do
  let walks ← (Scan.roots base main test).mapM fun r =>
    (r.walk d).map fun paths => (r, paths)
  return Scan.assemble suffixes walks

end GroovyFindings
