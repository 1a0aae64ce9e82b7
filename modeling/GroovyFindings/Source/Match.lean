import GroovyFindings.Source.File

/-!
# Which file a report means

A report spells a path as the linter saw it: with another root, with
backslashes, absolute or not. An absolute path that is a file's own means
that file. Otherwise paths are compared by their last segments, first with
the reported path as the shorter one and then with the file's.

## Main definitions

* `normalize` — a path with slashes, without `./` and `/` at its beginning.
* `hasPathSuffix` — a path ends with whole segments.
* `firstLeast?` — the first of the least elements of a list.
* `matchSuffix?` — the file that a normalized path means.
* `fileFor?`, `fileForRelative?` — the file that a report means.
-/

namespace GroovyFindings

/-- A text without repetitions of `./` at its beginning. -/
def dropDots : List Char → List Char
  | '.' :: '/' :: rest => dropDots rest
  | text => text

/-- A path with slashes for backslashes, and without `./` and then slashes
at its beginning. -/
def normalize (path : List Char) : List Char :=
  (dropDots (Text.replaceAll '\\' '/' path)).dropWhile (· == '/')

/-- The normalized path is `suffix`, or ends with a slash and `suffix`. -/
def hasPathSuffix (path suffix : List Char) : Bool :=
  let path := normalize path
  path == suffix ||
    match Text.stripEnd? suffix path with
    | some head => head.getLast? == some '/'
    | none => false

/-- The first element that none precedes: `le` says which of two elements
precedes the other, or that neither does. -/
def firstLeast? {α : Type} (le : α → α → Bool) : List α → Option α
  | [] => none
  | a :: rest =>
      match firstLeast? le rest with
      | none => some a
      | some b => some (if le a b then a else b)

/-- The order of preference among files that the reported path ends: the
shorter relative path, counted in bytes, and then the smaller one. -/
def shorter (a b : TrackedFile) : Bool :=
  a.relative.utf8ByteSize < b.relative.utf8ByteSize ||
    a.relative.utf8ByteSize == b.relative.utf8ByteSize && a.relative ≤ b.relative

/-- The order of preference among files that end the reported path: the
longer relative path, counted in bytes, and then the smaller one. -/
def longer (a b : TrackedFile) : Bool :=
  b.relative.utf8ByteSize < a.relative.utf8ByteSize ||
    a.relative.utf8ByteSize == b.relative.utf8ByteSize && a.relative ≤ b.relative

/-- The reported path ends the relative or the absolute path of the file. -/
def endedBy (f : TrackedFile) (wanted : List Char) : Bool :=
  hasPathSuffix f.relative.toList wanted || hasPathSuffix f.absolute.chars wanted

/-- The relative path of the file, which is not empty, ends the reported
path. -/
def endsIn (f : TrackedFile) (wanted : List Char) : Bool :=
  !f.relative.isEmpty && hasPathSuffix wanted (normalize f.relative.toList)

/-- The source that a normalized path means: the best that it ends, or else
the best that ends it. -/
def matchSuffix? (sources : List TrackedFile) (wanted : List Char) :
    Option TrackedFile :=
  if wanted.isEmpty then none
  else
    match firstLeast? shorter (sources.filter (endedBy · wanted)) with
    | some f => some f
    | none => firstLeast? longer (sources.filter (endsIn · wanted))

/-- The Groovy source whose absolute path is the reported one. -/
def exactMatch? (sources : List TrackedFile) (reported : Path) : Option TrackedFile :=
  if reported.isAbsolute then sources.find? fun f => f.absolute.SameAs reported
  else none

/-- The Groovy source that a reported path means. -/
def fileFor? (files : List TrackedFile) (reported : String) : Option TrackedFile :=
  let sources := groovySources files
  match exactMatch? sources (.ofString reported) with
  | some f => some f
  | none => matchSuffix? sources (normalize reported.toList)

/-- The Groovy source that a path, if there is one, means by its last
segments. -/
def fileForRelative? (files : List TrackedFile) (path : Option String) :
    Option TrackedFile :=
  path.bind fun p => matchSuffix? (groovySources files) (normalize p.toList)

end GroovyFindings
