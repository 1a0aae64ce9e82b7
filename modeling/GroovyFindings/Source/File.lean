import GroovyFindings.Path.Basic

/-!
# Tracked files

The host keeps a list of the project's files. Findings are attached to
Groovy files of the main sources; a Groovy file of any kind is reason
enough to look for findings.

## Main definitions

* `TrackedFile` — a file that the host knows.
* `hasGroovy`, `groovySources` — what a list of them has to offer.
-/

namespace GroovyFindings

/-- Which sources a file belongs to. -/
inductive SourceKind where
  | main
  | test
deriving DecidableEq, Repr

/-- The language of Groovy files. -/
def groovyLanguage : String := "grvy"

/-- A file that the host knows. -/
structure TrackedFile where
  /-- The path below its source directory, with slashes. -/
  relative : String
  absolute : Path
  language : Option String
  kind : SourceKind
deriving DecidableEq, Repr

/-- A file in Groovy. -/
def TrackedFile.isGroovy (f : TrackedFile) : Bool := f.language == some groovyLanguage

/-- Some file, of whichever kind, is in Groovy. -/
def hasGroovy (files : List TrackedFile) : Bool := files.any (·.isGroovy)

/-- The Groovy files of the main sources, in their order. -/
def groovySources (files : List TrackedFile) : List TrackedFile :=
  files.filter fun f => f.isGroovy && f.kind == .main

end GroovyFindings
