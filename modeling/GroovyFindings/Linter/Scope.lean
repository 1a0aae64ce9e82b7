import GroovyFindings.Path.Relative
import GroovyFindings.Text.Blank

/-!
# One base directory for several source directories

The linter looks below a single directory. Several source directories are
given to it as their deepest common ancestor, with the patterns of the
files to look at repeated for each of them, seen from there.

## Main definitions

* `ascendTo?`, `commonAncestor?` — the ancestor.
* `globs` — the patterns of a comma-separated list.
* `scopedIncludes` — the patterns as seen from the ancestor.
-/

namespace GroovyFindings.Linter

/-- The deepest of `base` and the paths above it that `dir` begins with. -/
def ascendTo? (base dir : Path) : Option Path :=
  if dir.startsWith base then some base
  else
    match _h : base.parent? with
    | some above => ascendTo? above dir
    | none => none
termination_by base.chars.length
decreasing_by exact Path.length_lt_of_parent? (by assumption)

/-- The deepest ancestor of all directories, unless that is the empty
path. -/
def commonAncestor? : (dirs : List Path) → Option Path
  | [] => none
  | first :: rest => (rest.foldlM ascendTo? first).filter fun base => base.chars ≠ []

/-- The patterns of a comma-separated list. -/
def globs (includes : List Char) : List (List Char) :=
  ((includes.splitOn ',').map Text.trim).filter (!·.isEmpty)

/-- A directory as seen from the base, with slashes. -/
def seenFrom (base dir : Path) : List Char :=
  Text.replaceAll '\\' '/' ((dir.relativeTo? base).getD ⟨[]⟩).chars

/-- A pattern for the files of a directory, as seen from where the
directory is `relative`. -/
def scopedGlob (relative glob : List Char) : List Char :=
  if relative.isEmpty then glob
  else Text.dropEndWhile (· == '/') relative ++ '/' :: glob

/-- The patterns of every directory as seen from the base, each once. -/
def scopedIncludes (base : Path) (dirs : List Path) (includes : List Char) :
    List Char :=
  [','].intercalate
    (dirs.flatMap fun dir => (globs includes).map (scopedGlob (seenFrom base dir))).eraseDups

end GroovyFindings.Linter
