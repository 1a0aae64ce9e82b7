import GroovyFindings.Disk.Resolve
import GroovyFindings.Glob.Pattern

/-!
# Finding paths that fit a pattern

A pattern is followed from the root or from the current directory, one
piece at a time. A piece without wildcards is looked up; any other is held
against the names in a directory. Below a piece of two asterisks every
directory is entered, also through links, for as long as its path can be
followed at all.

## Main definitions

* `Piece`, `Pattern`, `Pattern.ofChars` — a pattern ready to be followed.
* `Pattern.paths` — the paths that fit it.
-/

namespace GroovyFindings.Glob

/-- What stands between slashes. -/
inductive Piece where
  /-- A name. -/
  | literal (name : List Char)
  /-- Any number of directories. -/
  | dirs
  /-- A name with wildcards. -/
  | wild (pattern : List Token)
deriving DecidableEq, Repr

/-- The characters of tokens that have no wildcard among them. -/
def plainChars? : List Token → Option (List Char)
  | [] => some []
  | .char c :: rest => (plainChars? rest).map (c :: ·)
  | _ => none

/-- The piece of the given tokens. -/
def Piece.ofTokens (ts : List Token) : Piece :=
  match plainChars? ts with
  | some name => .literal name
  | none => if ts = [.anyDirs] then .dirs else .wild ts

/-- The name of an entry fits a piece. -/
def Piece.acceptsName (piece : Piece) (name : List Char) : Bool :=
  match piece with
  | .literal name' => name = name'
  | .dirs => false
  | .wild ts => accepts ts name

/-- A pattern ready to be followed. -/
structure Pattern where
  /-- Where the pattern begins. -/
  start : Path
  pieces : List Piece
deriving DecidableEq, Repr

/-- The pieces of a text, without the empty one behind a slash at the
end. -/
def splitPieces (text : List Char) : List (List Char) :=
  let parts := text.splitOn '/'
  if parts.getLast? = some [] then parts.dropLast else parts

/-- The pattern that a text says. The text is looked at as a whole before
its pieces are. -/
def Pattern.ofChars (text : List Char) : Except Error Pattern := do
  let _ ← tokens text
  let p : Path := ⟨text⟩
  let body := if p.isAbsolute then text.drop 1 else text
  let pieces ← (splitPieces body).mapM fun part => (tokens part).map Piece.ofTokens
  return ⟨⟨if p.isAbsolute then ['/'] else ['.']⟩, pieces⟩

/-- An entry of a directory. What is in the current directory is called by
its name alone. -/
def entry (path : Path) (name : List Char) : Path :=
  if path.SameAs ⟨['.']⟩ then ⟨name⟩ else path.join ⟨name⟩

/-- The single dot and the two dots. -/
def dots : List (List Char) := [['.'], ['.', '.']]

/-- The name is in a directory, to judge from the disk. The dots are in
every directory. -/
def exists? (d : Disk) (path : Path) (name : List Char) : Bool :=
  let next := entry path name
  if dots.contains name then d.isDir path
  else d.present next || d.presentItself next

/-- The dots that a pattern beginning with a dot accepts. -/
def acceptedDots : Piece → List (List Char)
  | .wild (.char '.' :: rest) => dots.filter (accepts (.char '.' :: rest))
  | _ => []

/-- The paths that fit the pieces, where `path` stands for the first of
them and `follow` finds what fits the others. -/
def fitting (follow : List Piece → Path → List Path) (path : Path) :
    (pieces : List Piece) → List Path
  | [] => []
  | piece :: rest =>
      if path.fileName?.any piece.acceptsName then
        match rest with
        | [] => [path]
        | _ => follow rest path
      else []

/-- The paths that fit the pieces, where `path` is an entry that the first
of them looks at. -/
def visit (d : Disk) (follow : List Piece → Path → List Path) (pieces : List Piece)
    (path : Path) : List Path :=
  match pieces with
  | .dirs :: _ =>
      let rest := pieces.dropWhile (· = .dirs)
      if d.isDir path then
        follow (.dirs :: rest) path ++
          if rest = [] then [path] else fitting follow path rest
      else fitting follow path rest
  | _ => fitting follow path pieces

/-- The entries of a directory. -/
def entries (d : Disk) (path : Path) : List Path :=
  match d.find true path with
  | .ok (place, .dir) => (d.names place).map (entry path)
  | _ => []

/-- The paths below `path` that fit the pieces, through so many
directories and no more. -/
def below (d : Disk) : (depth : Nat) → List Piece → Path → List Path
  | 0, _, _ => []
  | _ + 1, [], _ => []
  | depth + 1, piece :: rest, path =>
      let onward (next : Path) : List Path :=
        match rest with
        | [] => [next]
        | _ => below d depth rest next
      match piece with
      | .literal name =>
          if exists? d path name then onward (entry path name) else []
      | _ =>
          (entries d path).flatMap (visit d (below d depth) (piece :: rest)) ++
            if d.isDir path then
              (acceptedDots piece).flatMap fun name => onward (path.join ⟨name⟩)
            else []

/-- The paths that fit a pattern. Every directory on the way makes the path
longer or uses up a piece, so that the greatest length of a path bounds the
depth. -/
def Pattern.paths (d : Disk) (p : Pattern) : List Path :=
  below d (Disk.maxPath + p.pieces.length + 1) p.pieces p.start

end GroovyFindings.Glob
