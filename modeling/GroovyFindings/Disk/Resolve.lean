import GroovyFindings.Disk.Basic

/-!
# Following a path

A path is followed name by name from the root or from the current
directory. A symbolic link stands for its text, read where the link is; on
the way up, two dots lead to the directory that is really above. Names and
paths have a greatest length, and so many links are followed and no more.

## Main definitions

* `Target` — where a path leads.
* `walk`, `resolve` — following a path.
* `status?` — what a path leads to, `isFile`, `isDir`, `present`.
* `canonical` — the path of a place, without links and dots.
-/

namespace GroovyFindings.Disk

/-- Where a path leads. -/
inductive Target where
  /-- To a place with something there. -/
  | found (place : Place) (node : Node)
  /-- To a place in a directory, with nothing there. -/
  | absent (place : Place)
deriving DecidableEq

/-- The number of links that are followed for one path. -/
def maxLinks : Nat := 40

/-- The greatest number of bytes in a name. -/
def maxName : Nat := 255

/-- The greatest number of bytes in a path. -/
def maxPath : Nat := 4095

/--
Follows `segments` from the directory `here`, with `links` links left to be
followed. A link at the very end is followed if `follow` says so. Slashes
at the end ask for a directory, if there is anything.
-/
def walk (d : Disk) (follow : Bool) (links : Nat) (here : Place) :
    (segments : List (List Char)) → Except Fault Target
  | [] => .ok (.found here .dir)
  | segment :: rest =>
      if segment = [] ∨ segment = ['.'] then walk d follow links here rest
      else if segment = ['.', '.'] then walk d follow links here.dropLast rest
      else if maxName < Utf8.byteLength segment then .error .nameTooLong
      else
        let place := here ++ [segment]
        match d.node? place with
        | none =>
            if rest.all (·.isEmpty) then .ok (.absent place) else .error .missing
        | some .dir => walk d follow links place rest
        | some (.file content) =>
            if rest = [] then .ok (.found place (.file content))
            else .error .notDirectory
        | some (.link target) =>
            if rest = [] ∧ follow = false then .ok (.found place (.link target))
            else
              match links with
              | 0 => .error .tooManyLinks
              | links + 1 =>
                  if target.chars = [] then .error .missing
                  else
                    walk d follow links (if target.isAbsolute then [] else here)
                      (target.segments ++ rest)
termination_by segments => (links, segments.length)

/-- Where a path leads. -/
def resolve (d : Disk) (follow : Bool) (p : Path) : Except Fault Target :=
  if '\x00' ∈ p.chars then .error .nulInPath
  else if p.chars = [] then .error .missing
  else if maxPath < Utf8.byteLength p.chars then .error .nameTooLong
  else walk d follow maxLinks (if p.isAbsolute then [] else d.cwd) p.segments

/-- The place that a path leads to, and what is there. -/
def find (d : Disk) (follow : Bool) (p : Path) : Except Fault (Place × Node) :=
  match d.resolve follow p with
  | .ok (.found place node) => .ok (place, node)
  | .ok (.absent _) => .error .missing
  | .error f => .error f

/-- What a path leads to, through links. -/
def status? (d : Disk) (p : Path) : Option Node :=
  match d.find true p with
  | .ok (_, node) => some node
  | .error _ => none

/-- The path leads to something. -/
def present (d : Disk) (p : Path) : Bool := (d.status? p).isSome

/-- The path leads to something, be it a link that leads nowhere. -/
def presentItself (d : Disk) (p : Path) : Bool := (d.find false p).toOption.isSome

/-- The path leads to a directory. -/
def isDir (d : Disk) (p : Path) : Bool := d.status? p == some .dir

/-- The path leads to a file. -/
def isFile (d : Disk) (p : Path) : Bool :=
  match d.status? p with
  | some (.file _) => true
  | _ => false

/-- The absolute path of a place. -/
def pathOf (place : Place) : Path := ⟨'/' :: ['/'].intercalate place⟩

/-- The path of the place that a path leads to. -/
def canonical (d : Disk) (p : Path) : Except Fault Path :=
  (d.find true p).map fun found => pathOf found.1

end GroovyFindings.Disk
