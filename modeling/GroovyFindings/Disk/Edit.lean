import GroovyFindings.Disk.Resolve

/-!
# Reading and changing files

## Main definitions

* `opened`, `read`, `readText` — the content of a file.
* `write`, `remove`, `mkdir`, `mkdirs`, `symlink` — changing the disk.

Writing goes through links, also to a place where nothing is yet; removing
and making do not. `mkdirs` may have made some directories before it
fails, so it gives the disk in either case.
-/

namespace GroovyFindings.Disk

/-- Opens a file or a directory for reading. -/
def opened (d : Disk) (p : Path) : Except Fault Node := (d.find true p).map (·.2)

/-- What can be read from what has been opened. -/
def Node.content : Node → Except Fault (List UInt8)
  | .file content => .ok content
  | .dir => .error .isDirectory
  | .link _ => .error .tooManyLinks

/-- The bytes of a file. -/
def read (d : Disk) (p : Path) : Except Fault (List UInt8) :=
  match d.opened p with
  | .ok node => node.content
  | .error f => .error f

/-- The text of a file. -/
def readText (d : Disk) (p : Path) : Except Fault (List Char) :=
  match d.read p with
  | .ok bytes =>
      match Utf8.decode bytes with
      | .ok text => .ok text
      | .error _ => .error .notText
  | .error f => .error f

/-- A path that ends with a slash. -/
def endsWithSlash (p : Path) : Bool := p.chars.getLast? == some '/'

/-- Gives a file its content, and makes the file if need be. -/
def write (d : Disk) (p : Path) (content : List UInt8) : Except Fault Disk :=
  match d.resolve true p with
  | .ok (.found place (.file _)) => .ok (d.put place (.file content))
  | .ok (.found _ _) => .error .isDirectory
  | .ok (.absent place) =>
      if endsWithSlash p then .error .isDirectory
      else .ok (d.put place (.file content))
  | .error f => .error f

/-- Removes a file or a link. -/
def remove (d : Disk) (p : Path) : Except Fault Disk :=
  match d.find false p with
  | .ok (_, .dir) => .error .isDirectory
  | .ok (place, _) => .ok (d.erase place)
  | .error f => .error f

/-- A path without slashes at its end, unless it is all slashes. -/
def withoutSlash (p : Path) : Path :=
  match Text.dropEndWhile (· == '/') p.chars with
  | [] => p
  | chars => ⟨chars⟩

/-- Puts something new where nothing is. -/
def make (d : Disk) (p : Path) (node : Node) : Except Fault Disk :=
  match d.resolve false p with
  | .ok (.found _ _) => .error .taken
  | .ok (.absent place) => .ok (d.put place node)
  | .error f => .error f

/-- Makes a directory. -/
def mkdir (d : Disk) (p : Path) : Except Fault Disk := d.make (withoutSlash p) .dir

/-- Makes a symbolic link. -/
def symlink (d : Disk) (target p : Path) : Except Fault Disk := d.make p (.link target)

/-- Makes a directory and those above it that are missing. A directory that
is there already will do. -/
def mkdirs (d : Disk) (p : Path) : Disk × Except Fault Unit :=
  if p.chars = [] then (d, .ok ())
  else
    match d.mkdir p with
    | .ok d' => (d', .ok ())
    | .error .missing =>
        match _h : p.parent? with
        | none => (d, .error .missing)
        | some above =>
            match mkdirs d above with
            | (d', .error f) => (d', .error f)
            | (d', .ok ()) =>
                match d'.mkdir p with
                | .ok d'' => (d'', .ok ())
                | .error f => (d', if d'.isDir p then .ok () else .error f)
    | .error f => (d, if d.isDir p then .ok () else .error f)
termination_by p.chars.length
decreasing_by exact Path.length_lt_of_parent? (by assumption)

end GroovyFindings.Disk
