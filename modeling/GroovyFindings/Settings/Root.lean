import GroovyFindings.Disk.Resolve

/-!
# The root of a project

A project's root is the nearest directory that holds a settings file or a
repository, looking upward from where the program is started. If there is
none, the project is where the program is started.

## Main definitions

* `settingsNames`, `markers` — what a root may hold.
* `nearestMarked?` — the nearest root.
* `projectRoot` — the root of the project.
-/

namespace GroovyFindings.Settings

/-- The names of a settings file, in the order of preference. -/
def settingsNames : List String := ["narcbridge.toml", "narcbridge.yaml", "narcbridge.yml"]

/-- What makes a directory a root. -/
def markers : List String := settingsNames ++ [".git"]

/-- The path holds something that makes it a root. -/
def marked (d : Disk) (p : Path) : Bool := markers.any fun name => d.present (p.child name)

/-- The nearest root among a path and those above it. -/
def nearestMarked? (d : Disk) (p : Path) : Option Path :=
  if marked d p then some p
  else
    match _h : p.parent? with
    | some above => nearestMarked? d above
    | none => none
termination_by p.chars.length
decreasing_by exact Path.length_lt_of_parent? (by assumption)

/-- Where the search begins: the place of the path if it has one, so that a
relative path leads above the current directory. -/
def searchStart (d : Disk) (start : Path) : Path :=
  match d.canonical start with
  | .ok p => p
  | .error _ => start

/-- The root of the project. -/
def projectRoot (d : Disk) (start : Path) : Path :=
  let start := searchStart d start
  (nearestMarked? d start).getD start

end GroovyFindings.Settings
