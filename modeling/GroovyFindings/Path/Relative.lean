import GroovyFindings.Path.Basic

/-!
# A path as seen from another

The components that two paths begin with alike are left out; one pair of
dots leads out of each component of the base that is left, and what is
left of the path follows. There is no such path out of a base that goes
up by two dots, or from an absolute base to a relative path.

## Main definitions

* `Path.relativeTo?` — the path as seen from a base.
-/

namespace GroovyFindings.Path

/-- Two dots for each component that is left of a base. -/
def climbs (base : List Component) : List Component := base.map fun _ => .up

/--
The components of a path as seen from a base. While `together` holds, the
two have been alike so far. A single dot at the beginning of the base, and
not of the path, stands for any component.
-/
def relativeComponents? (together : Bool) :
    (path base : List Component) → Option (List Component)
  | path, [] => some path
  | [], base => some (climbs base)
  | a :: path, b :: base =>
      if together && a = b then relativeComponents? together path base
      else if b = .here then (relativeComponents? false path base).map (a :: ·)
      else if b = .up then none
      else some (climbs (b :: base) ++ a :: path)

/-- The path as seen from a base, if there is one. -/
def relativeTo? (p base : Path) : Option Path :=
  if p.isAbsolute = base.isAbsolute then
    (relativeComponents? true p.components base.components).map ofComponents
  else if p.isAbsolute then some p
  else none

end GroovyFindings.Path
