import GroovyFindings.Disk.Fault
import GroovyFindings.Path.Basic
import GroovyFindings.Text.Utf8

/-!
# A disk

A disk is a set of places with what is there, and the directory in which
relative paths begin. A place is the list of names that leads to it from
the root, without links. The root is a directory on every disk.

## Main definitions

* `Node`, `Place`, `Disk` — what can be at a place, and a disk.
* `Disk.node?` — what is at a place.
* `Disk.put`, `Disk.erase` — the disk with a place changed.
* `Disk.names` — the entries of a directory.

## Main results

* `node?_put_self`, `node?_put_of_ne` — a place that is put holds what was
  put there, and no other place changes.
-/

namespace GroovyFindings

/-- What can be at a place. -/
inductive Disk.Node where
  | file (content : List UInt8)
  /-- A symbolic link with its text. -/
  | link (target : Path)
  | dir
deriving DecidableEq, Repr

/-- The names that lead to a place, outermost first. -/
abbrev Place := List (List Char)

/-- Places with what is there, and where relative paths begin. -/
structure Disk where
  entries : List (Place × Disk.Node)
  cwd : Place
deriving Inhabited

namespace Disk

/-- A disk with nothing on it. -/
def blank : Disk := ⟨[], []⟩

/-- What is at a place. -/
def node? (d : Disk) (place : Place) : Option Node :=
  if place = [] then some .dir
  else (d.entries.find? fun e => e.1 = place).map (·.2)

/-- The disk with nothing at a place. -/
def erase (d : Disk) (place : Place) : Disk :=
  { d with entries := d.entries.filter fun e => e.1 ≠ place }

/-- The disk with something at a place. -/
def put (d : Disk) (place : Place) (node : Node) : Disk :=
  { d with entries := (place, node) :: (d.erase place).entries }

/-- The names in a directory, in no particular order. -/
def names (d : Disk) (place : Place) : List (List Char) :=
  d.entries.filterMap fun e => if e.1.dropLast = place then e.1.getLast? else none

@[simp] theorem node?_nil (d : Disk) : d.node? [] = some .dir := by simp [node?]

theorem node?_put_self (d : Disk) {place : Place} (node : Node) (h : place ≠ []) :
    (d.put place node).node? place = some node := by
  simp [node?, put, h]

theorem node?_put_of_ne (d : Disk) {place other : Place} (node : Node)
    (h : other ≠ place) : (d.put place node).node? other = d.node? other := by
  unfold node? put erase
  split
  · rfl
  · have hne : ¬ place = other := Ne.symm h
    simp only [List.find?_cons, hne, decide_false, List.find?_filter]
    congr 3
    funext e
    by_cases he : e.1 = other
    · simp [he, h]
    · simp [he]

end Disk

end GroovyFindings
