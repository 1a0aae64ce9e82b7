import GroovyFindings.Toml.Value

/-!
# Adding to tables

A header opens a table once. It may open one that other headers only led
through, and it leads through any table that was not written between
braces; an array of headed tables it enters at its last element. A dotted
key leads only through tables that dotted keys have made.

## Main definitions

* `within` — changes the table that a header leads to.
* `openTable`, `openElement` — what a header does.
* `define` — what a key with a value does.
-/

namespace GroovyFindings.Toml

/-- A change of a table. -/
abbrev Change := Entries → Except Cause Entries

/-- Changes what a table holds under a key. -/
def alter (key : List Char) (f : Option Value → Except Cause Value) : Change
  | [] => (f none).map fun v => [(key, v)]
  | (k, v) :: rest =>
      if k = key then (f (some v)).map fun v' => (k, v') :: rest
      else (alter key f rest).map ((k, v) :: ·)

/-- Changes the last of the tables that an array holds. -/
def alterLast (key : List Char) (f : Change) : List Value → Except Cause (List Value)
  | [] => .error (.closed key)
  | [.table origin entries] => (f entries).map fun es => [.table origin es]
  | [_] => .error (.closed key)
  | v :: rest => (alterLast key f rest).map (v :: ·)

/-- Changes the table to which a header with the given path leads. -/
def within : (path : List (List Char)) → Change → Change
  | [], f => f
  | key :: path, f =>
      alter key fun
        | none => (within path f []).map (.table .implied)
        | some (.table .inline _) => .error (.closed key)
        | some (.table origin entries) => (within path f entries).map (.table origin)
        | some (.array true elements) =>
            (alterLast key (within path f) elements).map (.array true)
        | some _ => .error (.closed key)

/-- Opens the table of a header. -/
def openTable (key : List Char) : Change :=
  alter key fun
    | none => .ok (.table .header [])
    | some (.table .implied entries) => .ok (.table .header entries)
    | some _ => .error (.duplicate key)

/-- Opens one more element of an array of headed tables. -/
def openElement (key : List Char) : Change :=
  alter key fun
    | none => .ok (.array true [.table .header []])
    | some (.array true elements) => .ok (.array true (elements ++ [.table .header []]))
    | some _ => .error (.duplicate key)

/-- Gives a value to a key, which dots may divide. -/
def define : (path : List (List Char)) → Value → Change
  | [], _ => .ok
  | [key], v =>
      alter key fun
        | none => .ok v
        | some _ => .error (.duplicate key)
  | key :: path, v =>
      alter key fun
        | none => (define path v []).map (.table .dotted)
        | some (.table .dotted entries) => (define path v entries).map (.table .dotted)
        | some (.table .implied entries) =>
            if path.length ≤ 1 then .error (.duplicate key)
            else (define path v entries).map (.table .implied)
        | some (.table _ _) => .error (.duplicate key)
        | some _ => .error (.closed key)

end GroovyFindings.Toml
