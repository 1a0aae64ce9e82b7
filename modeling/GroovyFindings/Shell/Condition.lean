import GroovyFindings.Shell.State
import GroovyFindings.Text.Decimal

/-!
# Conditions

A condition is about files, texts or numbers, and is told by how many
arguments it has.

## Main definitions

* `condition` — whether a condition holds.
-/

namespace GroovyFindings.Shell

/-- The number that a text denotes. -/
def number? (text : List Char) : Option Int :=
  match text with
  | '-' :: digits => (Text.natValue? digits).map fun n => -(n : Int)
  | '+' :: digits => (Text.natValue? digits).map Int.ofNat
  | digits => (Text.natValue? digits).map Int.ofNat

/-- A condition about one thing, if there is such a one. -/
def unary? (d : Disk) (operator operand : List Char) : Option Bool :=
  let path : Path := ⟨operand⟩
  match operator with
  | ['-', 'n'] => some (operand != [])
  | ['-', 'z'] => some (operand == [])
  | ['-', 'e'] => some (d.present path)
  | ['-', 'f'] => some (d.isFile path)
  | ['-', 'd'] => some (d.isDir path)
  | ['-', 'r'] | ['-', 'w'] => some (d.present path)
  | ['-', 'x'] => some (d.isDir path)
  | ['-', 's'] =>
      some (match d.status? path with
        | some (.file content) => content != []
        | some _ => true
        | none => false)
  | ['-', 'h'] | ['-', 'L'] =>
      some (match d.find false path with
        | .ok (_, .link _) => true
        | _ => false)
  | _ => none

/-- A comparison of numbers, if there is such a one. -/
def comparison? (operator : List Char) : Option (Int → Int → Bool) :=
  match operator with
  | ['-', 'e', 'q'] => some fun a b => a == b
  | ['-', 'n', 'e'] => some fun a b => a != b
  | ['-', 'l', 't'] => some fun a b => a < b
  | ['-', 'l', 'e'] => some fun a b => a ≤ b
  | ['-', 'g', 't'] => some fun a b => a > b
  | ['-', 'g', 'e'] => some fun a b => a ≥ b
  | _ => none

/-- A condition about two things, if there is such a one. -/
def binary? (a operator b : List Char) : Option (Except String Bool) :=
  match operator with
  | ['='] => some (.ok (a == b))
  | ['!', '='] => some (.ok (a != b))
  | _ => (comparison? operator).map fun holds =>
      match number? a, number? b with
      | some a, some b => .ok (holds a b)
      | none, _ => .error ("Illegal number: " ++ String.ofList a)
      | _, none => .error ("Illegal number: " ++ String.ofList b)

/-- Whether a condition holds, or what is wrong with it. -/
def condition (d : Disk) : (arguments : List (List Char)) → Except String Bool
  | [] => .ok false
  | [a] => .ok (a != [])
  | [a, b] =>
      if a = ['!'] then .ok (b == [])
      else
        match unary? d a b with
        | some holds => .ok holds
        | none => .error (String.ofList a ++ ": unexpected operator")
  | [a, b, c] =>
      match binary? a b c with
      | some result => result
      | none =>
          if a = ['!'] then (condition d [b, c]).map not
          else .error (String.ofList b ++ ": unexpected operator")
  | a :: rest =>
      if a = ['!'] then (condition d rest).map not
      else .error (String.ofList a ++ ": unexpected operator")

end GroovyFindings.Shell
