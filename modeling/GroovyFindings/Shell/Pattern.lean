import GroovyFindings.Glob.Pattern

/-!
# Patterns in a script

Unquoted asterisks, question marks and brackets of a word stand for other
characters, slashes included. A bracket that is not closed stands for
itself.

## Main definitions

* `Field` — a text of which is known what is quoted.
* `Field.pattern` — its tokens.
* `afterStart`, `beforeEnd` — a text without what fits a pattern.
-/

namespace GroovyFindings.Shell

/-- Characters, each with whether it is quoted. -/
abbrev Field := List (Char × Bool)

/-- The characters of a field. -/
def Field.text (f : Field) : List Char := f.map Prod.fst

/-- The tokens that a field stands for as a pattern. -/
def Field.pattern : (f : Field) → List Glob.Token
  | [] => []
  | (c, quoted) :: rest =>
      if quoted then .char c :: pattern rest
      else if c = '*' then .anyName :: pattern rest
      else if c = '?' then .anyChar :: pattern rest
      else if c = '[' then
        match Glob.bracket? (rest.map Prod.fst) with
        | some (token, after) => token :: pattern (rest.drop (rest.length - after.length))
        | none => .char c :: pattern rest
      else .char c :: pattern rest
termination_by f => f.length
decreasing_by all_goals simp; try omega

/-- The lengths of the parts of a text, in the order in which they are
tried. -/
def lengths (longest : Bool) (text : List Char) : List Nat :=
  let upward := List.range (text.length + 1)
  if longest then upward.reverse else upward

/-- What follows the beginning of a text that fits a pattern; all of it if
there is none. -/
def afterStart (longest : Bool) (pattern : List Glob.Token) (text : List Char) :
    List Char :=
  let found := (lengths longest text).find? fun n => Glob.accepts pattern (text.take n)
  text.drop (found.getD 0)

/-- What precedes the end of a text that fits a pattern; all of it if there
is none. -/
def beforeEnd (longest : Bool) (pattern : List Glob.Token) (text : List Char) :
    List Char :=
  let found := (lengths longest text).find? fun n =>
    Glob.accepts pattern (text.drop (text.length - n))
  text.take (text.length - found.getD 0)

end GroovyFindings.Shell
