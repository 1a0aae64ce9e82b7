import GroovyFindings.Shell.Pattern
import GroovyFindings.Shell.State
import GroovyFindings.Shell.Word

/-!
# What words stand for

Values are put in for the parameters of a word. Blanks in values that are
not quoted then divide the word into fields; where a single field is
wanted, they do not.

## Main definitions

* `Piece` — what is divided into fields.
* `fields`, `field` — the fields of a word, or the one field.
-/

namespace GroovyFindings.Shell

/-- What is divided into fields. -/
inductive Piece where
  | char (c : Char) (quoted : Bool)
  /-- There is a field here, even if it is empty. -/
  | mark
  /-- A blank that divides. -/
  | blank (c : Char)
deriving DecidableEq

/-- The pieces of a value. -/
def valuePieces (quoted : Bool) (value : List Char) : List Piece :=
  if quoted then .mark :: value.map fun c => .char c true
  else value.map fun c => if isSpace c || c = '\n' then .blank c else .char c false

/-- Values in fields of their own. -/
def listPieces (quoted : Bool) (values : List (List Char)) : List Piece :=
  [Piece.blank ' '].intercalate (values.map (valuePieces quoted))

/-- A piece of text that stands for a value. -/
def Piece.loosen : Piece → Piece
  | .char c false => if isSpace c || c = '\n' then .blank c else .char c false
  | p => p

/-- The one field of some pieces. -/
def joined (pieces : List Piece) : Field :=
  pieces.filterMap fun
    | .char c quoted => some (c, quoted)
    | .blank c => some (c, false)
    | .mark => none

/-- The pieces of a parameter, given those of its operator's argument. -/
def parameterPieces (s : State) (quoted : Bool) (name : List Char) (operator : Operator)
    (argument : List Piece) : List Piece :=
  let whole := s.value? name
  let value := whole.getD []
  let given (emptyToo : Bool) : Bool := whole.isSome && !(emptyToo && value.isEmpty)
  let plain :=
    if name = ['@'] ∨ (name = ['*'] ∧ quoted = false) then listPieces quoted s.arguments
    else valuePieces quoted value
  match operator with
  | .value => plain
  | .length => valuePieces quoted (toString value.length).toList
  | .afterStart longest =>
      valuePieces quoted (afterStart longest (joined argument).pattern value)
  | .beforeEnd longest =>
      valuePieces quoted (beforeEnd longest (joined argument).pattern value)
  | .otherwise emptyToo => if given emptyToo then plain else argument.map Piece.loosen
  | .instead emptyToo => if given emptyToo then argument.map Piece.loosen else []

mutual

/-- The pieces of a part. -/
def partPieces (s : State) : Part → List Piece
  | .text quoted chars =>
      (if quoted then [.mark] else []) ++ chars.map fun c => .char c quoted
  | .parameter quoted name operator argument =>
      parameterPieces s quoted name operator (wordPieces s argument)
  | .output _ _ => []
  | .value quoted chars => valuePieces quoted chars

/-- The pieces of a word. -/
def wordPieces (s : State) : List Part → List Piece
  | [] => []
  | p :: rest => partPieces s p ++ wordPieces s rest

end

/-- The fields of some pieces, the first of which continue a field if there
is one. -/
def fieldsFrom (current : Option Field) : (pieces : List Piece) → List Field
  | [] => current.toList
  | .blank _ :: rest => current.toList ++ fieldsFrom none rest
  | .mark :: rest => fieldsFrom (some (current.getD [])) rest
  | .char c quoted :: rest => fieldsFrom (some (current.getD [] ++ [(c, quoted)])) rest

/-- The fields of a word. -/
def fields (s : State) (w : Word) : List Field := fieldsFrom none (wordPieces s w)

/-- The one field of a word. -/
def field (s : State) (w : Word) : Field := joined (wordPieces s w)

end GroovyFindings.Shell
