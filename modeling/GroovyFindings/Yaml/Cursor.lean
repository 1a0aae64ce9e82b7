/-!
# A place in a YAML text

Columns decide how a YAML text is divided, so that a place in it knows its
line and column. A line may end in five ways; a carriage return and a line
feed make one ending.

## Main definitions

* `Cursor` — a place in a text.
* `Cursor.skip`, `Cursor.skipWhile`, `Cursor.lineEnd?` — moving on.
* `Cause`, `Error` — what is wrong with a text, and where.
-/

namespace GroovyFindings.Yaml

/-- What is wrong with a text. -/
inductive Cause where
  /-- A character that may not be in a text at all. -/
  | control
  /-- A character with which nothing begins. -/
  | stray
  /-- The text ends within something. -/
  | ended
  /-- A tab where only spaces count. -/
  | tab
  /-- A document begins or ends within a quoted scalar. -/
  | document
  /-- An escape sequence that there is not. -/
  | escape
  /-- What looks like a key is not followed by a colon. -/
  | noColon
  /-- An entry, key or value where there can be none. -/
  | misplaced
  /-- A colon in a plain scalar between brackets. -/
  | colon
  /-- A header of a block scalar that says something else. -/
  | blockHeader
  | anchor
  | tag
  | directive
  /-- A node is missing. -/
  | noNode
  /-- Something else stands where `what` should. -/
  | expected (what : String)
  /-- An alias for nothing. -/
  | unknownAlias
  /-- More than one document. -/
  | documents
  /-- A value of another kind than `what`. -/
  | kind (what : String)
  /-- A key that is there already. -/
  | duplicate (key : String)
deriving DecidableEq, Repr

/-- The words for what is wrong. -/
def Cause.message : Cause → String
  | .control => "control characters are not allowed"
  | .stray => "found character that cannot start any token"
  | .ended => "found unexpected end of stream"
  | .tab => "found a tab character that violates indentation"
  | .document => "found unexpected document indicator"
  | .escape => "found unknown escape character"
  | .noColon => "could not find expected ':'"
  | .misplaced => "not allowed in this context"
  | .colon => "found unexpected ':'"
  | .blockHeader => "did not find expected comment or line break"
  | .anchor => "did not find expected alphabetic or numeric character"
  | .tag => "did not find expected tag"
  | .directive => "did not find expected directive"
  | .noNode => "did not find expected node content"
  | .expected what => "did not find expected " ++ what
  | .unknownAlias => "unknown anchor"
  | .documents => "more than one document"
  | .kind what => "invalid type, expected " ++ what
  | .duplicate key => "duplicate field `" ++ key ++ "`"

/-- A place in a text. -/
structure Cursor where
  /-- What is left of the text. -/
  rest : List Char
  /-- The number of characters before. -/
  index : Nat := 0
  line : Nat := 0
  column : Nat := 0

/-- What is wrong, and where if it has a place. -/
structure Error where
  cause : Cause
  place : Option (Nat × Nat)
deriving DecidableEq, Repr

/-- The words for an error. -/
def Error.message (e : Error) : String :=
  match e.place with
  | some (line, column) =>
      e.cause.message ++ " at line " ++ toString (line + 1) ++ " column " ++
        toString (column + 1)
  | none => e.cause.message

/-- The five characters that end a line. -/
def isBreak (c : Char) : Bool :=
  c == '\n' || c == '\r' || c == '\x85' || c == '\u2028' || c == '\u2029'

/-- The space and the tab. -/
def isBlank (c : Char) : Bool := c == ' ' || c == '\t'

/-- A character of names: an ASCII letter or digit, an underscore or a
hyphen. -/
def isWord (c : Char) : Bool := c.isAlphanum || c == '_' || c == '-'

/-- A blank, a line ending or the end of the text. -/
def isGap : Option Char → Bool
  | some c => isBlank c || isBreak c
  | none => true

namespace Cursor

/-- The error of `cause` here. -/
def fail {α : Type} (c : Cursor) (cause : Cause) : Except Error α :=
  .error ⟨cause, some (c.line, c.column)⟩

/-- The character `n` places on. -/
def peek (c : Cursor) (n : Nat) : Option Char := c.rest[n]?

/-- The next character is `ch`. -/
def at? (c : Cursor) (ch : Char) : Bool := c.rest.head? == some ch

/-- The place `n` characters on in the same line. -/
def skip (c : Cursor) (n : Nat) : Cursor :=
  { c with rest := c.rest.drop n, index := c.index + n, column := c.column + n }

/-- The characters of a run in one line, and the place behind it. -/
def span (c : Cursor) (p : Char → Bool) : List Char × Cursor :=
  let run := c.rest.takeWhile p
  (run, c.skip run.length)

/-- The place behind a run. -/
def skipWhile (c : Cursor) (p : Char → Bool) : Cursor := (c.span p).2

/-- The text for which a line ending stands, and the place behind it. Only
the separators of lines and paragraphs stand for themselves. -/
def lineEnd? (c : Cursor) : Option (List Char × Cursor) :=
  let behind (n : Nat) : Cursor :=
    { rest := c.rest.drop n, index := c.index + n, line := c.line + 1, column := 0 }
  match c.rest with
  | '\r' :: '\n' :: _ => some (['\n'], behind 2)
  | ch :: _ =>
      if ch = '\u2028' ∨ ch = '\u2029' then some ([ch], behind 1)
      else if isBreak ch then some (['\n'], behind 1)
      else none
  | [] => none

/-- The place behind blanks and a comment. -/
def skipComment (c : Cursor) : Cursor :=
  let c := c.skipWhile isBlank
  if c.at? '#' then c.skipWhile (!isBreak ·) else c

/-- Three characters `ch` stand alone at the beginning of a line. -/
def marks (c : Cursor) (ch : Char) : Bool :=
  c.column == 0 && c.rest.take 3 == [ch, ch, ch] && isGap (c.peek 3)

/-- A document begins or ends here. -/
def atDocument (c : Cursor) : Bool := c.marks '-' || c.marks '.'

end Cursor

end GroovyFindings.Yaml
