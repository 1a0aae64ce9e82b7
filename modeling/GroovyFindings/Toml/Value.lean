/-!
# Values of a TOML document

Strings, numbers, truth values, moments, arrays and tables. A table
remembers how it came to be, because that decides what may still be added
to it while the document is read.

## Main definitions

* `Value`, `Origin` — a value, and how a table came to be.
* `Fault`, `Error` — what is wrong with a document, and where.
-/

namespace GroovyFindings.Toml

/-- How a table came to be. -/
inductive Origin where
  /-- Under a header of its own. -/
  | header
  /-- On the way to the table of another header. -/
  | implied
  /-- On the way of a dotted key. -/
  | dotted
  /-- Between braces: nothing can be added to it. -/
  | inline
deriving DecidableEq, Repr

/-- A value. -/
inductive Value where
  | string (chars : List Char)
  | integer (value : Int)
  | float (chars : List Char)
  | bool (value : Bool)
  /-- A date, a time or both. -/
  | moment (chars : List Char)
  /-- An array, and whether headers add to it. -/
  | array (growing : Bool) (elements : List Value)
  | table (origin : Origin) (entries : List (List Char × Value))
deriving Repr, Inhabited

/-- The entries of a table. -/
abbrev Entries := List (List Char × Value)

/-- What is wrong with a document. -/
inductive Cause where
  /-- The document ends too early. -/
  | ended
  /-- Something else stands where `expected` should. -/
  | expected (what : String)
  /-- A control character. -/
  | control
  /-- An escape sequence that there is not. -/
  | escape
  /-- A bare word that is no value. -/
  | word
  /-- A number beyond all bounds. -/
  | overflow
  /-- The key is there already. -/
  | duplicate (key : List Char)
  /-- The key does not lead to a table that can be added to. -/
  | closed (key : List Char)
deriving DecidableEq, Repr

/-- The words for what is wrong. -/
def Cause.message : Cause → String
  | .ended => "unexpected end of document"
  | .expected what => "expected " ++ what
  | .control => "control character"
  | .escape => "unknown escape sequence"
  | .word => "invalid value"
  | .overflow => "number overflowed"
  | .duplicate key => "duplicate key `" ++ String.ofList key ++ "`"
  | .closed key => "cannot extend `" ++ String.ofList key ++ "`"

/-- A fault, with the number of characters from there to the end. -/
structure Fault where
  cause : Cause
  left : Nat
deriving DecidableEq, Repr

/-- Why a text does not denote what it should. -/
inductive Error where
  /-- It is no document. -/
  | malformed (line column : Nat) (cause : Cause)
  /-- Something else is said than what is expected. -/
  | mismatch (expected : String)
deriving DecidableEq, Repr

/-- The error of a fault in a text. -/
def Fault.error (f : Fault) (text : List Char) : Error :=
  let before := text.take (text.length - f.left)
  .malformed (before.count '\n' + 1)
    ((before.reverse.takeWhile (· != '\n')).length + 1) f.cause

/-- The words for an error. -/
def Error.message : Error → String
  | .malformed line column cause =>
      "TOML parse error at line " ++ toString line ++ ", column " ++
        toString column ++ "\n" ++ cause.message
  | .mismatch expected => "TOML parse error\nexpected " ++ expected

end GroovyFindings.Toml
