import GroovyFindings.Disk.Fault
import GroovyFindings.Text.Quoted
import GroovyFindings.Text.Utf8

/-!
# What can be wrong with an XML document

The faults that reading markup, attributes and character references can
run into, and the words for each. Offsets count bytes: in a text or value
for references, from the first byte of the tag's name for attributes.

## Main definitions

* `ReferenceError`, `AttributeError`, `Error` — the causes.
* `Error.message` — the words.
-/

namespace GroovyFindings.Xml

/-- What can be wrong with a reference between an ampersand and a
semicolon. -/
inductive ReferenceError where
  /-- A reference to character number zero; the offsets of the ampersand
  and of the semicolon. -/
  | null (start stop : Nat)
  /-- A name without a meaning, and where it stands. -/
  | unknown (start stop : Nat) (name : List Char)
  /-- No semicolon follows; the offset of the ampersand and the length of
  the text. -/
  | unterminated (start stop : Nat)
  /-- More hexadecimal digits than any character number has. -/
  | longHexadecimal
  /-- Not a hexadecimal digit. -/
  | badHexadecimal (c : Char)
  /-- More decimal digits than any character number has. -/
  | longDecimal
  /-- Not a decimal digit. -/
  | badDecimal (c : Char)
  /-- A number that no character has. -/
  | noCharacter (code : Nat)
deriving DecidableEq

/-- The words that say where a reference is wrong. -/
def ReferenceError.place (start stop : Nat) : String :=
  s!"Error while escaping character at range {start}..{stop}: "

/-- The words for a wrong reference. -/
def ReferenceError.message : ReferenceError → String
  | .null a b => place a b ++ "Null character entity not allowed"
  | .unknown a b name =>
      place a b ++ "Unrecognized escape symbol: " ++ Text.quoted name
  | .unterminated a b => place a b ++ "Cannot find ';' after '&'"
  | .longHexadecimal => "Cannot convert hexadecimal to utf8"
  | .badHexadecimal c => s!"'{c}' is not a valid hexadecimal character"
  | .longDecimal => "Cannot convert decimal to utf8"
  | .badDecimal c => s!"'{c}' is not a valid decimal character"
  | .noCharacter n => s!"'{n}' is not a valid codepoint"

/-- What can be wrong with an attribute. -/
inductive AttributeError where
  /-- Something other than an equals sign follows the key. -/
  | expectedEquals (pos : Nat)
  /-- Nothing follows the equals sign. -/
  | expectedValue (pos : Nat)
  /-- The value is not quoted. -/
  | unquoted (pos : Nat)
  /-- The quote is not closed. -/
  | unclosed (pos : Nat) (quote : Char)
  /-- The key has been used before, at `earlier`. -/
  | duplicated (pos earlier : Nat)
deriving DecidableEq

/-- The words for a wrong attribute. -/
def AttributeError.message : AttributeError → String
  | .expectedEquals p =>
      s!"position {p}: attribute key must be directly followed by `=` or space"
  | .expectedValue p =>
      s!"position {p}: `=` must be followed by an attribute value"
  | .unquoted p =>
      s!"position {p}: attribute value must be enclosed in `\"` or `'`"
  | .unclosed p q =>
      s!"position {p}: missing closing quote `{q}` in attribute value"
  | .duplicated p earlier =>
      s!"position {p}: duplicated attribute, previous declaration at position {earlier}"

/-- Constructs that the document can end inside of, or that do not begin
as they should. -/
inductive Construct where
  | bang
  | comment
  | cdata
  | doctype
  | declaration
deriving DecidableEq

/-- The name of a construct. -/
def Construct.name : Construct → String
  | .bang => "Bang"
  | .comment => "Comment"
  | .cdata => "CData"
  | .doctype => "DOCTYPE"
  | .declaration => "XmlDecl"

/-- What can be wrong with a document. -/
inductive Error where
  /-- The bytes could not be read to the end. -/
  | unreadable (fault : Disk.Fault)
  /-- Text or a value is not UTF-8. -/
  | notUtf8 (fault : Utf8.Fault)
  /-- A construct is not complete. -/
  | incomplete (construct : Construct)
  /-- The end tag does not match. -/
  | mismatch (expected found : List Char)
  /-- An unknown construct after an exclamation mark. -/
  | unknownBang (c : Char)
  /-- A document type without a name. -/
  | emptyDoctype
  /-- An attribute is wrong. -/
  | attribute (e : AttributeError)
  /-- A reference is wrong. -/
  | reference (e : ReferenceError)
deriving DecidableEq

/-- The words for a fault of the document. -/
def Error.message : Error → String
  | .unreadable f => "I/O error: " ++ f.message
  | .notUtf8 f => "Malformed UTF-8 input: " ++ f.message
  | .incomplete c => "Unexpected EOF during reading " ++ c.name
  | .mismatch expected found =>
      "Expecting </" ++ String.ofList expected ++ "> found </" ++
        String.ofList found ++ ">"
  | .unknownBang c =>
      "Only Comment (`--`), CDATA (`[CDATA[`) and DOCTYPE (`DOCTYPE`) nodes " ++
        s!"can start with a '!', but symbol `{c}` found"
  | .emptyDoctype => "DOCTYPE declaration must not be empty"
  | .attribute e => "error while parsing attribute: " ++ e.message
  | .reference e => e.message

end GroovyFindings.Xml
