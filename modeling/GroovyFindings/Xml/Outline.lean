import GroovyFindings.Xml.Reference

/-!
# Writing a document

A document without text is written one tag a line, each line indented by
two spaces for every element that is open. Nothing follows the last tag.

## Main definitions

* `Property`, `Mark` — what is written.
* `Mark.chars` — one tag.
* `outline` — a document.
-/

namespace GroovyFindings.Xml

/-- An attribute to be written: its value is not escaped yet. -/
structure Property where
  name : List Char
  value : List Char
deriving DecidableEq

/-- One line of a document. -/
inductive Mark where
  /-- The declaration that a document begins with. -/
  | declaration
  | start (name : List Char) (attributes : List Property)
  | empty (name : List Char) (attributes : List Property)
  | close (name : List Char)
deriving DecidableEq

/-- An attribute in a tag: a blank, the name, and the escaped value between
quotes. -/
def Property.chars (a : Property) : List Char :=
  ' ' :: a.name ++ '=' :: '"' :: escape a.value ++ ['"']

/-- A tag as it is written. -/
def Mark.chars : Mark → List Char
  | .declaration => "<?xml version=\"1.0\" encoding=\"UTF-8\"?>".toList
  | .start name attributes =>
      '<' :: name ++ attributes.flatMap Property.chars ++ ['>']
  | .empty name attributes =>
      '<' :: name ++ attributes.flatMap Property.chars ++ ['/', '>']
  | .close name => '<' :: '/' :: name ++ ['>']

/-- The lines of a document, at whose beginning `depth` elements are
open. -/
def outlineLines (depth : Nat) : List Mark → List (List Char)
  | [] => []
  | m :: rest =>
      let depth' := match m with
        | .close _ => depth - 1
        | _ => depth
      let inner := match m with
        | .start _ _ => depth + 1
        | _ => depth'
      (List.replicate (2 * depth') ' ' ++ m.chars) :: outlineLines inner rest

/-- A document. -/
def outline (marks : List Mark) : List Char :=
  ['\n'].intercalate (outlineLines 0 marks)

end GroovyFindings.Xml
