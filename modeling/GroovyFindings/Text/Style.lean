/-!
# Coloured text on a terminal

A terminal shows text in colour or in bold between two sequences that an
escape character begins.

## Main definitions

* `Colour`, `coloured`, `bold` — a text between such sequences.
-/

namespace GroovyFindings.Text

/-- The colours in use. -/
inductive Colour where
  | red
  | yellow
  | blue
  | grey
deriving DecidableEq, Repr

/-- The number by which a terminal knows a colour. -/
def Colour.code : Colour → String
  | .red => "31"
  | .yellow => "33"
  | .blue => "34"
  | .grey => "90"

/-- The sequence that a number stands in. -/
def sequence (code : String) : String := "\x1b[" ++ code ++ "m"

/-- A text in colour. -/
def coloured (c : Colour) (text : String) : String := sequence c.code ++ text ++ sequence "39"

/-- A text in bold. -/
def bold (text : String) : String := sequence "1" ++ text ++ sequence "0"

end GroovyFindings.Text
