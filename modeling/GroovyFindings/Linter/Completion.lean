import GroovyFindings.Text.Affix
import GroovyFindings.Text.Decimal
import GroovyFindings.Text.Digit

/-!
# The linter's closing line

When it is done the linter says how many violations of each priority it
found and how long it took. The first passage of that shape counts: its
numbers may be of any length and in any script, but only ASCII digits
within the bounds denote a completion.

## Main definitions

* `Completion` — the four numbers.
* `passage?` — the passage at the beginning of a text.
* `completion?` — the completion that a text reports.
-/

namespace GroovyFindings.Linter

/-- What the linter says when it is done. -/
structure Completion where
  /-- Violations of the first priority. -/
  p1 : Nat
  /-- Violations of the second priority. -/
  p2 : Nat
  /-- Violations of the third priority. -/
  p3 : Nat
  millis : Nat
deriving DecidableEq, Repr

/-- The digits that follow a label at the beginning of a text, and what
follows them. -/
def labelled? (label text : List Char) : Option (List Char × List Char) := do
  let rest ← Text.stripStart? label text
  let digits := rest.takeWhile Text.isDecimalDigit
  if digits.isEmpty then none
  else some (digits, rest.dropWhile Text.isDecimalDigit)

/-- The digits of a passage. -/
structure Passage where
  p1 : List Char
  p2 : List Char
  p3 : List Char
  millis : List Char
deriving DecidableEq

/-- The passage at the beginning of a text. -/
def passage? (text : List Char) : Option Passage := do
  let (p1, text) ← labelled? "CodeNarc completed: (p1=".toList text
  let (p2, text) ← labelled? "; p2=".toList text
  let (p3, text) ← labelled? "; p3=".toList text
  let (millis, text) ← labelled? ") ".toList text
  let _ ← Text.stripStart? "ms".toList text
  return ⟨p1, p2, p3, millis⟩

/-- The first passage of a text. -/
def firstPassage? : (text : List Char) → Option Passage
  | [] => none
  | c :: rest =>
      match passage? (c :: rest) with
      | some p => some p
      | none => firstPassage? rest

/-- The numbers that the digits of a passage denote. -/
def Passage.completion? (p : Passage) : Option Completion := do
  let p1 ← Text.bounded? Text.maxWord32 p.p1
  let p2 ← Text.bounded? Text.maxWord32 p.p2
  let p3 ← Text.bounded? Text.maxWord32 p.p3
  let millis ← Text.bounded? Text.maxWord64 p.millis
  return ⟨p1, p2, p3, millis⟩

/-- The completion that a text reports. -/
def completion? (text : String) : Option Completion :=
  (firstPassage? text.toList).bind Passage.completion?

end GroovyFindings.Linter
