import GroovyFindings.Xml.Error

/-!
# What a report says

A report is a list of violations in document order. A violation that names
no rule, or stands in no file, is passed over with a warning.

## Main definitions

* `Violation` — one finding of the linter.
* `Warning` — why a violation was passed over.
* `Item` — either of them, as a report yields them one after the other.
* `Error` — why a document is no report.
-/

namespace GroovyFindings.Report

/-- One finding of the linter. -/
structure Violation where
  /-- The rule, by its class or by its short name. -/
  ruleKey : String
  /-- The file as the linter wrote it. -/
  file : String
  /-- The line, counted from one; none for a finding about the file. -/
  line : Option Nat
  /-- The message, without blanks at its ends. -/
  message : String
deriving DecidableEq, Repr

/-- Why a violation was passed over. -/
inductive Warning where
  /-- It names no rule. -/
  | noRule
  /-- It stands in no file. -/
  | noFile
deriving DecidableEq, Repr

/-- The words for a warning. -/
def Warning.message : Warning → String
  | .noRule => "skipping violation without ruleName"
  | .noFile => "skipping violation outside of a File element"

/-- What one violation element of a report yields. -/
inductive Item where
  | violation (v : Violation)
  | warning (w : Warning)
deriving DecidableEq, Repr

/-- The violation of an item, if it is one. -/
def Item.violation? : Item → Option Violation
  | .violation v => some v
  | .warning _ => none

/-- The warning of an item, if it is one. -/
def Item.warning? : Item → Option Warning
  | .violation _ => none
  | .warning w => some w

/-- Why a document is no report. -/
inductive Error where
  /-- It is not well-formed. -/
  | xml (e : Xml.Error)
  /-- It ends inside an element of that name. -/
  | truncated (name : String)
  /-- It has no element. -/
  | empty
  /-- A second element of that name stands beside the first. -/
  | extraRoot (name : String)
deriving DecidableEq

/-- The words for a faulty document. -/
def Error.message : Error → String
  | .xml e => e.message
  | .truncated name => "document ended inside <" ++ name ++ ">"
  | .empty => "document has no root element"
  | .extraRoot name => "second root element <" ++ name ++ ">"

end GroovyFindings.Report
