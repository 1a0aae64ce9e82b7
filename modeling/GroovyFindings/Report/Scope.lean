import GroovyFindings.Report.Violation
import GroovyFindings.Text.Blank
import GroovyFindings.Text.Decimal
import GroovyFindings.Xml.Tag

/-!
# Where the reader of a report stands

While a report is read, four things are remembered: the path of the
package, the file, the violation that is being read and whether its
message is. Each is set where an element of that name opens and cleared
where one closes; elements of other names change nothing.

## Main definitions

* `joinPackage`, `parseLine` — the file and line that a report denotes.
* `Scope` — what is remembered.
* `Scope.enter`, `Scope.leave`, `Scope.text` — opening an element, closing
  one, and text.
-/

namespace GroovyFindings.Report

/-- The path of a file in a package. Slashes at the ends of the package do
not count, and a package of nothing else adds nothing. -/
def joinPackage (package name : String) : String :=
  let path := Text.dropEndWhile (· == '/') (package.toList.dropWhile (· == '/'))
  if path.isEmpty then name else String.ofList path ++ "/" ++ name

/-- A line number: a positive number that fits in 32 bits, with or without
a plus sign, between blanks. -/
def parseLine (text : String) : Option Nat :=
  (Text.bounded? Text.maxWord32 (Text.trim text.toList)).filter (0 < ·)

/-- A violation whose element is open. -/
structure Pending where
  ruleKey : Option String
  line : Option Nat
  /-- The message as far as it has been read. -/
  message : List Char
deriving DecidableEq

/-- What is remembered while a report is read. -/
structure Scope where
  package : String := ""
  file : Option String := none
  pending : Option Pending := none
  inMessage : Bool := false
deriving DecidableEq

/-- Elements that mean something in a report. -/
inductive Element where
  | package
  | file
  | violation
  | message
deriving DecidableEq

/-- The element of a name. -/
def Element.ofName? (name : String) : Option Element :=
  if name = "Package" then some .package
  else if name = "File" then some .file
  else if name = "Violation" then some .violation
  else if name = "Message" then some .message
  else none

namespace Scope

/-- The scope behind a tag that opens `element`. -/
def enterElement (scope : Scope) (tag : Xml.Tag) : Element → Except Xml.Error Scope
  | .package => do
      let path ← tag.attribute? "path"
      return { scope with package := path.getD "" }
  | .file => do
      let name ← tag.attribute? "name"
      return { scope with file := some (joinPackage scope.package (name.getD "")) }
  | .violation => do
      let rule ← tag.attribute? "ruleName"
      let line ← tag.attribute? "lineNumber"
      return { scope with
        pending := some
          ⟨rule.filter fun key => !Text.isBlankText key, line.bind parseLine, []⟩ }
  | .message =>
      return { scope with inMessage := scope.inMessage || scope.pending.isSome }

/-- The scope behind an opening tag of the given name. -/
def enter (scope : Scope) (name : String) (tag : Xml.Tag) : Except Xml.Error Scope :=
  match Element.ofName? name with
  | some element => scope.enterElement tag element
  | none => .ok scope

/-- What a violation yields where its element closes. -/
def finish (file : Option String) (p : Pending) : Item :=
  match p.ruleKey, file with
  | none, _ => .warning .noRule
  | some _, none => .warning .noFile
  | some rule, some file =>
      .violation ⟨rule, file, p.line, String.ofList (Text.trim p.message)⟩

/-- The scope behind the end of an element of the given name, and what it
yields. -/
def leave (scope : Scope) (name : String) : Scope × Option Item :=
  match Element.ofName? name with
  | some .package => ({ scope with package := "" }, none)
  | some .file => ({ scope with file := none }, none)
  | some .violation =>
      ({ scope with pending := none }, scope.pending.map (finish scope.file))
  | some .message => ({ scope with inMessage := false }, none)
  | none => (scope, none)

/-- The scope behind a piece of text: it belongs to the message, if one is
being read. -/
def text (scope : Scope) (chars : List Char) : Scope :=
  match scope.pending, scope.inMessage with
  | some p, true =>
      { scope with pending := some { p with message := p.message ++ chars } }
  | _, _ => scope

end Scope

end GroovyFindings.Report
