import GroovyFindings.Analysis.Basic
import GroovyFindings.Linter.Completion

/-!
# Starting the linter

The linter is a program that some machine starts. If it fails, the last
lines of its complaints tell why; if it succeeds, its closing line may say
how many violations there are.

## Main definitions

* `Ended`, `Machine` — what a program leaves, and what starts programs.
* `tailLines` — the last lines of a text.
* `Command.runner` — what runs a configured command on a machine.
-/

namespace GroovyFindings.Linter

/-- What a program that has ended leaves besides the disk. -/
structure Ended where
  status : Status
  /-- What it has printed. -/
  output : List UInt8
  /-- What it has complained. -/
  complaints : List UInt8
deriving DecidableEq

/-- What starts programs. A program may change the disk. -/
structure Machine where
  start : Disk → (program : String) → (arguments : List String) →
    Except Disk.Fault (Disk × Ended)

/-- The number of lines of complaints that are shown. -/
def shownLines : Nat := 20

/-- The last lines of a text, without blanks at its end. -/
def tailLines (count : Nat) (text : List Char) : List Char :=
  let lines := Text.lines (Text.dropEndWhile Text.isBlank text)
  ['\n'].intercalate (lines.drop (lines.length - count))

/-- The failure of a command, if what it leaves is one. -/
def Command.failure? (c : Command) (e : Ended) : Option Failure :=
  if e.status.success then none
  else some (.linter c.program e.status
    (String.ofList (tailLines shownLines (Utf8.decodeLossy e.complaints))))

/-- What runs a command on a machine, and remembers the completion that was
reported last. -/
def Command.runner (c : Command) (m : Machine) : LinterRunner (Option Completion) where
  run last d request :=
    match m.start d c.program (c.arguments request) with
    | .error f => (last, d, .error (.launch c.program f))
    | .ok (d, e) =>
        match c.failure? e with
        | some failure => (last, d, .error failure)
        | none => (completion? (Utf8.lossyString e.output), d, .ok ())

end GroovyFindings.Linter
