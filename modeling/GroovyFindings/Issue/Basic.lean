import GroovyFindings.Rule.Active
import GroovyFindings.Source.File
import GroovyFindings.Text.Blank

/-!
# Issues

An issue is a violation bound to an active rule and a tracked file. The
host takes issues one at a time and may decline those of certain files.

## Main definitions

* `Issue`, `Issue.of` — an issue, and how it is made.
* `Sink` — the host's side.
* `emit` — offering one violation to a sink.
-/

namespace GroovyFindings

/-- A violation bound to a rule and a file. -/
structure Issue where
  rule : RuleRef
  severity : Severity
  file : String
  absolute : Path
  /-- The line; none for an issue about the file. -/
  line : Option Nat
  message : String
deriving DecidableEq, Repr

/-- The issue of a rule in a file. A blank message gives way to the name of
the rule. -/
def Issue.of (rule : ActiveRule) (file : TrackedFile) (line : Option Nat)
    (message : String) : Issue where
  rule := rule.ref
  severity := rule.severity
  file := file.relative
  absolute := file.absolute
  line := line
  message := if Text.isBlankText message then rule.name else message

/-- What takes issues: whether it takes those of a file may depend on what
it has taken before. -/
structure Sink (σ : Type) where
  accepts : σ → TrackedFile → Bool
  accept : σ → Issue → σ

/-- A sink that takes everything and keeps it in order. -/
def Sink.all : Sink (List Issue) where
  accepts _ _ := true
  accept taken issue := taken ++ [issue]

/-- What became of a violation. -/
inductive Emission where
  | emitted
  | unknownRule
  | unknownFile
  /-- The sink does not take issues of the file. -/
  | unattached
deriving DecidableEq, Repr

/-- Offers a violation, whose rule and file may have been found, to a
sink. -/
def emit {σ : Type} (sink : Sink σ) (state : σ) (rule : Option ActiveRule)
    (file : Option TrackedFile) (line : Option Nat) (message : String) :
    σ × Emission :=
  match rule, file with
  | none, _ => (state, .unknownRule)
  | some _, none => (state, .unknownFile)
  | some rule, some file =>
      if sink.accepts state file then
        (sink.accept state (Issue.of rule file line message), .emitted)
      else (state, .unattached)

end GroovyFindings
