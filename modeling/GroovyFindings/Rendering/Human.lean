import GroovyFindings.Analysis.Basic
import GroovyFindings.Text.Style

/-!
# The result of an analysis for people

Each issue takes a line, and the counts take the last one. On a terminal
the severity has an icon and a colour; otherwise the lines say the same
without them.

## Main definitions

* `plainLine`, `colouredLine` — an issue.
* `human` — the whole result.
* `errorPrefix` — what comes before the reason of a failure.
-/

namespace GroovyFindings.Rendering

/-- The place of an issue: its file, and its line if it has one. -/
def location (i : Issue) : String :=
  match i.line with
  | some line => i.file ++ ":" ++ toString line
  | none => i.file

/-- The severity of an issue between its brackets. -/
def tag (i : Issue) : String := "⟦" ++ i.severity.name ++ "⟧"

/-- The rule and the message of an issue. -/
def remark (i : Issue) : String := " ❲" ++ i.rule.text ++ "❳ — " ++ i.message

/-- The line of an issue without colours. -/
def plainLine (i : Issue) : String := tag i ++ " " ++ location i ++ remark i

/-- The icon of a severity. -/
def icon : Severity → String
  | .blocker | .critical => "✖"
  | .major => "▲"
  | .minor | .info => "◆"

/-- The colour of a severity. -/
def colour : Severity → Text.Colour
  | .blocker | .critical => .red
  | .major => .yellow
  | .minor | .info => .blue

/-- The line of an issue in colours. -/
def colouredLine (i : Issue) : String :=
  let c := colour i.severity
  Text.coloured c (icon i.severity) ++ " " ++ Text.bold (Text.coloured c (tag i)) ++
    " " ++ Text.bold (location i) ++ remark i

/-- What there is to say if there was nothing to do. -/
def skippedNote : String := "— Skipped — no active CodeNarc rules or no Groovy sources"

/-- The counts. -/
def summaryLine (s : Summary) : String :=
  "— Summary — violations=" ++ toString s.violations ++ " issues=" ++ toString s.issues ++
    " unknown_rules=" ++ toString s.unknownRules ++ " unknown_files=" ++
    toString s.unknownFiles ++ " unattached=" ++ toString s.unattached

/-- The lines of a result. -/
def humanLines (colours : Bool) (issues : List Issue) (outcome : Outcome) : List String :=
  match outcome, colours with
  | .skipped, true => [Text.coloured .grey skippedNote]
  | .skipped, false => [skippedNote]
  | .completed s, true => issues.map colouredLine ++ [Text.bold (summaryLine s)]
  | .completed s, false => issues.map plainLine ++ [summaryLine s]

/-- The result for people. -/
def human (colours : Bool) (issues : List Issue) (outcome : Outcome) : String :=
  String.join ((humanLines colours issues outcome).map (· ++ "\n"))

/-- What comes before the reason of a failure. -/
def errorPrefix (colours : Bool) : String :=
  if colours then Text.bold (Text.coloured .red "error:") else "error:"

end GroovyFindings.Rendering
