import GroovyFindings.Json.Value
import GroovyFindings.Rendering.Human

/-!
# The result of an analysis as it is printed

## Main definitions

* `json` — the result as a JSON value.
* `rendered` — the result in the output that is asked for.
-/

namespace GroovyFindings.Rendering

/-- An issue as a JSON value. -/
def issueJson (i : Issue) : Json.Value :=
  Json.ofMembers [
    ("rule", Json.ofString i.rule.text),
    ("severity", Json.ofString i.severity.name),
    ("file", Json.ofString i.file),
    ("line", match i.line with
      | some line => .number line
      | none => .null),
    ("message", Json.ofString i.message)]

/-- The counts as a JSON value. -/
def summaryJson (s : Summary) : Json.Value :=
  Json.ofMembers [
    ("violations", .number s.violations),
    ("issues", .number s.issues),
    ("unknown_rules", .number s.unknownRules),
    ("unknown_files", .number s.unknownFiles),
    ("unattached", .number s.unattached)]

/-- The word for how an analysis has ended. -/
def status : Outcome → String
  | .skipped => "skipped"
  | .completed _ => "completed"

/-- The result as a JSON value. -/
def json (issues : List Issue) (outcome : Outcome) : Json.Value :=
  Json.ofMembers [
    ("status", Json.ofString (status outcome)),
    ("issues", .array (issues.map issueJson)),
    ("summary", summaryJson outcome.summary)]

/-- The result as it is printed: as JSON if that is the output asked for,
and otherwise for people. -/
def rendered (output : String) (colours : Bool) (issues : List Issue)
    (outcome : Outcome) : String :=
  if output = "json" then String.ofList ((json issues outcome).pretty ++ ['\n'])
  else human colours issues outcome

end GroovyFindings.Rendering
