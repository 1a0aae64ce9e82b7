import GroovyFindings.Failure
import GroovyFindings.Issue.Tally
import GroovyFindings.Linter.Command
import GroovyFindings.Report.File
import GroovyFindings.Rule.Export
import GroovyFindings.Settings.Effective

/-!
# An analysis

An analysis takes place if there is an active rule and a Groovy file. It
reads the report it is told to, or else runs the linter and reads what the
linter leaves; then it offers the violations to the host. The linter finds
the rule set in the work directory, and no report of an earlier run.

## Main definitions

* `Plan` — what an analysis is told.
* `LinterRunner` — what runs the linter.
* `Analysis`, `Analysis.run` — an analysis, and what becomes of it.
-/

namespace GroovyFindings

/-- What an analysis is told. -/
structure Plan where
  /-- The report to read; nothing, or an empty path, asks for a run of the
  linter. -/
  reportPath : Option Path
  sourceDirs : List Path
  workDir : Path
  includes : String
  title : String
deriving DecidableEq, Repr

/-- What the settings in effect tell an analysis. -/
def Settings.Effective.plan (e : Settings.Effective) : Plan where
  reportPath := e.reportPath
  sourceDirs := e.mainDirs
  workDir := e.workDir
  includes := includesFor e.suffixes
  title := e.title

namespace Plan

/-- The report to read, if there is one. -/
def configuredReport (p : Plan) : Option Path := p.reportPath.filter fun r => r.chars ≠ []

/-- Where the linter finds its rules. -/
def ruleSetPath (p : Plan) : Path := p.workDir.child "codenarc-ruleset.xml"

/-- Where the linter leaves its report. -/
def generatedReport (p : Plan) : Path := p.workDir.child "codenarc-report.xml"

/-- What the linter is asked for. -/
def request (p : Plan) : Linter.Request where
  sourceDirs := p.sourceDirs
  includes := p.includes
  ruleSet := p.ruleSetPath
  report := p.generatedReport
  title := p.title

end Plan

/-- What runs the linter: it may remember things, and change the disk
whether it succeeds or not. -/
structure LinterRunner (κ : Type) where
  run : κ → Disk → Linter.Request → κ × Disk × Except Failure Unit

/-- How an analysis ends. -/
inductive Outcome where
  /-- There was nothing to do. -/
  | skipped
  | completed (summary : Summary)
deriving DecidableEq, Repr

/-- The counts of an outcome. -/
def Outcome.summary : Outcome → Summary
  | .skipped => {}
  | .completed s => s

/-- What an analysis is about. -/
structure Analysis where
  plan : Plan
  /-- The rules that are active for the linter. -/
  rules : List ActiveRule
  files : List TrackedFile

namespace Analysis

/-- The analysis of a profile's rules. -/
def ofProfile (plan : Plan) (profile : List ActiveRule) (files : List TrackedFile) :
    Analysis where
  plan := plan
  rules := inRepository profile linterRepository
  files := files

/-- There is something to do. -/
def wanted (a : Analysis) : Bool := !a.rules.isEmpty && hasGroovy a.files

/-- What violations are held against. -/
def catalog (a : Analysis) : Catalog := ⟨a.rules, a.files⟩

/-- Removes the report of an earlier run. -/
def removeStale (a : Analysis) (d : Disk) : Except Failure Disk :=
  let report := a.plan.generatedReport
  if d.present report then (d.remove report).mapError (.file report) else .ok d

/-- Writes the rule set. -/
def writeRuleSet (a : Analysis) (d : Disk) : Except Failure Disk :=
  let path := a.plan.ruleSetPath
  (d.write path (Utf8.ofString (ruleSet a.rules))).mapError (.file path)

/-- Prepares the work directory; gives the disk also if that fails. -/
def prepare (a : Analysis) (d : Disk) : Disk × Except Failure Unit :=
  match d.mkdirs a.plan.workDir with
  | (d, .error f) => (d, .error (.file a.plan.workDir f))
  | (d, .ok ()) =>
      match a.writeRuleSet d with
      | .error e => (d, .error e)
      | .ok d =>
          match a.removeStale d with
          | .error e => (d, .error e)
          | .ok d => (d, .ok ())

/-- Finds the report to read: the one configured, or the one that the
linter leaves. -/
def findReport {κ : Type} (a : Analysis) (linter : LinterRunner κ) (k : κ) (d : Disk) :
    κ × Disk × Except Failure Path :=
  match a.plan.configuredReport with
  | some path => (k, d, .ok path)
  | none =>
      match a.prepare d with
      | (d, .error e) => (k, d, .error e)
      | (d, .ok ()) =>
          match linter.run k d a.plan.request with
          | (k, d, .error e) => (k, d, .error e)
          | (k, d, .ok ()) => (k, d, .ok a.plan.generatedReport)

/-- Reads a report: its warnings, and its violations if it is one. -/
def readReport (d : Disk) (path : Path) :
    List Report.Warning × Except Failure (List Report.Violation) :=
  match Report.readOpened (Report.openReport d path) with
  | .error f => ([], .error (.file path f))
  | .ok r => (r.warnings, r.violations.mapError (.report path))

/-- What an analysis leaves behind. -/
structure Run (κ σ : Type) where
  linter : κ
  disk : Disk
  sink : σ
  warnings : List Report.Warning
  result : Except Failure Outcome

/-- Runs an analysis: the sink is offered nothing unless the report has been
read to its end. -/
def run {κ σ : Type} (a : Analysis) (linter : LinterRunner κ) (sink : Sink σ)
    (k : κ) (d : Disk) (s : σ) : Run κ σ :=
  if a.wanted then
    match a.findReport linter k d with
    | (k, d, .error e) => ⟨k, d, s, [], .error e⟩
    | (k, d, .ok path) =>
        match readReport d path with
        | (warnings, .error e) => ⟨k, d, s, warnings, .error e⟩
        | (warnings, .ok violations) =>
            let (s, summary) := a.catalog.process sink s violations
            ⟨k, d, s, warnings, .ok (.completed summary)⟩
  else ⟨k, d, s, [], .ok .skipped⟩

end Analysis

end GroovyFindings
