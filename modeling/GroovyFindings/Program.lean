import GroovyFindings.CommandLine.Parse
import GroovyFindings.Rendering.Basic

/-!
# The program

The program reads its arguments, puts the settings together, looks for
sources, loads the profile and runs an analysis. What fails first ends it
with code 2 and a complaint, and then nothing is printed. Otherwise it
prints the result and ends with code 0, or with 1 if issues are to make it
fail and there are some.

## Main definitions

* `Ending` — what the program shows.
* `prepare` — all that comes before the analysis.
* `analyze`, `run` — the program.
-/

namespace GroovyFindings.Program

/-- The version of the program. -/
def version : String := "0.1.0"

/-- What the program shows when it ends. -/
structure Ending where
  code : Nat
  printed : String := ""
  /-- Why there is no result. -/
  complaint : Option String := none
deriving DecidableEq, Repr

/-- The ending if the analysis has failed. -/
def Ending.ofFailure (colours : Bool) (e : Failure) : Ending where
  code := 2
  complaint := some (Rendering.errorPrefix colours ++ " " ++ e.message)

/-- The ending if there is a result. -/
def Ending.ofOutcome (output : String) (colours check : Bool) (issues : List Issue)
    (outcome : Outcome) : Ending where
  code := if check && !issues.isEmpty then 1 else 0
  printed := Rendering.rendered output colours issues outcome

/-- The ending if the arguments lead to no task: help and the version are
printed, everything else is a complaint. -/
def Ending.ofRefusal (e : CommandLine.Refusal) : Ending :=
  match e with
  | .help => { code := e.exitCode, printed := CommandLine.usage }
  | .version => { code := e.exitCode, printed := version ++ "\n" }
  | _ => { code := e.exitCode, complaint := some (e.message ++ "\n" ++ CommandLine.usage) }

/-- What has been put together for an analysis. -/
structure Prepared where
  settings : Settings.Effective
  analysis : Analysis

/-- Puts together what an analysis needs. -/
def prepare (d : Disk) (o : Settings.Options) : Except Failure Prepared := do
  let settings ← (Settings.resolve d o).mapError .settings
  let files ← (scan d settings.baseDir settings.mainDirs settings.testDirs
    settings.suffixes).mapError .scan
  let rules ← (Profile.load d settings.profile settings.profileConfigured).mapError
    (.profile settings.profile)
  return ⟨settings, .ofProfile settings.plan rules files⟩

/-- What a run leaves. -/
structure Result (κ : Type) where
  /-- What the linter remembers. -/
  linter : κ
  disk : Disk
  /-- What is worth mentioning about the report. -/
  warnings : List Report.Warning := []
  ending : Ending

/-- The ending of a run of an analysis whose issues have been collected. -/
def endingOf {κ : Type} (output : String) (colours check : Bool)
    (r : Analysis.Run κ (List Issue)) : Ending :=
  match r.result with
  | .error e => .ofFailure colours e
  | .ok outcome => .ofOutcome output colours check r.sink outcome

/-- Runs an analysis with the linter that the words of its command denote. -/
def analyze {κ : Type} (linter : List String → LinterRunner κ) (k : κ) (d : Disk)
    (colours : Bool) (o : Settings.Options) (check : Bool) : Result κ :=
  match prepare d o with
  | .error e => { linter := k, disk := d, ending := .ofFailure colours e }
  | .ok p =>
      let r := p.analysis.run (linter p.settings.command) .all k d []
      { linter := r.linter
        disk := r.disk
        warnings := r.warnings
        ending := endingOf p.settings.output colours check r }

/-- Runs the program with its arguments. -/
def run {κ : Type} (linter : List String → LinterRunner κ) (k : κ) (d : Disk)
    (colours : Bool) (arguments : List String) : Result κ :=
  match CommandLine.parse arguments with
  | .error e => { linter := k, disk := d, ending := .ofRefusal e }
  | .ok ⟨_, .version⟩ =>
      { linter := k, disk := d, ending := { code := 0, printed := version ++ "\n" } }
  | .ok ⟨_, .analyze o check⟩ => analyze linter k d colours o check

end GroovyFindings.Program
