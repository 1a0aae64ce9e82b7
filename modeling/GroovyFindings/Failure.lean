import GroovyFindings.Linter.Status
import GroovyFindings.Report.Violation
import GroovyFindings.Rule.Profile
import GroovyFindings.Settings.File
import GroovyFindings.Source.Scan

/-!
# Why an analysis fails

## Main definitions

* `Failure` — the causes, `Failure.message` — in words.
-/

namespace GroovyFindings

/-- Why an analysis fails. -/
inductive Failure where
  /-- A file of the analysis cannot be used. -/
  | file (path : Path) (fault : Disk.Fault)
  /-- The report is none. -/
  | report (path : Path) (e : Report.Error)
  /-- The linter cannot be started. -/
  | launch (program : String) (fault : Disk.Fault)
  /-- The linter says that it has failed. -/
  | linter (program : String) (status : Linter.Status) (complaint : String)
  /-- The profile cannot be used. -/
  | profile (path : Path) (e : Profile.Error)
  /-- The settings cannot be used. -/
  | settings (e : Settings.Error)
  /-- A source directory is no pattern. -/
  | scan (e : Scan.Error)
deriving DecidableEq

namespace Failure

/-- A file that cannot be read, in words. -/
def unreadable (path : Path) (fault : Disk.Fault) : String :=
  "failed to read " ++ path.text ++ ": " ++ fault.message

/-- What is wrong with a profile, in words. -/
def profileMessage (path : Path) : Profile.Error → String
  | .toml e => "invalid profile " ++ path.text ++ ": " ++ e.message
  | .incomplete =>
      "invalid profile " ++ path.text ++
        ": every rule needs a non-empty key and config_key"
  | .missing => "invalid profile " ++ path.text ++ ": file not found"
  | .unreadable fault => unreadable path fault

/-- What is wrong with settings, in words. -/
def settingsMessage : Settings.Error → String
  | .toml path e => "config: " ++ path.text ++ ": " ++ e.message
  | .yaml path e => "config: " ++ path.text ++ ": " ++ e.message
  | .unreadable path fault => unreadable path fault

/-- Why an analysis fails, in words. -/
def message : Failure → String
  | .file path fault => unreadable path fault
  | .report path e => "malformed report " ++ path.text ++ ": " ++ e.message
  | .launch program fault =>
      "failed to launch " ++ program ++ ": " ++ fault.message
  | .linter program status complaint =>
      program ++ " exited with " ++ status.message ++ ": " ++ complaint
  | .profile path e => profileMessage path e
  | .settings e => settingsMessage e
  | .scan e => "config: " ++ e.message

end Failure

end GroovyFindings
