import GroovyFindings.Settings.Effective

/-!
# What can be said on the command line

There are two commands. Flags stand alone and have a long name, and some of
them a letter; settings take a value and have a long name only. Which of
them are known depends on the command they follow.

## Main definitions

* `Invocation` — what the arguments ask for, `Refusal` — why they cannot be
  followed, `usage` — what they can be.
* `Flag`, `Setting` — what can be said, `Level` — where it is said.
* `meaning?`, `letter?` — what a name and a letter mean at a level.
-/

namespace GroovyFindings.CommandLine

/-- What there is to do. -/
inductive Task where
  /-- Print the version. -/
  | version
  /-- Run an analysis; with `check` issues make the run fail. -/
  | analyze (options : Settings.Options) (check : Bool)
deriving DecidableEq, Repr

/-- What the arguments ask for. -/
structure Invocation where
  /-- How much is logged. -/
  verbosity : Nat
  task : Task
deriving DecidableEq, Repr

/-- Why the arguments lead to no task. -/
inductive Refusal where
  /-- Help is asked for. -/
  | help
  /-- The version is asked for, by a flag. -/
  | version
  /-- There is nothing to go by. -/
  | nothingSaid
  /-- There are flags, but there is no command. -/
  | commandMissing
  | commandUnknown
  | argumentUnknown
  /-- A setting lacks its value. -/
  | valueMissing
  /-- What may be said once is said again. -/
  | repeated
  /-- A flag has a value. -/
  | valueUnwanted
deriving DecidableEq, Repr

/-- The exit code if there is no task: help and the version are answers,
everything else is an error. -/
def Refusal.exitCode : Refusal → Nat
  | .help | .version => 0
  | _ => 2

/-- Why the arguments lead to no task, in words. -/
def Refusal.message : Refusal → String
  | .help => "help is asked for"
  | .version => "the version is asked for"
  | .nothingSaid | .commandMissing => "a command is missing"
  | .commandUnknown => "there is no such command"
  | .argumentUnknown => "there is no such argument"
  | .valueMissing => "an argument lacks its value"
  | .repeated => "an argument is given twice"
  | .valueUnwanted => "a flag takes no value"

/-- What can be said on the command line. -/
def usage : String :=
  "usage: version | analyze [--base-dir DIR] [--profile FILE] [--report-path FILE]\n" ++
  "  [--source-dir DIR]... [--work-dir DIR] [--output human|json] [--check]\n" ++
  "  [-v]... [-h]\n"

/-- What stands alone. -/
inductive Flag where
  | verbose
  | help
  | version
  | check
deriving DecidableEq, Repr

/-- What takes a value. -/
inductive Setting where
  | baseDir
  | profile
  | reportPath
  | sourceDir
  | workDir
  | output
deriving DecidableEq, Repr

/-- Where an argument stands: before a command, or after one. -/
inductive Level where
  | program
  | version
  | analyze
deriving DecidableEq, Repr

/-- What a name means. -/
inductive Meaning where
  | flag (f : Flag)
  | setting (s : Setting)
deriving DecidableEq, Repr

/-- The settings by name. -/
def settings : List (String × Setting) :=
  [("base-dir", .baseDir), ("profile", .profile), ("report-path", .reportPath),
    ("source-dir", .sourceDir), ("work-dir", .workDir), ("output", .output)]

/-- What a name means at a level. -/
def meaning? (level : Level) (name : String) : Option Meaning :=
  if name = "verbose" then some (.flag .verbose)
  else if name = "help" then some (.flag .help)
  else
    match level with
    | .program => if name = "version" then some (.flag .version) else none
    | .version => none
    | .analyze =>
        if name = "check" then some (.flag .check)
        else (settings.lookup name).map .setting

/-- What a letter means at a level. -/
def letter? (level : Level) (c : Char) : Option Flag :=
  if c = 'v' then some .verbose
  else if c = 'h' then some .help
  else if c = 'V' ∧ level = .program then some .version
  else none

/-- A value that may be given once. -/
def once (present : Option String) (value : String) : Except Refusal (Option String) :=
  if present.isSome then .error .repeated else .ok (some value)

/-- Gives a setting a value; only source directories may be several. -/
def Setting.put (s : Setting) (value : String) (o : Settings.Options) :
    Except Refusal Settings.Options :=
  match s with
  | .baseDir => (once o.baseDir value).map fun v => { o with baseDir := v }
  | .profile => (once o.profile value).map fun v => { o with profile := v }
  | .reportPath => (once o.reportPath value).map fun v => { o with reportPath := v }
  | .sourceDir => .ok { o with sourceDirs := o.sourceDirs ++ [value] }
  | .workDir => (once o.workDir value).map fun v => { o with workDir := v }
  | .output => (once o.output value).map fun v => { o with output := v }

end GroovyFindings.CommandLine
