import GroovyFindings.Linter.Scope

/-!
# The linter's command line

The linter is a command that is told what to look at, which rules to run
and where to leave its report. Arguments of the configured command come
first.

## Main definitions

* `Request` — what a run of the linter is asked for.
* `Command`, `Command.ofWords` — the configured command.
* `Command.arguments` — all arguments for a request.
-/

namespace GroovyFindings.Linter

/-- What a run of the linter is asked for. -/
structure Request where
  sourceDirs : List Path
  /-- The patterns of the files to look at, separated by commas. -/
  includes : String
  ruleSet : Path
  report : Path
  title : String
deriving DecidableEq, Repr

/-- A program and the arguments that come first. -/
structure Command where
  program : String
  leading : List String
deriving DecidableEq, Repr

namespace Command

/-- The command of the given words; no words mean the linter by its own
name. -/
def ofWords : List String → Command
  | [] => ⟨"codenarc", []⟩
  | program :: leading => ⟨program, leading⟩

/-- The arguments that say where to look, and at which files. Without a
common ancestor the linter looks where it does by itself. -/
def scopeArguments (r : Request) : List String :=
  match commonAncestor? r.sourceDirs with
  | some base =>
      ["-basedir=" ++ base.text,
        "-includes=" ++
          String.ofList (scopedIncludes base r.sourceDirs r.includes.toList)]
  | none => ["-includes=" ++ r.includes]

/-- All arguments for a request. -/
def arguments (c : Command) (r : Request) : List String :=
  c.leading ++ scopeArguments r ++
    ["-rulesetfiles=file:" ++ r.ruleSet.text,
      "-report=xml:" ++ r.report.text,
      "-title=" ++ r.title]

end Command

end GroovyFindings.Linter
