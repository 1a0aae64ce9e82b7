import GroovyFindings.CommandLine.Basic

/-!
# Reading the command line

Arguments are read from left to right. A setting without an equals sign
takes the next argument for its value, unless that looks like a flag or a
setting; whether it has got one is asked when the next flag or setting is
known, or at the end. So an unknown argument is reported first.

## Main definitions

* `Progress` — what has been read.
* `argument` — reads one argument.
* `parse` — reads them all.
-/

namespace GroovyFindings.CommandLine

/-- What has been read. -/
structure Progress where
  verbosity : Nat := 0
  check : Bool := false
  options : Settings.Options := {}
  /-- A setting that has not been put yet, and its value if it is there. -/
  pending : Option (Setting × Option String) := none
deriving DecidableEq, Repr

namespace Progress

/-- Puts the pending setting. -/
def settle (p : Progress) : Except Refusal Progress :=
  match p.pending with
  | none => .ok p
  | some (_, none) => .error .valueMissing
  | some (s, some value) =>
      (s.put value p.options).map fun o => { p with options := o, pending := none }

/-- A setting waits for its value. -/
def awaiting (p : Progress) : Option Setting :=
  match p.pending with
  | some (s, none) => some s
  | _ => none

/-- What a flag does. -/
def flag (p : Progress) (f : Flag) : Except Refusal Progress := do
  let p ← p.settle
  match f with
  | .verbose => return { p with verbosity := min 255 (p.verbosity + 1) }
  | .help => .error .help
  | .version => .error .version
  | .check => if p.check then .error .repeated else return { p with check := true }

/-- What a setting does, with the value behind its equals sign if it has
one. -/
def setting (p : Progress) (s : Setting) (value : Option String) :
    Except Refusal Progress := do
  let p ← p.settle
  match value with
  | none => return { p with pending := some (s, none) }
  | some value => return { p with options := ← s.put value p.options }

end Progress

/-- Reads what follows two hyphens. -/
def longArgument (level : Level) (p : Progress) (body : List Char) :
    Except Refusal Progress :=
  let value := match body.dropWhile (· != '=') with
    | [] => none
    | _ :: v => some (String.ofList v)
  match meaning? level (String.ofList (body.takeWhile (· != '='))), value with
  | none, _ => .error .argumentUnknown
  | some (.flag _), some _ => .error .valueUnwanted
  | some (.flag f), none => p.flag f
  | some (.setting s), value => p.setting s value

/-- Reads the letters that follow a hyphen. -/
def letters (level : Level) (p : Progress) : List Char → Except Refusal Progress
  | [] => .ok p
  | c :: rest =>
      match letter? level c with
      | none => .error .argumentUnknown
      | some f =>
          match p.flag f with
          | .ok p => letters level p rest
          | .error e => .error e

/-- Reads an argument that is neither a flag nor a setting: it is a value,
or there is no place for it. -/
def word (level : Level) (p : Progress) (text : String) : Except Refusal Progress :=
  match p.awaiting with
  | some s => .ok { p with pending := some (s, some text) }
  | none => .error (if level = .program then .commandUnknown else .argumentUnknown)

/-- Reads one argument. -/
def argument (level : Level) (p : Progress) (text : String) : Except Refusal Progress :=
  match text.toList with
  | '-' :: '-' :: body => longArgument level p body
  | '-' :: c :: rest => letters level p (c :: rest)
  | _ => word level p text

/-- Reads the arguments of a command. Nothing may follow two hyphens. -/
def arguments (level : Level) (p : Progress) : List String → Except Refusal Progress
  | [] => p.settle
  | text :: rest =>
      if text = "--" then
        if rest.isEmpty then p.settle else .error .argumentUnknown
      else
        match argument level p text with
        | .ok p => arguments level p rest
        | .error e => .error e

/-- The commands, the one for help included. -/
def commands : List String := ["version", "analyze", "help"]

/-- Help about what `topic` names. -/
def help (topic : List String) : Refusal :=
  match topic with
  | [] => .help
  | [command] => if command ∈ commands then .help else .commandUnknown
  | _ => .commandUnknown

/-- Reads what follows a command. How often more logging is asked for after
the command counts, unless that is never. -/
def command (level : Level) (before : Progress) (rest : List String) :
    Except Refusal Invocation := do
  let p ← arguments level {} rest
  return {
    verbosity := if p.verbosity = 0 then before.verbosity else p.verbosity
    task := if level = .analyze then .analyze p.options p.check else .version }

/-- The refusal if there is no command. -/
def withoutCommand (p : Progress) : Refusal :=
  if p.verbosity = 0 then .nothingSaid else .commandMissing

/-- Reads the arguments from the first one on. -/
def parseFrom (p : Progress) : List String → Except Refusal Invocation
  | [] => .error (withoutCommand p)
  | text :: rest =>
      if text = "help" then .error (help rest)
      else if text = "version" then command .version p rest
      else if text = "analyze" then command .analyze p rest
      else if text = "--" then
        match rest with
        | [] => .error (withoutCommand p)
        | next :: _ =>
            .error (if next ∈ commands then .argumentUnknown else .commandUnknown)
      else
        match argument .program p text with
        | .ok p => parseFrom p rest
        | .error e => .error e

/-- What the arguments ask for. -/
def parse (args : List String) : Except Refusal Invocation := parseFrom {} args

end GroovyFindings.CommandLine
