import GroovyFindings.Disk.Edit
import GroovyFindings.Rule.Active
import GroovyFindings.Text.Blank
import GroovyFindings.Toml.Decode
import GroovyFindings.Toml.Document

/-!
# Quality profiles

A profile is a TOML document that lists the active rules. A rule has a key
and a class; its repository, name, severity and parameters have defaults.

## Main definitions

* `Profile.Error` — why a text is no profile.
* `Profile.parse` — the rules of a profile.
* `Profile.load` — the rules of a file, which may be missing unless it is
  required.
-/

namespace GroovyFindings.Profile

/-- Why there is no profile. -/
inductive Error where
  | toml (e : Toml.Error)
  /-- A rule has a blank key or class. -/
  | incomplete
  /-- The file is not there. -/
  | missing
  /-- The file cannot be read. -/
  | unreadable (f : Disk.Fault)
deriving DecidableEq, Repr

/-- A severity: its name, or the name with nothing in it. -/
def severity (v : Toml.Value) : Except Toml.Error Severity :=
  let name? : Option (List Char) := match v with
    | .string name => some name
    | .table _ [(name, .table _ [])] => some name
    | .table _ [(name, .array _ [])] => some name
    | _ => none
  match name?.bind fun name => Severity.ofName? (String.ofList name) with
  | some s => .ok s
  | none => .error (.mismatch "severity")

/-- A rule. -/
def rule (v : Toml.Value) : Except Toml.Error ActiveRule := do
  let r ← Toml.asRecord v
  let key ← r.required 0 "key" Toml.asString
  let configKey ← r.required 1 "config_key" Toml.asString
  let repository ← r.defaulted 2 "repository" Toml.asString
  let name ← r.defaulted 3 "name" Toml.asString
  let severity ← r.defaulted 4 "severity" severity
  let params ← r.defaulted 5 "params" Toml.asStrings
  return {
    ref := ⟨repository.getD linterRepository, key⟩
    configKey := configKey
    name := name.getD (ActiveRule.shortName configKey)
    severity := severity.getD default
    params := .ofList (params.getD []) }

/-- The rules that a document lists. -/
def rules (entries : Toml.Entries) : Except Toml.Error (List ActiveRule) := do
  return ((← (Toml.Record.named entries).defaulted 0 "rules" (Toml.asList rule))).getD []

/-- A rule that can be told from others. -/
def complete (r : ActiveRule) : Bool :=
  !Text.isBlankText r.ref.key && !Text.isBlankText r.configKey

/-- The rules of a profile. -/
def parse (text : List Char) : Except Error (List ActiveRule) :=
  match Toml.parse text >>= rules with
  | .ok rs => if rs.all complete then .ok rs else .error .incomplete
  | .error e => .error (.toml e)

/-- The rules of a profile file. -/
def load (d : Disk) (p : Path) (required : Bool) : Except Error (List ActiveRule) :=
  if d.present p then
    match d.readText p with
    | .ok text => parse text
    | .error f => .error (.unreadable f)
  else if required then .error .missing
  else .ok []

end GroovyFindings.Profile
