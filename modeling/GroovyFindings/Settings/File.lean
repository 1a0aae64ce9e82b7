import GroovyFindings.Disk.Edit
import GroovyFindings.Settings.Root
import GroovyFindings.Toml.Decode
import GroovyFindings.Toml.Document
import GroovyFindings.Yaml.Decode

/-!
# Settings files

A project's settings are in a TOML or in a YAML file at its root. Every
setting may be left out, and what is not a setting does not matter.

## Main definitions

* `Written` — the settings in a file.
* `Written.ofToml`, `Written.ofYaml` — the settings that a text says.
* `load` — the settings at a root.
-/

namespace GroovyFindings.Settings

/-- Where the sources are. -/
structure Sources where
  main : Option (List String) := none
  test : Option (List String) := none
  suffixes : Option (List String) := none
deriving DecidableEq, Repr, Inhabited

/-- The linter, or its report. -/
structure LinterWords where
  reportPath : Option String := none
  command : Option (List String) := none
deriving DecidableEq, Repr, Inhabited

/-- The settings in a file. -/
structure Written where
  profile : Option String := none
  output : Option String := none
  workDir : Option String := none
  title : Option String := none
  sources : Sources := {}
  linter : LinterWords := {}
deriving DecidableEq, Repr, Inhabited

/-- Why a file does not say settings. -/
inductive Error where
  | toml (path : Path) (e : Toml.Error)
  | yaml (path : Path) (e : Yaml.Error)
  /-- The file cannot be read. -/
  | unreadable (path : Path) (fault : Disk.Fault)
deriving DecidableEq, Repr

/-! ## TOML -/

/-- The sources of a TOML value. -/
def Sources.ofToml (v : Toml.Value) : Except Toml.Error Sources := do
  let r ← Toml.asRecord v
  let strings := Toml.asList Toml.asString
  return {
    main := ← r.optional 0 "main" strings
    test := ← r.optional 1 "test" strings
    suffixes := ← r.optional 2 "suffixes" strings }

/-- The linter of a TOML value. -/
def LinterWords.ofToml (v : Toml.Value) : Except Toml.Error LinterWords := do
  let r ← Toml.asRecord v
  return {
    reportPath := ← r.optional 0 "reportPath" Toml.asString
    command := ← r.optional 1 "command" (Toml.asList Toml.asString) }

/-- The settings of a TOML text. -/
def Written.ofToml (text : List Char) : Except Toml.Error Written := do
  let r := Toml.Record.named (← Toml.parse text)
  return {
    profile := ← r.optional 0 "profile" Toml.asString
    output := ← r.optional 1 "output" Toml.asString
    workDir := ← r.optional 2 "workDir" Toml.asString
    title := ← r.optional 3 "title" Toml.asString
    sources := (← r.optional 4 "sources" Sources.ofToml).getD {}
    linter := (← r.optional 5 "codenarc" LinterWords.ofToml).getD {} }

/-! ## YAML -/

/-- The sources of a YAML node. -/
def Sources.ofYaml (d : Yaml.Document) (n : Yaml.Node) : Except Yaml.Error Sources := do
  let r ← Yaml.asRecord d 3 3 n
  return {
    main := ← r.optional d 0 "main" (Yaml.asStrings d)
    test := ← r.optional d 1 "test" (Yaml.asStrings d)
    suffixes := ← r.optional d 2 "suffixes" (Yaml.asStrings d) }

/-- The linter of a YAML node. -/
def LinterWords.ofYaml (d : Yaml.Document) (n : Yaml.Node) :
    Except Yaml.Error LinterWords := do
  let r ← Yaml.asRecord d 2 2 n
  return {
    reportPath := ← r.optional d 0 "reportPath" (Yaml.asString d)
    command := ← r.optional d 1 "command" (Yaml.asStrings d) }

/-- The settings of a YAML document. -/
def Written.ofDocument (d : Yaml.Document) : Except Yaml.Error Written := do
  let r ← Yaml.asRecord d 4 6 d.root
  return {
    profile := ← r.optional d 0 "profile" (Yaml.asString d)
    output := ← r.optional d 1 "output" (Yaml.asString d)
    workDir := ← r.optional d 2 "workDir" (Yaml.asString d)
    title := ← r.optional d 3 "title" (Yaml.asString d)
    sources := (← r.optional d 4 "sources" (Sources.ofYaml d)).getD {}
    linter := (← r.optional d 5 "codenarc" (LinterWords.ofYaml d)).getD {} }

/-- The settings of a YAML text. A text without a document says nothing. -/
def Written.ofYaml (text : List Char) : Except Yaml.Error Written := do
  match ← Yaml.document? text with
  | some d => Written.ofDocument d
  | none => return {}

/-! ## Files -/

/-- Reads a file and the settings in it. -/
def loadWith (d : Disk) (path : Path) (read : List Char → Except Error Written) :
    Except Error Written :=
  match d.readText path with
  | .ok text => read text
  | .error f => .error (.unreadable path f)

/-- How the settings in a file of that name are read. -/
def reader (path : Path) (name : String) (text : List Char) : Except Error Written :=
  if name = "narcbridge.toml" then (Written.ofToml text).mapError (.toml path)
  else (Written.ofYaml text).mapError (.yaml path)

/-- The settings in the first settings file at a root; `none` if there is no
such file. -/
def load (d : Disk) (root : Path) : Except Error (Option Written) :=
  match settingsNames.find? fun name => d.present (root.child name) with
  | some name =>
      (loadWith d (root.child name) (reader (root.child name) name)).map some
  | none => .ok none

end GroovyFindings.Settings
