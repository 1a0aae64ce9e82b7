import GroovyFindings.Settings.File
import GroovyFindings.Source.Suffix
import GroovyFindings.Text.Blank

/-!
# Settings in effect

A setting is what the command line says, or else what the settings file
says, or else a default. What is blank is not said. Paths are read below
the root of the project.

## Main definitions

* `Options` — what the command line says.
* `Effective` — the settings in effect.
* `merge` — how they come about, field by field.
* `resolve` — the settings in effect on a disk.
-/

namespace GroovyFindings.Settings

/-- What the command line says. -/
structure Options where
  baseDir : Option String := none
  profile : Option String := none
  reportPath : Option String := none
  sourceDirs : List String := []
  workDir : Option String := none
  output : Option String := none
deriving DecidableEq, Repr, Inhabited

/-- The settings in effect. -/
structure Effective where
  baseDir : Path
  profile : Path
  /-- The profile is not the default one. -/
  profileConfigured : Bool
  output : String
  workDir : Path
  title : String
  mainDirs : List Path
  testDirs : List Path
  suffixes : List String
  reportPath : Option Path
  command : List String
deriving DecidableEq, Repr

/-- A text that says something. -/
def said (text : Option String) : Option String :=
  text.filter fun s => !Text.isBlankText s

/-- The directories of a list that are said, below a base. -/
def dirsBelow (base : Path) (dirs : List String) : List Path :=
  (dirs.filter fun s => !Text.isBlankText s).map base.child

/-- A list that is said and not empty, or else a default. -/
def listOr (default : List String) (list : Option (List String)) : List String :=
  (list.filter (!·.isEmpty)).getD default

/-- What a project is called: its directory's name, if it has one. -/
def titleOf (base : Path) : String :=
  match base.fileName? with
  | some name => String.ofList name
  | none => "project"

/-- The profile that is said. -/
def profileSaid (o : Options) (w : Written) : Option String := (said o.profile).or (said w.profile)

/-- The main directories that are said: those of the command line, if
there are any. -/
def mainSaid (o : Options) (w : Written) : List String :=
  if o.sourceDirs.isEmpty then w.sources.main.getD ["src/main/groovy"] else o.sourceDirs

/-- The settings in effect for a root, given what the command line and the
settings file say. -/
def merge (o : Options) (base : Path) (w : Written) : Effective where
  baseDir := base
  profile := base.child ((profileSaid o w).getD "narcbridge-profile.toml")
  profileConfigured := (profileSaid o w).isSome
  output := ((said o.output).or (said w.output)).getD "human"
  workDir := base.child (((said o.workDir).or (said w.workDir)).getD ".narcbridge")
  title := (said w.title).getD (titleOf base)
  mainDirs := dirsBelow base (mainSaid o w)
  testDirs := dirsBelow base (w.sources.test.getD ["src/test/groovy"])
  suffixes := listOr [".groovy"] w.sources.suffixes
  reportPath := ((said o.reportPath).or (said w.linter.reportPath)).map base.child
  command := listOr ["codenarc"] w.linter.command

/-- Where the search for the root begins. -/
def startPath (o : Options) : Path := .ofString (o.baseDir.getD ".")

/-- The settings in effect on a disk. -/
def resolve (d : Disk) (o : Options) : Except Error Effective := do
  let base := projectRoot d (startPath o)
  let written ← load d base
  return merge o base (written.getD {})

end GroovyFindings.Settings
