import GroovyFindings.Rule.Params
import GroovyFindings.Rule.Severity
import GroovyFindings.Text.Affix

/-!
# Active rules

A profile activates rules of several repositories. A report names a rule
by its class or by the short name that the linter derives from the class;
both are compared exactly, and of several rules with that name the first
in the profile counts.

## Main definitions

* `RuleRef` — what a rule is called by its host.
* `ActiveRule` — a rule with its severity and parameters.
* `ActiveRule.shortName` — the short name of a class.
* `inRepository`, `ruleFor?` — the rules of a repository, and the rule that
  a report means.
-/

namespace GroovyFindings

/-- What a rule is called by its host. -/
structure RuleRef where
  repository : String
  key : String
deriving DecidableEq, Repr, Inhabited

/-- Repository and key with a colon between them. -/
def RuleRef.text (r : RuleRef) : String := r.repository ++ ":" ++ r.key

/-- The repository of the linter's own rules. -/
def linterRepository : String := "codenarc"

/-- A rule with its severity and parameters. -/
structure ActiveRule where
  ref : RuleRef
  /-- The class that implements the rule. -/
  configKey : String
  /-- The name by which reports call it. -/
  name : String
  severity : Severity
  params : Params
deriving DecidableEq, Inhabited

namespace ActiveRule

/-- The short name of a class: what follows its last dot, without `Rule`
at the end unless nothing else is left. -/
def shortName (configKey : String) : String :=
  let simple := ((configKey.toList.splitOn '.').getLast?).getD []
  match Text.stripEnd? "Rule".toList simple with
  | some (c :: stem) => String.ofList (c :: stem)
  | _ => String.ofList simple

/-- The rule is the one that `key` names. -/
def answersTo (rule : ActiveRule) (key : String) : Bool :=
  rule.configKey == key || rule.name == key

end ActiveRule

/-- The rules of a repository, in their order. -/
def inRepository (rules : List ActiveRule) (repository : String) : List ActiveRule :=
  rules.filter fun r => r.ref.repository == repository

/-- The first rule that `key` names. -/
def ruleFor? (rules : List ActiveRule) (key : String) : Option ActiveRule :=
  rules.find? (·.answersTo key)

end GroovyFindings
