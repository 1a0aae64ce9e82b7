import GroovyFindings.Rule.Active
import GroovyFindings.Xml.Outline

/-!
# The rule set file

The linter runs the rules that a file names. The file is an XML document
with one element a rule, in the order of the profile, and one element a
parameter in it.

## Main definitions

* `ruleSetMarks` — the tags of the file.
* `ruleSet` — its text.
-/

namespace GroovyFindings

/-- The attribute of the given name and value. -/
def Xml.Property.ofStrings (name value : String) : Xml.Property :=
  ⟨name.toList, value.toList⟩

/-- The namespaces of a rule set. -/
def ruleSetAttributes : List Xml.Property := [
  .ofStrings "xmlns" "http://codenarc.org/ruleset/1.0",
  .ofStrings "xmlns:xsi" "http://www.w3.org/2001/XMLSchema-instance",
  .ofStrings "xsi:schemaLocation"
    "http://codenarc.org/ruleset/1.0 http://codenarc.org/ruleset-schema.xsd"]

/-- The tag of a parameter. -/
def propertyMark (p : String × String) : Xml.Mark :=
  .empty "property".toList [.ofStrings "name" p.1, .ofStrings "value" p.2]

/-- The tags of a rule: one that closes itself if there are no
parameters. -/
def ruleMarks (rule : ActiveRule) : List Xml.Mark :=
  let attributes := [.ofStrings "class" rule.configKey]
  match rule.params.pairs with
  | [] => [.empty "rule".toList attributes]
  | pairs =>
      .start "rule".toList attributes :: pairs.map propertyMark ++ [.close "rule".toList]

/-- The tags of a rule set. -/
def ruleSetMarks (rules : List ActiveRule) : List Xml.Mark :=
  .declaration :: .start "ruleset".toList ruleSetAttributes ::
    rules.flatMap ruleMarks ++ [.close "ruleset".toList]

/-- The text of a rule set. -/
def ruleSet (rules : List ActiveRule) : String :=
  String.ofList (Xml.outline (ruleSetMarks rules))

end GroovyFindings
