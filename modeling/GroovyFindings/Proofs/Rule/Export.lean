import GroovyFindings.Proofs.Xml.Outline
import GroovyFindings.Rule.Export

/-!
# What a rule set says

The file that the linter runs names the rules of a profile with their
parameters.  Config keys, parameter names and values are arbitrary strings;
whatever they are, reading the file gives the profile back: one rule an
element, in the order of the profile, one parameter an element in it, and
nothing else.

## Main definitions

* `ruleSetElement` — the root of a rule set as it is read.

## Main results

* `ruleSet_reads_back` — a rule set says what the profile says.
-/

namespace GroovyFindings

open GroovyFindings.Xml (Mark Element Legible Spells Lettered Qualified)

/-! ## The elements of a rule set -/

/-- A parameter as it is read. -/
def propertyElement (p : String × String) : Element :=
  ⟨"property", [(Utf8.ofString "name", p.1), (Utf8.ofString "value", p.2)], []⟩

/-- A rule as it is read. -/
def ruleElement (rule : ActiveRule) : Element :=
  ⟨"rule", [(Utf8.ofString "class", rule.configKey)], rule.params.pairs.map propertyElement⟩

/-- The namespaces of a rule set. -/
def ruleSetNamespaces : List (String × String) := [
  ("xmlns", "http://codenarc.org/ruleset/1.0"),
  ("xmlns:xsi", "http://www.w3.org/2001/XMLSchema-instance"),
  ("xsi:schemaLocation",
    "http://codenarc.org/ruleset/1.0 http://codenarc.org/ruleset-schema.xsd")]

/-- A rule set as it is read. -/
def ruleSetElement (rules : List ActiveRule) : Element :=
  ⟨"ruleset", Xml.attributesRead ruleSetNamespaces, rules.map ruleElement⟩

/-! ## The tags that spell them -/

theorem legible_property (p : String × String) :
    Legible "property" [("name", p.1), ("value", p.2)] where
  lettered := by decide
  qualified := by
    intro a ha
    have hkey : a.1 = "name" ∨ a.1 = "value" := by
      rcases List.mem_cons.1 ha with rfl | ha
      · exact .inl rfl
      · obtain rfl := List.mem_singleton.1 ha
        exact .inr rfl
    rcases hkey with hkey | hkey <;> rw [hkey] <;> decide
  distinct := by
    show ["name", "value"].Nodup
    decide

theorem legible_rule (configKey : String) : Legible "rule" [("class", configKey)] where
  lettered := by decide
  qualified := by
    intro a ha
    obtain rfl := List.mem_singleton.1 ha
    show Qualified "class"
    decide
  distinct := List.nodup_singleton _

theorem legible_ruleSet : Legible "ruleset" ruleSetNamespaces where
  lettered := by decide
  qualified := by
    have hkeys : ∀ key ∈ ["xmlns", "xmlns:xsi", "xsi:schemaLocation"], Qualified key := by
      decide
    intro a ha
    exact hkeys a.1 (List.mem_map_of_mem ha)
  distinct := by
    show ["xmlns", "xmlns:xsi", "xsi:schemaLocation"].Nodup
    decide

theorem spells_properties (pairs : List (String × String)) :
    Spells (pairs.map propertyMark) (pairs.map propertyElement) := by
  induction pairs with
  | nil => exact .nil
  | cons p pairs ih => exact .empty (legible_property p) ih

/-- A rule is spelled by one tag or by two, and either way it is the same
element. -/
theorem spells_rules (rules : List ActiveRule) :
    Spells (rules.flatMap ruleMarks) (rules.map ruleElement) := by
  induction rules with
  | nil => exact .nil
  | cons rule rules ih =>
      rw [List.flatMap_cons, List.map_cons, ruleMarks, ruleElement]
      cases hpairs : rule.params.pairs with
      | nil => exact .empty (legible_rule rule.configKey) ih
      | cons p pairs =>
          rw [List.append_assoc, List.cons_append, List.singleton_append]
          exact .element (legible_rule rule.configKey) (spells_properties (p :: pairs)) ih

theorem spells_ruleSet (rules : List ActiveRule) :
    Spells (.start "ruleset".toList ruleSetAttributes ::
      (rules.flatMap ruleMarks ++ [.close "ruleset".toList])) [ruleSetElement rules] :=
  .element legible_ruleSet (spells_rules rules) .nil

/-! ## The document -/

/-- Whatever strings the profile has in it, its rule set is one element: each
rule in its order with its config key, and in it each parameter in its order
with its name and its value.  This is also what its tags answer when they are
asked for one attribute after the other. -/
theorem ruleSet_reads_back (rules : List ActiveRule) :
    ∃ content : Xml.Content, content.IsOf (Utf8.ofString (ruleSet rules)) ∧
      content.elements? = some [ruleSetElement rules] ∧
      content.Answers [ruleSetElement rules] := by
  have hdocument : Utf8.ofString (ruleSet rules) =
      Utf8.encode (Xml.outline (.declaration :: (.start "ruleset".toList ruleSetAttributes ::
        (rules.flatMap ruleMarks ++ [.close "ruleset".toList])))) := by
    rw [Utf8.ofString, ruleSet, String.toList_ofList]
    rfl
  obtain ⟨content, hread, helements⟩ := (spells_ruleSet rules).exists_isOf
  exact ⟨content, hdocument ▸ hread, helements, Xml.Content.answers_of_elements? helements⟩

end GroovyFindings
