import GroovyFindings.Proofs.Rule.Export
import GroovyFindings.Proofs.Xml.Processed

/-!
# What an XML processor reports of a rule set

The linter reads its rule set with a processor that goes by XML 1.0.  Such a processor
takes white space that stands literally in an attribute value for blanks, and the
writer escapes no white space.  So a processor reports the rules with their strings
flattened, and reports the strings themselves exactly if there are neither tabs nor
line ends in them.

## Main definitions

* `ActiveRule.texts` — the strings of a rule that a rule set has in it.

## Main results

* `ruleSet_processed` — what is reported of a rule set, and when it is what was
  exported.
-/

namespace GroovyFindings

open GroovyFindings.Xml (Element Mark isAllowed isChanged flattened processed?)

/-- The strings of a rule that a rule set has in it. -/
def ActiveRule.texts (rule : ActiveRule) : List String :=
  rule.configKey :: rule.params.pairs.flatMap fun p => [p.1, p.2]

theorem ActiveRule.mem_texts {rule : ActiveRule} {p : String × String}
    (h : p ∈ rule.params.pairs) : p.1 ∈ rule.texts ∧ p.2 ∈ rule.texts := by
  have hboth : ∀ text ∈ [p.1, p.2], text ∈ rule.texts := fun text htext =>
    List.mem_cons_of_mem _ (List.mem_flatMap.2 ⟨p, h, htext⟩)
  exact ⟨hboth _ (by simp), hboth _ (by simp)⟩

/-! ## The values in the tags -/

/-- The values in the tags of a rule are its strings. -/
theorem value_mem_texts {rule : ActiveRule} {m : Mark} (hm : m ∈ ruleMarks rule)
    {a : Xml.Property} (ha : a ∈ m.attributes) :
    ∃ text ∈ rule.texts, a.value = text.toList := by
  have hrule : ∀ b ∈ [Xml.Property.ofStrings "class" rule.configKey],
      ∃ text ∈ rule.texts, b.value = text.toList := by
    intro b hb
    obtain rfl := List.mem_singleton.1 hb
    exact ⟨rule.configKey, List.mem_cons_self, rfl⟩
  unfold ruleMarks at hm
  split at hm
  · obtain rfl := List.mem_singleton.1 hm
    exact hrule a ha
  · rcases List.mem_append.1 hm with hm | hm
    · rcases List.mem_cons.1 hm with rfl | hm
      · exact hrule a ha
      · obtain ⟨p, hp, rfl⟩ := List.mem_map.1 hm
        obtain ⟨hname, hvalue⟩ := ActiveRule.mem_texts hp
        rcases List.mem_cons.1 ha with rfl | ha
        · exact ⟨p.1, hname, rfl⟩
        · obtain rfl := List.mem_singleton.1 ha
          exact ⟨p.2, hvalue, rfl⟩
    · obtain rfl := List.mem_singleton.1 hm
      cases ha

/-- The namespaces are plain text without line ends. -/
theorem plain_namespaces : ∀ p ∈ ruleSetNamespaces, ∀ c ∈ p.2.toList,
    isAllowed c = true ∧ isChanged c = false := by
  have hall : (ruleSetNamespaces.all fun p =>
      p.2.toList.all fun c => isAllowed c && !isChanged c) = true := by decide
  simpa only [List.all_eq_true, Bool.and_eq_true, Bool.not_eq_true'] using hall

/-! ## The elements with their values flattened -/

/-- A string as it is reported. -/
def reported (text : String) : String := String.ofList (flattened text.toList)

theorem reported_eq_iff (text : String) :
    reported text = text ↔ ∀ c ∈ text.toList, isChanged c = false := by
  rw [← Xml.flattened_eq_iff, reported, ← String.toList_inj, String.toList_ofList]

theorem mapValues_propertyElement (p : String × String) :
    (propertyElement p).mapValues flattened = propertyElement (reported p.1, reported p.2) := by
  simp [propertyElement, Element.mapValues, reported]

theorem mapValues_ruleElement (rule : ActiveRule) :
    (ruleElement rule).mapValues flattened =
      ⟨"rule", [(Utf8.ofString "class", reported rule.configKey)],
        rule.params.pairs.map fun p => propertyElement (reported p.1, reported p.2)⟩ := by
  rw [ruleElement, Element.mapValues, List.map_map]
  simp only [Function.comp_def, mapValues_propertyElement]
  rfl

theorem mapValues_ruleElement_eq_iff (rule : ActiveRule) :
    (ruleElement rule).mapValues flattened = ruleElement rule ↔
      ∀ text ∈ rule.texts, reported text = text := by
  have hparams : (rule.params.pairs.map fun p =>
        propertyElement (reported p.1, reported p.2)) = rule.params.pairs.map propertyElement ↔
      ∀ p ∈ rule.params.pairs, reported p.1 = p.1 ∧ reported p.2 = p.2 := by
    rw [List.map_inj_left]
    simp [propertyElement]
  have htexts : (∀ text ∈ rule.texts, reported text = text) ↔
      reported rule.configKey = rule.configKey ∧
        ∀ p ∈ rule.params.pairs, reported p.1 = p.1 ∧ reported p.2 = p.2 := by
    simp only [ActiveRule.texts, List.forall_mem_cons, List.forall_mem_flatMap]
    simp
  rw [htexts, mapValues_ruleElement, ruleElement, ← hparams]
  simp

theorem mapValues_ruleSetElement (rules : List ActiveRule) :
    (ruleSetElement rules).mapValues flattened =
      ⟨"ruleset", Xml.attributesRead ruleSetNamespaces,
        (rules.map ruleElement).map (Element.mapValues flattened)⟩ := by
  have hplain : ruleSetNamespaces.map (fun p => (p.1, reported p.2)) = ruleSetNamespaces := by
    refine (List.map_congr_left ?_).trans (List.map_id _)
    intro p hp
    have hsame := (reported_eq_iff p.2).2 fun c hc => (plain_namespaces p hp c hc).2
    rw [hsame]
    rfl
  have hattributes : (Xml.attributesRead ruleSetNamespaces).map
      (fun a => (a.1, reported a.2)) = Xml.attributesRead ruleSetNamespaces :=
    (Xml.attributesRead_map flattened ruleSetNamespaces).trans (congrArg Xml.attributesRead hplain)
  rw [ruleSetElement, Element.mapValues]
  exact congrArg (Element.mk _ · _) hattributes

/-- A rule set is the same with its values flattened exactly if no string in it has
white space other than blanks. -/
theorem mapValues_ruleSetElement_eq_iff (rules : List ActiveRule) :
    (ruleSetElement rules).mapValues flattened = ruleSetElement rules ↔
      ∀ rule ∈ rules, ∀ text ∈ rule.texts, ∀ c ∈ text.toList, isChanged c = false := by
  have hrules : (rules.map ruleElement).map (Element.mapValues flattened) =
      rules.map ruleElement ↔ ∀ rule ∈ rules, ∀ text ∈ rule.texts, reported text = text := by
    rw [List.map_map, List.map_inj_left]
    simp only [Function.comp_apply, mapValues_ruleElement_eq_iff]
  simp only [reported_eq_iff] at hrules
  rw [mapValues_ruleSetElement, ruleSetElement, ← hrules]
  simp

/-! ## The document -/

/-- A processor reports a rule set with its values flattened. -/
theorem processed?_ruleSet {rules : List ActiveRule}
    (allowed : ∀ rule ∈ rules, ∀ text ∈ rule.texts, ∀ c ∈ text.toList, isAllowed c = true) :
    processed? (ruleSet rules).toList = some ((ruleSetElement rules).mapValues flattened) := by
  have hdocument : (ruleSet rules).toList =
      Xml.outline (.declaration :: (.start "ruleset".toList ruleSetAttributes ::
        (rules.flatMap ruleMarks ++ [.close "ruleset".toList]))) := by
    rw [ruleSet, String.toList_ofList]
    rfl
  rw [hdocument]
  apply (spells_ruleSet rules).processed?_outline
  intro m hm a ha
  rcases List.mem_cons.1 hm with rfl | hm
  · obtain ⟨p, hp, rfl⟩ := List.mem_map.1
      (show a ∈ Xml.properties ruleSetNamespaces from ha)
    exact fun c hc => (plain_namespaces p hp c hc).1
  rcases List.mem_append.1 hm with hm | hm
  · obtain ⟨rule, hrule, hmark⟩ := List.mem_flatMap.1 hm
    obtain ⟨text, htext, hvalue⟩ := value_mem_texts hmark ha
    rw [hvalue]
    exact allowed rule hrule text htext
  · obtain rfl := List.mem_singleton.1 hm
    cases ha

/-- What an XML processor reports of a rule set whose strings consist of characters
that documents have: the same rules with the same parameters in the same order, with
each config key, parameter name and value flattened.  So exactly those rule sets are
reported as they were exported that have no tab, line feed or carriage return in any
of these strings; every other character is reported as it is, the special ones too. -/
theorem ruleSet_processed (rules : List ActiveRule)
    (allowed : ∀ rule ∈ rules, ∀ text ∈ rule.texts, ∀ c ∈ text.toList, isAllowed c = true) :
    processed? (ruleSet rules).toList = some ((ruleSetElement rules).mapValues flattened) ∧
      (processed? (ruleSet rules).toList = some (ruleSetElement rules) ↔
        ∀ rule ∈ rules, ∀ text ∈ rule.texts, ∀ c ∈ text.toList, isChanged c = false) := by
  have hread := processed?_ruleSet allowed
  refine ⟨hread, ?_⟩
  rw [hread, Option.some_inj, mapValues_ruleSetElement_eq_iff]

/-- A rule with a parameter of special characters. -/
def specialRule : ActiveRule :=
  ⟨⟨"codenarc", "K"⟩, "a.B", "B", .major, Params.ofList [("p", "<&'\"> ")]⟩

theorem ruleSet_processed_special :
    processed? (ruleSet [specialRule]).toList = some (ruleSetElement [specialRule]) := by
  have hall : ([specialRule].all fun rule => rule.texts.all fun text =>
      text.toList.all fun c => isAllowed c && !isChanged c) = true := by decide
  simp only [List.all_eq_true, Bool.and_eq_true, Bool.not_eq_true'] at hall
  exact (ruleSet_processed [specialRule] fun rule hrule text htext c hc =>
      (hall rule hrule text htext c hc).1).2.2 fun rule hrule text htext c hc =>
    (hall rule hrule text htext c hc).2

/-- A rule with a parameter of two lines. -/
def multilineRule : ActiveRule :=
  ⟨⟨"codenarc", "K"⟩, "a.B", "B", .major, Params.ofList [("p", "a\nb")]⟩

/-- A processor reports the two lines as one. -/
theorem ruleSet_multiline_joined :
    (∀ text ∈ multilineRule.texts, ∀ c ∈ text.toList, isAllowed c = true) ∧
      processed? (ruleSet [multilineRule]).toList = some
        ⟨"ruleset", Xml.attributesRead ruleSetNamespaces, [
          ⟨"rule", [(Utf8.ofString "class", "a.B")], [propertyElement ("p", "a b")]⟩]⟩ ∧
      processed? (ruleSet [multilineRule]).toList ≠ some (ruleSetElement [multilineRule]) := by
  have hall : ([multilineRule].all fun rule => rule.texts.all fun text =>
      text.toList.all isAllowed) = true := by decide
  have allowed : ∀ rule ∈ [multilineRule], ∀ text ∈ rule.texts, ∀ c ∈ text.toList,
      isAllowed c = true := by simpa only [List.all_eq_true] using hall
  have hread := processed?_ruleSet allowed
  refine ⟨allowed _ List.mem_cons_self, ?_, ?_⟩
  · have hclass : reported "a.B" = "a.B" := by decide
    have hname : reported "p" = "p" := by decide
    have hvalue : reported "a\nb" = "a b" := by decide
    have hrule : (ruleElement multilineRule).mapValues flattened =
        ⟨"rule", [(Utf8.ofString "class", "a.B")], [propertyElement ("p", "a b")]⟩ := by
      rw [mapValues_ruleElement, ← hclass, ← hname, ← hvalue]
      rfl
    rw [hread, mapValues_ruleSetElement, ← hrule]
    rfl
  · rw [hread, ne_eq, Option.some_inj, mapValues_ruleSetElement_eq_iff]
    intro plain
    have hvalue : "a\nb" ∈ multilineRule.texts := by decide
    have hfeed := plain _ List.mem_cons_self _ hvalue '\n' (by decide)
    revert hfeed
    decide

end GroovyFindings
