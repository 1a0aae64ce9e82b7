import GroovyFindings.Proofs.Json.Written
import GroovyFindings.Rendering.Basic

/-!
# What is recovered from the JSON output of a result

The JSON output is for programs.  A program that reads it goes by the names of the
members, and a name must not stand for two of them.  From the output it has all of the
result but the absolute paths of the files, and of a rule the one text that has its
repository in front of a colon and its key behind it.

## Main definitions

* `Json.Data.field?`, `Json.Data.items?` — the parts of a value that has been read;
  `Json.Data.text?`, `Json.Data.natural?`, `Json.Data.orNull?` — what they are.
* `Entry`, `Account` — what is told of an issue and of a whole result.
* `Entry.read?`, `summary?`, `Account.read?` — how it is recovered.

## Main results

* `Json.field?_ofMembers` — a member is read by its name.
* `read?_rendered` — the output is a JSON text.
* `rendered_tells_account` — the account is recovered from it.
-/

namespace GroovyFindings.Json

variable {α : Type}

namespace Data

/-- The value of the member of that name, if there is exactly one. -/
def member? (name : String) : Data → Option Data
  | .object members =>
      match members.filter (·.1 = name.toList) with
      | [(_, d)] => some d
      | _ => none
  | _ => none

/-- What is read of the member of that name. -/
def field? (name : String) (read? : Data → Option α) (d : Data) : Option α :=
  (d.member? name).bind read?

/-- The text that a string is. -/
def text? : Data → Option String
  | .string chars => some (String.ofList chars)
  | _ => none

/-- The natural number that is written without a point or an exponent. -/
def natural? : Data → Option Nat
  | .number (.ofNat n) 0 => some n
  | _ => none

/-- What is read of a value, with none for null. -/
def orNull? (read? : Data → Option α) : Data → Option (Option α)
  | .null => some none
  | d => (read? d).map some

/-- What is read of the items of an array. -/
def items? (read? : Data → Option α) : Data → Option (List α)
  | .array items => items.mapM read?
  | _ => none

end Data

/-- A member is read under a name that no other one has. -/
theorem field?_ofMembers {members : List (String × Value)} {name : String} {v : Value}
    {read? : Data → Option α} {a : α} (only : members.filter (·.1 = name) = [(name, v)])
    (back : read? v.data = some a) : (ofMembers members).data.field? name read? = some a := by
  have same : (fun m : List Char × Data => decide (m.1 = name.toList)) ∘
      (fun m : String × Value => (m.1.toList, m.2.data)) = fun m => decide (m.1 = name) := by
    funext m
    simp only [Function.comp_apply, String.toList_inj]
  have found : (members.map fun m => (m.1.toList, m.2.data)).filter (·.1 = name.toList) =
      [(name.toList, v.data)] := by
    rw [List.filter_map, same, only, List.map_singleton]
  have member : (ofMembers members).data.member? name = some v.data := by
    rw [ofMembers, Value.data, memberData_eq_map, List.map_map, Data.member?]
    simp only [Function.comp_def, found]
  rw [Data.field?, member, Option.bind_some, back]

theorem text?_ofString (s : String) : (ofString s).data.text? = some s := by
  rw [ofString, Value.data, Data.text?, String.ofList_toList]

theorem natural?_number (n : Nat) : (Value.number n).data.natural? = some n := rfl

/-- If each item is read back, so are they all. -/
theorem items?_array {β : Type} {write : β → Value} {read? : Data → Option α} {tell : β → α}
    (back : ∀ x, read? (write x).data = some (tell x)) (xs : List β) :
    (Value.array (xs.map write)).data.items? read? = some (xs.map tell) := by
  have each : (fun x => read? (write x).data) = fun x => pure (tell x) := funext back
  rw [Value.data, itemData_eq_map, Data.items?, List.map_map, List.mapM_map]
  simp only [Function.comp_def, each]
  exact List.mapM_pure

end GroovyFindings.Json

namespace GroovyFindings.Rendering

open Json (Data)

/-! ## Issues -/

/-- What is told of an issue. -/
structure Entry where
  /-- The repository and the key of the rule, as one text with a colon between them. -/
  rule : String
  severity : Severity
  file : String
  line : Option Nat
  message : String
deriving DecidableEq

namespace Entry

/-- What is told of the issue `i`. -/
def of (i : Issue) : Entry where
  rule := i.rule.repository ++ ":" ++ i.rule.key
  severity := i.severity
  file := i.file
  line := i.line
  message := i.message

/-- What a value tells of an issue. -/
def read? (d : Data) : Option Entry := do
  let rule ← d.field? "rule" Data.text?
  let severity ← d.field? "severity" fun word => word.text?.bind Severity.ofName?
  let file ← d.field? "file" Data.text?
  let line ← d.field? "line" (Data.orNull? Data.natural?)
  let message ← d.field? "message" Data.text?
  return ⟨rule, severity, file, line, message⟩

theorem read?_issueJson (i : Issue) : read? (issueJson i).data = some (of i) := by
  have rule : (issueJson i).data.field? "rule" Data.text? = some i.rule.text :=
    Json.field?_ofMembers (by simp) (Json.text?_ofString _)
  have severity : (issueJson i).data.field? "severity"
      (fun word => word.text?.bind Severity.ofName?) = some i.severity := by
    refine Json.field?_ofMembers (v := Json.ofString i.severity.name) (by simp) ?_
    rw [Json.text?_ofString, Option.bind_some, Severity.ofName?_name]
  have file : (issueJson i).data.field? "file" Data.text? = some i.file :=
    Json.field?_ofMembers (by simp) (Json.text?_ofString _)
  have line : (issueJson i).data.field? "line" (Data.orNull? Data.natural?) = some i.line := by
    refine Json.field?_ofMembers (by simp; rfl) ?_
    cases i.line <;> rfl
  have message : (issueJson i).data.field? "message" Data.text? = some i.message :=
    Json.field?_ofMembers (by simp) (Json.text?_ofString _)
  simp only [read?, rule, severity, file, line, message, Option.bind_eq_bind, Option.bind_some]
  rfl

end Entry

/-! ## Counts -/

/-- What a value tells of the counts. -/
def summary? (d : Data) : Option Summary := do
  let violations ← d.field? "violations" Data.natural?
  let issues ← d.field? "issues" Data.natural?
  let unknownRules ← d.field? "unknown_rules" Data.natural?
  let unknownFiles ← d.field? "unknown_files" Data.natural?
  let unattached ← d.field? "unattached" Data.natural?
  return ⟨violations, issues, unknownRules, unknownFiles, unattached⟩

theorem summary?_summaryJson (s : Summary) : summary? (summaryJson s).data = some s := by
  have violations : (summaryJson s).data.field? "violations" Data.natural? = some s.violations :=
    Json.field?_ofMembers (by simp) (Json.natural?_number _)
  have issues : (summaryJson s).data.field? "issues" Data.natural? = some s.issues :=
    Json.field?_ofMembers (by simp) (Json.natural?_number _)
  have unknownRules :
      (summaryJson s).data.field? "unknown_rules" Data.natural? = some s.unknownRules :=
    Json.field?_ofMembers (by simp) (Json.natural?_number _)
  have unknownFiles :
      (summaryJson s).data.field? "unknown_files" Data.natural? = some s.unknownFiles :=
    Json.field?_ofMembers (by simp) (Json.natural?_number _)
  have unattached : (summaryJson s).data.field? "unattached" Data.natural? = some s.unattached :=
    Json.field?_ofMembers (by simp) (Json.natural?_number _)
  simp only [summary?, violations, issues, unknownRules, unknownFiles, unattached,
    Option.bind_eq_bind, Option.bind_some]
  rfl

/-! ## Results -/

/-- What is told of a result. -/
structure Account where
  /-- Nothing was done. -/
  skipped : Bool
  summary : Summary
  /-- The issues in their order. -/
  issues : List Entry
deriving DecidableEq

namespace Account

/-- What is told of a result: where nothing was done, all counts are zero. -/
def of (issues : List Issue) : Outcome → Account
  | .skipped => ⟨true, ⟨0, 0, 0, 0, 0⟩, issues.map Entry.of⟩
  | .completed s => ⟨false, s, issues.map Entry.of⟩

/-- Whether a value is the word for an analysis in which nothing was done. -/
def skipped? (d : Data) : Option Bool :=
  match d.text? with
  | some "skipped" => some true
  | some "completed" => some false
  | _ => none

/-- What a value tells of a result. -/
def read? (d : Data) : Option Account := do
  let skipped ← d.field? "status" skipped?
  let summary ← d.field? "summary" summary?
  let issues ← d.field? "issues" (Data.items? Entry.read?)
  return ⟨skipped, summary, issues⟩

theorem read?_json (issues : List Issue) (outcome : Outcome) :
    read? (json issues outcome).data = some (of issues outcome) := by
  have skipped : (json issues outcome).data.field? "status" skipped? =
      some (of issues outcome).skipped := by
    refine Json.field?_ofMembers (v := Json.ofString (status outcome)) (by simp) ?_
    rw [skipped?, Json.text?_ofString]
    cases outcome <;> rfl
  have summary : (json issues outcome).data.field? "summary" summary? =
      some (of issues outcome).summary := by
    refine Json.field?_ofMembers (v := summaryJson outcome.summary) (by simp) ?_
    rw [summary?_summaryJson]
    cases outcome <;> rfl
  have entries : (json issues outcome).data.field? "issues" (Data.items? Entry.read?) =
      some (of issues outcome).issues := by
    refine Json.field?_ofMembers (v := .array (issues.map issueJson)) (by simp) ?_
    rw [Json.items?_array Entry.read?_issueJson]
    cases outcome <;> rfl
  simp only [read?, skipped, summary, entries, Option.bind_eq_bind, Option.bind_some]
  rfl

end Account

/-- The JSON output is a JSON text, and its value is that of the result. -/
theorem read?_rendered (colours : Bool) (issues : List Issue) (outcome : Outcome) :
    Json.read? (rendered "json" colours issues outcome).toList =
      some (json issues outcome).data := by
  rw [rendered, if_pos rfl, String.toList_ofList]
  exact Json.read?_pretty _ (by simp)

/-- **The JSON output tells everything in the account of a result.**  It is a JSON text
for an object, from which the account is recovered.  Two results with the same output
have the same account. -/
theorem rendered_tells_account (colours : Bool) (issues : List Issue) (outcome : Outcome) :
    ∃ members,
      Json.read? (rendered "json" colours issues outcome).toList = some (.object members) ∧
      Account.read? (.object members) = some (Account.of issues outcome) ∧
      ∀ colours' issues' outcome',
        rendered "json" colours' issues' outcome' = rendered "json" colours issues outcome →
          Account.of issues' outcome' = Account.of issues outcome := by
  refine ⟨_, read?_rendered colours issues outcome, Account.read?_json issues outcome, ?_⟩
  intro colours' issues' outcome' same
  have value : (json issues' outcome').data = (json issues outcome).data := by
    rw [← Option.some_inj, ← read?_rendered colours', ← read?_rendered colours, same]
  rw [← Option.some_inj, ← Account.read?_json, ← Account.read?_json, value]

/-- An issue of a rule whose repository has a colon in its name, and another one. -/
def quotedIssues : List Issue := [
  ⟨⟨"code:narc", "Empty"⟩, .minor, "a\\\"b\".groovy", .ofString "/p/a", some 4, "tab\there"⟩,
  ⟨⟨"codenarc", "NoLineEnd"⟩, .blocker, "B.groovy", .ofString "/p/B.groovy", none, "\x01 é 😀"⟩]

/-- The same two issues in files at other places, with the colon in the key of the
rule. -/
def movedIssues : List Issue := [
  ⟨⟨"code", "narc:Empty"⟩, .minor, "a\\\"b\".groovy", .ofString "/q/a", some 4, "tab\there"⟩,
  ⟨⟨"codenarc", "NoLineEnd"⟩, .blocker, "B.groovy", .ofString "/q/B.groovy", none, "\x01 é 😀"⟩]

/-- Counts for two issues and two violations beside them. -/
def quotedOutcome : Outcome := .completed ⟨4, 2, 1, 0, 1⟩

theorem json_movedIssues : json movedIssues quotedOutcome = json quotedIssues quotedOutcome := by
  have text : RuleRef.text ⟨"code", "narc:Empty"⟩ = RuleRef.text ⟨"code:narc", "Empty"⟩ := by
    decide
  simp only [json, movedIssues, quotedIssues, List.map_cons, List.map_nil, issueJson, text]

theorem rendered_tells_account_quotedIssues :
    rendered "json" true movedIssues quotedOutcome =
      rendered "json" false quotedIssues quotedOutcome ∧
    Account.of movedIssues quotedOutcome = Account.of quotedIssues quotedOutcome ∧
    ∃ members,
      Json.read? (rendered "json" false quotedIssues quotedOutcome).toList =
        some (.object members) ∧
      Account.read? (.object members) = some (Account.of quotedIssues quotedOutcome) := by
  have same : rendered "json" true movedIssues quotedOutcome =
      rendered "json" false quotedIssues quotedOutcome := by
    rw [rendered, rendered, json_movedIssues]
    rfl
  obtain ⟨members, hread, haccount, agree⟩ :=
    rendered_tells_account false quotedIssues quotedOutcome
  exact ⟨same, agree true movedIssues quotedOutcome same, members, hread, haccount⟩

end GroovyFindings.Rendering
