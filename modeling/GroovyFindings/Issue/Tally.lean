import GroovyFindings.Issue.Basic
import GroovyFindings.Report.Violation
import GroovyFindings.Source.Match

/-!
# Turning violations into issues

The violations of a report are offered to a sink in their order. None is
merged with another one, and each is counted under what became of it.

## Main definitions

* `Summary` — the counts.
* `offer` — one violation.
* `process` — all of them.
-/

namespace GroovyFindings

/-- How many violations there were, and what became of them. -/
structure Summary where
  violations : Nat := 0
  issues : Nat := 0
  unknownRules : Nat := 0
  unknownFiles : Nat := 0
  unattached : Nat := 0
deriving DecidableEq, Repr, Inhabited

/-- The violations that gave no issue. -/
def Summary.skipped (s : Summary) : Nat :=
  s.unknownRules + s.unknownFiles + s.unattached

/-- The counts with one violation more. -/
def Summary.count (s : Summary) : Emission → Summary
  | .emitted => { s with violations := s.violations + 1, issues := s.issues + 1 }
  | .unknownRule =>
      { s with violations := s.violations + 1, unknownRules := s.unknownRules + 1 }
  | .unknownFile =>
      { s with violations := s.violations + 1, unknownFiles := s.unknownFiles + 1 }
  | .unattached =>
      { s with violations := s.violations + 1, unattached := s.unattached + 1 }

/-- What violations are held against: the active rules and the tracked
files. -/
structure Catalog where
  rules : List ActiveRule
  files : List TrackedFile

/-- Offers one violation. Its file is looked for only if its rule is
active. -/
def Catalog.offer {σ : Type} (c : Catalog) (sink : Sink σ) (state : σ)
    (v : Report.Violation) : σ × Emission :=
  let rule := ruleFor? c.rules v.ruleKey
  emit sink state rule (rule.bind fun _ => fileFor? c.files v.file) v.line v.message

/-- Offers all violations in their order and counts them. -/
def Catalog.process {σ : Type} (c : Catalog) (sink : Sink σ) (state : σ)
    (violations : List Report.Violation) : σ × Summary :=
  violations.foldl
    (fun acc v =>
      let (state, emission) := c.offer sink acc.1 v
      (state, acc.2.count emission))
    (state, {})

end GroovyFindings
