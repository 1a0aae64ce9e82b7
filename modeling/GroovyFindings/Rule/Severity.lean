/-!
# Severities

How bad a finding is, from a remark to a blocker.

## Main definitions

* `Severity` — the five grades, `Severity.rank` — their order.
* `Severity.name`, `Severity.ofName?` — their words.
-/

namespace GroovyFindings

/-- How bad a finding is. -/
inductive Severity where
  | info
  | minor
  | major
  | critical
  | blocker
deriving DecidableEq, Repr

namespace Severity

/-- A finding is major unless its rule says otherwise. -/
instance : Inhabited Severity := ⟨.major⟩

/-- The word for a severity. -/
def name : Severity → String
  | .info => "info"
  | .minor => "minor"
  | .major => "major"
  | .critical => "critical"
  | .blocker => "blocker"

/-- The severities in ascending order. -/
def all : List Severity := [.info, .minor, .major, .critical, .blocker]

/-- The severity of that name, written exactly so. -/
def ofName? (word : String) : Option Severity := all.find? (·.name == word)

/-- The place of a severity in the order. -/
def rank : Severity → Nat
  | .info => 0
  | .minor => 1
  | .major => 2
  | .critical => 3
  | .blocker => 4

/-- At most as severe. -/
def le (a b : Severity) : Bool := a.rank ≤ b.rank

theorem ofName?_name (s : Severity) : ofName? s.name = some s := by
  cases s <;> decide

end Severity

end GroovyFindings
