/-!
# Decimal numbers with an upper bound

Numbers are read as the decimal value of a run of ASCII digits and then
compared with a bound. Leading zeros carry no weight, so a number may be
written with any number of digits.

## Main definitions

* `digitValue?` — the value of an ASCII digit.
* `natValue?` — the value of a non-empty run of digits.
* `bounded?` — such a value, after an optional plus sign, when it is at
  most the bound.
-/

namespace GroovyFindings.Text

/-- The value of an ASCII decimal digit. -/
def digitValue? (c : Char) : Option Nat :=
  if '0' ≤ c ∧ c ≤ '9' then some (c.toNat - '0'.toNat) else none

/-- The value of `digits` read after digits of value `value`. -/
def natValueFrom? (value : Nat) : (digits : List Char) → Option Nat
  | [] => some value
  | c :: rest =>
      match digitValue? c with
      | some d => natValueFrom? (10 * value + d) rest
      | none => none

/-- The value of a non-empty run of ASCII digits. -/
def natValue? : (digits : List Char) → Option Nat
  | [] => none
  | c :: rest => natValueFrom? 0 (c :: rest)

/-- A number of at most `bound`, with or without a plus sign. -/
def bounded? (bound : Nat) (text : List Char) : Option Nat :=
  let digits := match text with
    | '+' :: rest => rest
    | _ => text
  (natValue? digits).filter (· ≤ bound)

/-- The greatest line number. -/
def maxWord32 : Nat := 4294967295

/-- The greatest duration. -/
def maxWord64 : Nat := 18446744073709551615

end GroovyFindings.Text
