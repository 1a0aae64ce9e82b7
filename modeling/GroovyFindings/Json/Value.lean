/-!
# JSON values and their text

A value is written with one member or item a line and two spaces of
indentation; an empty array or object takes no line of its own. In strings
quotes, backslashes and control characters are escaped, and nothing else.

## Main definitions

* `Value` — the values that are written: numbers are natural numbers.
* `quote` — a string as it is written.
* `Value.pretty` — a value as it is written.
-/

namespace GroovyFindings.Json

/-- A value. -/
inductive Value where
  | null
  | number (n : Nat)
  | string (chars : List Char)
  | array (items : List Value)
  /-- The members in the order in which they are written. -/
  | object (members : List (List Char × Value))
deriving Inhabited

/-- The string value of a text. -/
def ofString (s : String) : Value := .string s.toList

/-- The object of named members. -/
def ofMembers (members : List (String × Value)) : Value :=
  .object (members.map fun m => (m.1.toList, m.2))

/-- A hexadecimal digit, in small letters. -/
def hexDigit (n : Nat) : Char :=
  if n < 10 then Char.ofNat ('0'.toNat + n) else Char.ofNat ('a'.toNat + (n - 10))

/-- One character in a string. -/
def quoteChar (c : Char) : List Char :=
  if c = '"' then ['\\', '"']
  else if c = '\\' then ['\\', '\\']
  else if c = '\x08' then ['\\', 'b']
  else if c = '\t' then ['\\', 't']
  else if c = '\n' then ['\\', 'n']
  else if c = '\x0c' then ['\\', 'f']
  else if c = '\r' then ['\\', 'r']
  else if c.toNat < 0x20 then
    ['\\', 'u', '0', '0', hexDigit (c.toNat / 16), hexDigit (c.toNat % 16)]
  else [c]

/-- A string between its quotes. -/
def quote (chars : List Char) : List Char := '"' :: chars.flatMap quoteChar ++ ['"']

/-- A new line, indented by two spaces for each level. -/
def newLine (depth : Nat) : List Char := '\n' :: List.replicate (2 * depth) ' '

mutual

/-- A value on a line that is indented by `depth` levels. -/
def Value.prettyAt (depth : Nat) : Value → List Char
  | .null => "null".toList
  | .number n => Nat.toDigits 10 n
  | .string chars => quote chars
  | .array [] => ['[', ']']
  | .array (v :: vs) =>
      '[' :: newLine (depth + 1) ++ v.prettyAt (depth + 1) ++ prettyItems (depth + 1) vs ++
        newLine depth ++ [']']
  | .object [] => ['\x7b', '\x7d']
  | .object ((k, v) :: ms) =>
      '\x7b' :: newLine (depth + 1) ++ quote k ++ [':', ' '] ++ v.prettyAt (depth + 1) ++
        prettyMembers (depth + 1) ms ++ newLine depth ++ ['\x7d']

/-- Items behind another one. -/
def prettyItems (depth : Nat) : List Value → List Char
  | [] => []
  | v :: vs => ',' :: newLine depth ++ v.prettyAt depth ++ prettyItems depth vs

/-- Members behind another one. -/
def prettyMembers (depth : Nat) : List (List Char × Value) → List Char
  | [] => []
  | (k, v) :: ms =>
      ',' :: newLine depth ++ quote k ++ [':', ' '] ++ v.prettyAt depth ++
        prettyMembers depth ms

end

/-- A value as it is written. -/
def Value.pretty (v : Value) : List Char := v.prettyAt 0

end GroovyFindings.Json
