import GroovyFindings.Text.Printable

/-!
# Quoting a text in a diagnostic

A quoted text stands between double quotes on one line of visible
characters: quotes and backslashes are escaped, the common control
characters have short names, and whatever else cannot be seen is spelled
by its number.

## Main definitions

* `quoted` — the quoted form.
-/

namespace GroovyFindings.Text

/-- How one character stands in a quoted text. -/
def quotedChar (c : Char) : List Char :=
  if c = '\x00' then ['\\', '0']
  else if c = '\t' then ['\\', 't']
  else if c = '\r' then ['\\', 'r']
  else if c = '\n' then ['\\', 'n']
  else if c = '"' then ['\\', '"']
  else if c = '\\' then ['\\', '\\']
  else if isPrintable c then [c]
  else ['\\', 'u', '\x7b'] ++ Nat.toDigits 16 c.toNat ++ ['\x7d']

/-- A text between quotes. -/
def quoted (text : List Char) : String :=
  String.ofList ('"' :: text.flatMap quotedChar ++ ['"'])

end GroovyFindings.Text
