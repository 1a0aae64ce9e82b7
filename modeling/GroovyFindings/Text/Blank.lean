import GroovyFindings.Text.Affix

/-!
# White space

The characters with the Unicode property `White_Space`. Two things that
look like it are not: the zero width space and the byte order mark.

## Main definitions

* `isBlank` — the property, as a table of its twenty-five characters.
* `trim` — a text without blank characters at either end.
* `isBlankText` — nothing but blank characters, possibly none.
-/

namespace GroovyFindings.Text

/-- The Unicode property `White_Space`. -/
def isBlank (c : Char) : Bool :=
  (0x09 ≤ c.toNat && c.toNat ≤ 0x0D) || c.toNat == 0x20 ||
  c.toNat == 0x85 || c.toNat == 0xA0 || c.toNat == 0x1680 ||
  (0x2000 ≤ c.toNat && c.toNat ≤ 0x200A) ||
  c.toNat == 0x2028 || c.toNat == 0x2029 || c.toNat == 0x202F ||
  c.toNat == 0x205F || c.toNat == 0x3000

/-- The four blanks that a text format counts are among them. -/
theorem isBlank_of_isWhitespace {c : Char} (h : c.isWhitespace = true) :
    isBlank c = true := by
  simp only [Char.isWhitespace, Bool.or_eq_true, decide_eq_true_eq] at h
  rcases h with ((rfl | rfl) | rfl) | rfl <;> decide

/-- Drops blank characters at both ends. -/
def trim (text : List Char) : List Char :=
  dropEndWhile isBlank (text.dropWhile isBlank)

/-- Nothing but blank characters. -/
def isBlankText (text : String) : Bool := text.toList.all isBlank

end GroovyFindings.Text
