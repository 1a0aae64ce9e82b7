import GroovyFindings.Proofs.Text.Word
import GroovyFindings.Report.Scope

/-!
# The line of a violation

A report may give the line of a violation as any text.  It is a line number if it
is a numeral between blanks, of a number that is not zero and goes into a word of
32 bits.  Every other text gives no line, and none gives a wrong one: what is read
digit by digit in words, and given up where a word is left, is the same.

## Main definitions

* `SpellsLine` — the texts that spell a line number.

## Main results

* `parseLine_eq_some_iff`, `parseLine_eq_none_iff` — what is read, and when nothing is.
* `parseLine_reads_exactly` — both, and the reading in words.
-/

namespace GroovyFindings.Report

/-- The text spells a line number.  Lines are counted from one. -/
structure SpellsLine (text : List Char) (n : Nat) : Prop where
  between : ∃ before numeral behind, text = before ++ numeral ++ behind ∧
    (∀ c ∈ before, Text.isBlank c = true) ∧ (∀ c ∈ behind, Text.isBlank c = true) ∧
      Text.Numeral n numeral
  positive : 1 ≤ n
  fits : n ≤ 4294967295

theorem parseLine_eq_some_iff {text : String} {n : Nat} :
    parseLine text = some n ↔ SpellsLine text.toList n := by
  rw [parseLine, Option.filter_eq_some_iff, Text.bounded?_eq_some_iff, Text.numeral_trim_iff,
    decide_eq_true_eq]
  constructor
  · rintro ⟨⟨between, fits⟩, positive⟩
    exact ⟨between, positive, fits⟩
  · rintro ⟨between, positive, fits⟩
    exact ⟨⟨between, fits⟩, positive⟩

theorem parseLine_eq_none_iff {text : String} :
    parseLine text = none ↔ ∀ n, ¬ SpellsLine text.toList n := by
  rw [Option.eq_none_iff_forall_ne_some]
  simp only [ne_eq, parseLine_eq_some_iff]

/-- The line is the word that is read, if it is not zero. -/
theorem parseLine_eq_map_word? (text : String) :
    parseLine text =
      ((Text.word? (Text.trim text.toList)).filter (0 < ·)).map UInt32.toNat := by
  rw [parseLine, ← Text.map_toNat_word?, Option.filter_map]
  rfl

/-- **Line numbers are read exactly.**  A text gives a line if and only if it spells
it: a numeral between blanks, with a plus sign or none and any number of zeros in
front, for a number from one to the greatest word.  It gives none if it spells none.
And the line is what comes of reading the trimmed text digit by digit into a word of
32 bits, giving up where a product or a sum is no word. -/
theorem parseLine_reads_exactly (text : String) :
    (∀ n, parseLine text = some n ↔ SpellsLine text.toList n) ∧
    (parseLine text = none ↔ ∀ n, ¬ SpellsLine text.toList n) ∧
    parseLine text =
      ((Text.word? (Text.trim text.toList)).filter (0 < ·)).map UInt32.toNat := by
  exact ⟨fun n => parseLine_eq_some_iff, parseLine_eq_none_iff, parseLine_eq_map_word? text⟩

/-- Zeros in front and blanks of any script do not matter. -/
example : parseLine "\u3000+0004294967295\t" = some 4294967295 := by decide +kernel

/-- The next number is not read as zero or cut. -/
example : parseLine "4294967296" = none := by decide +kernel

end GroovyFindings.Report
