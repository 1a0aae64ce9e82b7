import GroovyFindings.Proofs.Path.Components
import GroovyFindings.Proofs.Source.Meaning

/-!
# A path ends with whole segments

The test whether a path ends with another one works on the characters: the two
are equal, or what is left in front of the second one ends with a slash.  It
comes to the same as cutting both at every slash and comparing the pieces.  No
piece is left out, so that empty ones count, between two slashes and at either
end of the text.

Only the first path is normalized.  This does not matter to an end of an end: what
a normalized path ends with has no backslashes, and what normalizing cuts off it
is whole segments.

## Main results

* `endsOnSegment_iff_splitOn_suffix` — the two ways to say it.
* `hasPathSuffix_trans` — ends of ends.
* `hasPathSuffix_iff_segments` — the test compares segments.
-/

namespace GroovyFindings

variable {path middle ending : List Char}

/-! ## The pieces of a path and those of its end -/

theorem splitOn_suffix_of_endsOnSegment (h : EndsOnSegment path ending) :
    ending.splitOn '/' <:+ path.splitOn '/' := by
  cases h with
  | inl same => exact same ▸ List.suffix_refl _
  | inr behind =>
      obtain ⟨front, rfl⟩ := behind
      exact ⟨front.splitOn '/', (List.splitOn_append_cons_self front ending).symm⟩

/-- Nothing is lost where a path is cut. -/
theorem eq_of_splitOn_eq {text text' : List Char} (h : text.splitOn '/' = text'.splitOn '/') :
    text = text' := by
  calc text = ['/'].intercalate (text.splitOn '/') := (List.intercalate_splitOn '/').symm
    _ = ['/'].intercalate (text'.splitOn '/') := by rw [h]
    _ = text' := List.intercalate_splitOn '/'

/-- The pieces in front of the common ones are joined again, with a slash behind
them if there are any. -/
theorem endsOnSegment_of_splitOn_suffix (h : ending.splitOn '/' <:+ path.splitOn '/') :
    EndsOnSegment path ending := by
  obtain ⟨front, hfront⟩ := h
  by_cases whole : front = []
  · left
    rw [whole, List.nil_append] at hfront
    exact eq_of_splitOn_eq hfront.symm
  · right
    have noSlash : ∀ piece ∈ front, '/' ∉ piece := by
      intro piece hpiece
      have mem : piece ∈ path.splitOn '/' := hfront ▸ List.mem_append_left _ hpiece
      exact Text.notMem_of_mem_splitOn mem
    refine ⟨['/'].intercalate front, eq_of_splitOn_eq ?_⟩
    rw [List.splitOn_append_cons_self, List.splitOn_intercalate '/' noSlash whole, hfront]

theorem endsOnSegment_iff_splitOn_suffix :
    EndsOnSegment path ending ↔ ending.splitOn '/' <:+ path.splitOn '/' :=
  ⟨splitOn_suffix_of_endsOnSegment, endsOnSegment_of_splitOn_suffix⟩

theorem EndsOnSegment.trans (h : EndsOnSegment path middle) (h' : EndsOnSegment middle ending) :
    EndsOnSegment path ending := by
  rw [endsOnSegment_iff_splitOn_suffix] at h h' ⊢
  exact h'.trans h

/-! ## The test -/

/-- A path without backslashes ends with what normalizing leaves of it. -/
theorem endsOnSegment_normalize (noBackslash : '\\' ∉ path) :
    EndsOnSegment path (normalize path) := by
  obtain ⟨cut, hcut, whole⟩ := exists_cut_append_normalize path
  rw [replaceAll_eq_self noBackslash] at hcut
  have ends := whole.endsOnSegment (normalize path)
  rw [hcut] at ends
  exact ends

/-- The end of an end is an end. -/
theorem hasPathSuffix_trans (h : hasPathSuffix path middle = true)
    (h' : hasPathSuffix middle ending = true) : hasPathSuffix path ending = true := by
  rw [hasPathSuffix_iff] at h h' ⊢
  have noBackslash : '\\' ∉ middle :=
    fun mem => backslash_notMem_normalize path (h.suffix.subset mem)
  exact (h.trans (endsOnSegment_normalize noBackslash)).trans h'

/-- **The test compares segments.**  A path ends with another text exactly if the
segments of the normalized path end with those of the text, all of them counted.
So every path ends with itself, normalized; and what ends an end of the path ends
the path, whether that end is normalized or not. -/
theorem hasPathSuffix_iff_segments (path : List Char) :
    (∀ ending, hasPathSuffix path ending = true ↔
      ending.splitOn '/' <:+ (normalize path).splitOn '/') ∧
    hasPathSuffix path (normalize path) = true ∧
    ∀ middle ending, hasPathSuffix path middle = true → hasPathSuffix middle ending = true →
      hasPathSuffix path ending = true := by
  refine ⟨fun ending => ?_, ?_, fun middle ending => hasPathSuffix_trans⟩
  · rw [hasPathSuffix_iff, endsOnSegment_iff_splitOn_suffix]
  · exact hasPathSuffix_iff.2 (.inl rfl)

/-- A name that a segment ends with is no end of the path. -/
example : hasPathSuffix "org/sample/foo/fake3.file".toList "oo/fake3.file".toList = false := by
  decide +kernel

/-- Two slashes have an empty segment between them, which is compared like any
other: the path ends with the name behind them, by way of the longer end. -/
theorem hasPathSuffix_iff_segments_doubled :
    hasPathSuffix "/src\\org//A.groovy".toList "org//A.groovy".toList = true ∧
      hasPathSuffix "/src\\org//A.groovy".toList "A.groovy".toList = true := by
  have test := hasPathSuffix_iff_segments "/src\\org//A.groovy".toList
  have outer : hasPathSuffix "/src\\org//A.groovy".toList "org//A.groovy".toList = true :=
    (test.1 _).2 (by decide +kernel)
  have inner : hasPathSuffix "org//A.groovy".toList "A.groovy".toList = true := by decide +kernel
  exact ⟨outer, test.2.2 _ _ outer inner⟩

end GroovyFindings
