import GroovyFindings.Proofs.Source.Meaning

/-!
# A source reported by its own relative path

A report may name a source by the relative path it is tracked with.  Then the
path ends the relative path of that source, and among the sources whose relative
path it ends none comes before that one: what a path ends has at least its
bytes, and has as many only if it is the path itself, or the path with some of
its slashes turned into backslashes, which come later.

The path may end the absolute path of another source as well, and that one is
ranked by its relative path, which can be anything.  The source that is found has
the reported relative path just if no such source is ranked before it.

## Main results

* `shortFirst_le_of_ends` — what a plain path ends comes no earlier than it.
* `fileFor?_own_relative_iff` — a source reported by its own relative path.
* `fileFor?_shadowed_ne` — a source found in place of the one that is named.
-/

namespace GroovyFindings

variable {files : List TrackedFile} {f g : TrackedFile}

/-! ## The bytes of a normalized path -/

theorem utf8Len_replaceAll (path : List Char) :
    String.utf8Len (Text.replaceAll '\\' '/' path) = String.utf8Len path := by
  induction path with
  | nil => rfl
  | cons c path ih =>
      show String.utf8Len ((if c = '\\' then '/' else c) :: Text.replaceAll '\\' '/' path) = _
      rw [String.utf8Len_cons, String.utf8Len_cons, ih]
      by_cases backslash : c = '\\'
      · rw [if_pos backslash, backslash]
        rfl
      · rw [if_neg backslash]

theorem utf8Len_pos {text : List Char} (h : text ≠ []) : 0 < String.utf8Len text := by
  obtain ⟨c, rest, rfl⟩ := List.exists_cons_of_ne_nil h
  have one := Char.utf8Size_pos c
  rw [String.utf8Len_cons]
  omega

/-- A slash comes before a backslash. -/
theorem ofList_replaceAll_le (path : List Char) :
    String.ofList (Text.replaceAll '\\' '/' path) ≤ String.ofList path := by
  rw [String.le_iff_toList_le, String.toList_ofList, String.toList_ofList]
  induction path with
  | nil => exact le_refl _
  | cons c path ih =>
      rw [Text.replaceAll, List.map_cons]
      by_cases backslash : c = '\\'
      · rw [if_pos backslash, backslash]
        exact le_of_lt (List.Lex.rel (by decide))
      · rw [if_neg backslash]
        exact List.cons_le_cons c ih

/-- What a path ends comes no earlier than a source with that relative path. -/
theorem shortFirst_le_of_ends
    (ends : EndsOnSegment (normalize g.relative.toList) f.relative.toList) :
    shortFirst f ≤ shortFirst g := by
  obtain ⟨front, hfront⟩ := ends.suffix
  obtain ⟨cut, hcut, -⟩ := exists_cut_append_normalize g.relative.toList
  rw [← hfront, ← List.append_assoc] at hcut
  have bytes : g.relative.utf8ByteSize = String.utf8Len (cut ++ front) + f.relative.utf8ByteSize := by
    rw [← String.ofList_toList (s := g.relative), ← String.ofList_toList (s := f.relative),
      String.utf8ByteSize_ofList, String.utf8ByteSize_ofList, ← String.utf8Len_append, hcut,
      utf8Len_replaceAll]
  rw [shortFirst, shortFirst, Prod.Lex.toLex_le_toLex]
  by_cases whole : cut ++ front = []
  · right
    rw [whole, List.nil_append] at hcut
    rw [whole] at bytes
    refine ⟨by rw [bytes]; exact (Nat.zero_add _).symm, ?_⟩
    have smaller := ofList_replaceAll_le g.relative.toList
    rw [← hcut, String.ofList_toList, String.ofList_toList] at smaller
    exact smaller
  · left
    have more := utf8Len_pos whole
    show f.relative.utf8ByteSize < g.relative.utf8ByteSize
    omega

/-! ## The source that is found -/

section Own

variable (mem : f ∈ groovySources files) (plain : PlainRelative f.relative.toList)

include plain

theorem PlainRelative.not_isAt (g : TrackedFile) : ¬ IsAt f.relative g := by
  rintro ⟨absolute, -⟩
  rw [Path.isAbsolute, Path.ofString, beq_iff_eq] at absolute
  exact plain.noSlash absolute

theorem PlainRelative.endsPathOf_iff :
    EndsPathOf f.relative g ↔
      EndsOnSegment (normalize g.relative.toList) f.relative.toList ∨
        EndsOnSegment (normalize g.absolute.chars) f.relative.toList := by
  rw [EndsPathOf, plain.normalize_eq]

include mem

/-- The best of the sources that the path ends is found: the path ends its own. -/
theorem exists_firstLeast_own :
    ∃ g, fileFor? files f.relative = some g ∧
      FirstLeast shortFirst (EndsPathOf f.relative) (groovySources files) g := by
  have own : EndsPathOf f.relative f := plain.endsPathOf_iff.2 (.inl (.inl plain.normalize_eq))
  have nonempty : normalize f.relative.toList ≠ [] := by
    rw [plain.normalize_eq]
    exact plain.nonempty
  cases found : fileFor? files f.relative with
  | none =>
      have unqualified := fileFor?_eq_none_iff.1 found f mem
      exact absurd (.inr ⟨nonempty, .inl own⟩) unqualified
  | some g =>
      refine ⟨g, rfl, ?_⟩
      have means := fileFor?_eq_some_iff_means.1 found
      cases means with
      | exact first => exact absurd first.holds (plain.not_isAt g)
      | inner _ _ best => exact best
      | outer _ _ noInner _ => exact absurd own (noInner f mem)

/-- **Which source is found for the relative path of one.**  Some source always
is: one with that relative path, or one whose absolute path ends with it and
whose own relative path is ranked before it.  It is one with that relative path
just if no source of the latter kind is tracked. -/
theorem fileFor?_own_relative_iff :
    (∃ g ∈ groovySources files, fileFor? files f.relative = some g ∧
      (g.relative = f.relative ∨
        EndsOnSegment (normalize g.absolute.chars) f.relative.toList ∧
          shortFirst g < shortFirst f)) ∧
    ((∃ g, fileFor? files f.relative = some g ∧ g.relative = f.relative) ↔
      ∀ g ∈ groovySources files, EndsOnSegment (normalize g.absolute.chars) f.relative.toList →
        shortFirst f ≤ shortFirst g) := by
  obtain ⟨g, found, best⟩ := exists_firstLeast_own mem plain
  have own : EndsPathOf f.relative f := plain.endsPathOf_iff.2 (.inl (.inl plain.normalize_eq))
  have first : shortFirst g ≤ shortFirst f := best.least mem own
  constructor
  · refine ⟨g, best.mem, found, ?_⟩
    obtain inRelative | inAbsolute := plain.endsPathOf_iff.1 best.holds
    · have last := shortFirst_le_of_ends inRelative
      exact .inl (relative_eq_of_shortFirst (le_antisymm first last))
    · obtain before | same := lt_or_eq_of_le first
      · exact .inr ⟨inAbsolute, before⟩
      · exact .inl (relative_eq_of_shortFirst same)
  · constructor
    · rintro ⟨g', found', relative⟩ h hmem ends
      obtain rfl : g = g' := Option.some.inj (found.symm.trans found')
      have same : shortFirst g = shortFirst f := by rw [shortFirst, shortFirst, relative]
      rw [← same]
      exact best.least hmem (plain.endsPathOf_iff.2 (.inr ends))
    · intro unranked
      have last : shortFirst f ≤ shortFirst g := by
        obtain inRelative | inAbsolute := plain.endsPathOf_iff.1 best.holds
        · exact shortFirst_le_of_ends inRelative
        · exact unranked g best.mem inAbsolute
      exact ⟨g, found, relative_eq_of_shortFirst (le_antisymm first last)⟩

end Own

/-! ## A source in the shadow of another one -/

/-- A helper in the package `util`. -/
def packagedHelper : TrackedFile :=
  ⟨"util/Helper.groovy", .ofString "/p/main/util/Helper.groovy", some groovyLanguage, .main⟩

/-- A helper in a package that ends alike. -/
def nestedHelper : TrackedFile :=
  ⟨"a/util/Helper.groovy", .ofString "/p/main/a/util/Helper.groovy", some groovyLanguage, .main⟩

/-- A helper without a package, below a source directory that is called `util`. -/
def bareHelper : TrackedFile :=
  ⟨"Helper.groovy", .ofString "/p/shared/util/Helper.groovy", some groovyLanguage, .main⟩

theorem plainRelative_packagedHelper : PlainRelative packagedHelper.relative.toList where
  nonempty := by decide
  noBackslash := by decide
  noSlash := by decide
  noDot := by
    intro rest h
    cases h

/-- Beside the nested helper the packaged one is found by its relative path. -/
theorem fileFor?_packagedHelper :
    ∃ g, fileFor? [nestedHelper, packagedHelper] packagedHelper.relative = some g ∧
      g.relative = packagedHelper.relative := by
  have mem : packagedHelper ∈ groovySources [nestedHelper, packagedHelper] := by decide +kernel
  have ranked : ∀ g ∈ [nestedHelper, packagedHelper], shorter packagedHelper g = true := by
    decide +kernel
  refine (fileFor?_own_relative_iff mem plainRelative_packagedHelper).2.2 ?_
  intro g hg _
  exact (shorter_iff_shortFirst _ _).1 (ranked g (List.mem_filter.1 hg).1)

/-- Beside the bare helper it is not. -/
theorem fileFor?_shadowed_ne :
    packagedHelper ∈ groovySources [packagedHelper, bareHelper] ∧
      PlainRelative packagedHelper.relative.toList ∧
      fileFor? [packagedHelper, bareHelper] packagedHelper.relative = some bareHelper ∧
      bareHelper.relative ≠ packagedHelper.relative := by
  exact ⟨by decide +kernel, plainRelative_packagedHelper, by decide +kernel, by decide +kernel⟩

end GroovyFindings
