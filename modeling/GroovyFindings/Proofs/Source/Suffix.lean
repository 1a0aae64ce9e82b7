import GroovyFindings.Proofs.Linter.Scope
import GroovyFindings.Proofs.Text.Blank
import GroovyFindings.Source.Scan

/-!
# The linter's patterns and the scanner's suffixes

The same list of suffixes tells the linter which files to look at, as patterns with
commas between them, and the scanner which files are in Groovy.  If there are no
commas in the suffixes, the patterns can be told apart again, and the two agree but
for the case of ASCII letters, which only the linter heeds.  So no file that the
linter looks at goes unnoticed by the scanner.

## Main definitions

* `IsLastSegment` — the name behind the last slash of a path.
* `anyName` — what the patterns begin with.

## Main results

* `listed_includesFor` — the linter's patterns, one for each suffix.
* `hasSuffix_iff_exists` — the scanner's test in terms of the dotted suffixes.
* `hasSuffix_iff_listed` — the two agree.
-/

namespace GroovyFindings

variable {suffixes : List String} {path name : List Char}

/-! ## The last segment -/

/-- The name is what stands behind the last slash of the path, or all of it. -/
def IsLastSegment (path name : List Char) : Prop :=
  '/' ∉ name ∧ (path = name ∨ ∃ above, path = above ++ '/' :: name)

theorem exists_isLastSegment (path : List Char) : ∃ name, IsLastSegment path name := by
  by_cases slash : '/' ∈ path
  · obtain ⟨behind, above, split, noSlash⟩ :=
      List.eq_append_cons_of_mem (List.mem_reverse.2 slash)
    refine ⟨behind.reverse, by simpa using noSlash, .inr ⟨above.reverse, ?_⟩⟩
    rw [← List.reverse_reverse path, split]
    simp
  · exact ⟨path, slash, .inl rfl⟩

theorem IsLastSegment.eq_lastSegment (h : IsLastSegment path name) : lastSegment path = name := by
  obtain ⟨noSlash, rfl | ⟨above, rfl⟩⟩ := h
  · rw [lastSegment, List.splitOn_eq_singleton noSlash]
    rfl
  · rw [lastSegment, List.splitOn_append_cons_self, List.splitOn_eq_singleton noSlash,
      List.getLast?_concat]
    rfl

/-- Every path has one last segment. -/
theorem isLastSegment_iff : IsLastSegment path name ↔ lastSegment path = name := by
  obtain ⟨name', h'⟩ := exists_isLastSegment path
  constructor
  · exact IsLastSegment.eq_lastSegment
  · rintro rfl
    rwa [h'.eq_lastSegment]

/-! ## Suffixes in small letters -/

theorem dotted_eq_or (suffix : List Char) :
    dotted suffix = suffix ∨ dotted suffix = '.' :: suffix := by
  unfold dotted
  split
  · exact .inl rfl
  · exact .inr rfl

/-- Only a dot is a dot in small letters. -/
theorem toLower_eq_dot {c : Char} : c.toLower = '.' ↔ c = '.' := by
  constructor
  · intro h
    unfold Char.toLower at h
    split at h
    · next capital =>
      have value := congrArg (fun c => c.val.toNat) h
      simp only [UInt32.toNat_add] at value
      have lower : 65 ≤ c.val.toNat := capital.1
      have upper : c.val.toNat ≤ 90 := capital.2
      change (c.val.toNat + 32) % 4294967296 = 46 at value
      omega
    · exact h
  · rintro rfl
    rfl

/-- It does not matter whether the dot or the small letters come first. -/
theorem dotted_smallLetters (suffix : List Char) :
    dotted (smallLetters suffix) = smallLetters (dotted suffix) := by
  cases suffix with
  | nil => rfl
  | cons c suffix =>
      by_cases dot : c = '.'
      · subst dot
        rfl
      · have dot' : c.toLower ≠ '.' := fun h => dot (toLower_eq_dot.1 h)
        have put : ∀ {c : Char} (suffix : List Char), c ≠ '.' →
            dotted (c :: suffix) = '.' :: c :: suffix := by
          intro c suffix h
          unfold dotted
          split
          · next heq => exact absurd (List.cons.inj heq).1 h
          · rfl
        rw [put suffix dot, smallLetters, List.map_cons, put _ dot']
        rfl

/-- The scanner's test: the name ends with a dotted suffix, but for the case. -/
theorem hasSuffix_iff_exists {path : String} (last : IsLastSegment path.toList name) :
    hasSuffix path suffixes = true ↔
      ∃ suffix ∈ suffixesOf suffixes, smallLetters (dotted suffix) <:+ smallLetters name := by
  simp only [hasSuffix, isLastSegment_iff.1 last, List.any_eq_true, List.isSuffixOf_iff_suffix,
    dotted_smallLetters]

/-! ## The linter's patterns -/

/-- What every pattern begins with: a file of any name in any directory. -/
def anyName : List Char := ['*', '*', '/', '*']

theorem includePattern_eq (suffix : List Char) : includePattern suffix = anyName ++ dotted suffix :=
  rfl

theorem comma_notMem_includePattern (noComma : ∀ s ∈ suffixes, ',' ∉ s.toList)
    {suffix : List Char} (h : suffix ∈ suffixesOf suffixes) : ',' ∉ includePattern suffix := by
  obtain ⟨trimmed, -⟩ := List.mem_filter.1 h
  obtain ⟨s, hs, rfl⟩ := List.mem_map.1 trimmed
  have plain : ',' ∉ Text.trim s.toList := fun hc => noComma s hs (Text.mem_of_mem_trim hc)
  obtain same | added := dotted_eq_or (Text.trim s.toList)
  · simpa [includePattern, same] using plain
  · simpa [includePattern, added] using plain

/-- Suffixes without commas can be told apart in the list. -/
theorem listed_includesFor (noComma : ∀ s ∈ suffixes, ',' ∉ s.toList) :
    Linter.listed (includesFor suffixes).toList = (suffixesOf suffixes).map includePattern := by
  rw [includesFor, String.toList_ofList]
  apply Linter.listed_intercalate
  intro pattern hpattern
  obtain ⟨suffix, hsuffix, rfl⟩ := List.mem_map.1 hpattern
  exact ⟨by simp [includePattern], comma_notMem_includePattern noComma hsuffix⟩

theorem mem_listed_includesFor_iff (noComma : ∀ s ∈ suffixes, ',' ∉ s.toList)
    {ending : List Char} : anyName ++ ending ∈ Linter.listed (includesFor suffixes).toList ↔
      ∃ suffix ∈ suffixesOf suffixes, dotted suffix = ending := by
  simp only [listed_includesFor noComma, List.mem_map, includePattern_eq,
    List.append_cancel_left_eq]

theorem Scan.Root.isGroovy_file (root : Scan.Root) (suffixes : List String) (p : Path) :
    (root.file suffixes p).isGroovy = hasSuffix (root.relative p) suffixes := by
  unfold TrackedFile.isGroovy Scan.Root.file
  cases hasSuffix (root.relative p) suffixes <;> rfl

/-- **The linter's patterns and the scanner agree but for the case.**  The scanner
takes a path for that of a Groovy file exactly if its last name ends, in small
letters, with what follows the wildcards in one of the linter's patterns.  So every
file whose name ends so as it is written, which is what the linter looks at, is
tracked as a Groovy file. -/
theorem hasSuffix_iff_listed (noComma : ∀ s ∈ suffixes, ',' ∉ s.toList) {path : String}
    (last : IsLastSegment path.toList name) :
    (hasSuffix path suffixes = true ↔
      ∃ ending, anyName ++ ending ∈ Linter.listed (includesFor suffixes).toList ∧
        smallLetters ending <:+ smallLetters name) ∧
    ∀ ending, anyName ++ ending ∈ Linter.listed (includesFor suffixes).toList → ending <:+ name →
      ∀ (root : Scan.Root) (p : Path), root.relative p = path →
        (root.file suffixes p).isGroovy = true := by
  have agree : hasSuffix path suffixes = true ↔
      ∃ ending, anyName ++ ending ∈ Linter.listed (includesFor suffixes).toList ∧
        smallLetters ending <:+ smallLetters name := by
    simp only [hasSuffix_iff_exists last, mem_listed_includesFor_iff noComma]
    constructor
    · rintro ⟨suffix, hsuffix, ends⟩
      exact ⟨_, ⟨suffix, hsuffix, rfl⟩, ends⟩
    · rintro ⟨_, ⟨suffix, hsuffix, rfl⟩, ends⟩
      exact ⟨suffix, hsuffix, ends⟩
  refine ⟨agree, ?_⟩
  intro ending looked ends root p relative
  have ends' : smallLetters ending <:+ smallLetters name := by
    obtain ⟨front, rfl⟩ := ends
    exact ⟨smallLetters front, (List.map_append ..).symm⟩
  rw [root.isGroovy_file, relative]
  exact agree.2 ⟨ending, looked, ends'⟩

/-- Suffixes with and without a dot and blanks around them, in different cases. -/
def mixedSuffixes : List String := [" .Groovy", "gvy", "\t"]

/-- The scanner takes a file in capitals for a Groovy file, by the pattern that the
linter does not find it by. -/
theorem hasSuffix_iff_listed_mixed :
    includesFor mixedSuffixes = "**/*.Groovy,**/*.gvy" ∧
      hasSuffix "src/A.GROOVY" mixedSuffixes = true ∧
      (Scan.Root.file ⟨.ofString "/p", .main⟩ mixedSuffixes (.ofString "/p/src/B.gvy")).isGroovy
        = true := by
  have noComma : ∀ s ∈ mixedSuffixes, ',' ∉ s.toList := by decide +kernel
  have last : IsLastSegment "src/A.GROOVY".toList "A.GROOVY".toList :=
    isLastSegment_iff.2 (by decide +kernel)
  have last' : IsLastSegment "src/B.gvy".toList "B.gvy".toList :=
    isLastSegment_iff.2 (by decide +kernel)
  refine ⟨by decide +kernel, ?_, ?_⟩
  · exact (hasSuffix_iff_listed noComma last).1.2
      ⟨".Groovy".toList, by decide +kernel, by decide +kernel⟩
  · exact (hasSuffix_iff_listed noComma last').2 ".gvy".toList (by decide +kernel)
      (by decide +kernel) _ _ (by decide +kernel)

end GroovyFindings
