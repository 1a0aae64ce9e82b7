import GroovyFindings.Proofs.Source.Match

/-!
# A source is found under its relative path

A report may spell the relative path of a source as it is tracked, with dots in
front of it, or below any other path.  Whatever stands in front of the path is
cut off in whole segments, so that the path itself stays; then the path ends the
source's own, or the source's path ends the reported one, and some source is
found.

## Main definitions

* `PlainRelative` — a relative path that normalizing leaves alone.
* `ReportedAs` — the spellings of a relative path in a report.

## Main results

* `normalize_append` — normalizing leaves a plain path behind whole segments.
* `hasPathSuffix_append` — a path behind whole segments ends with that path.
* `exists_fileFor?_of_reportedAs` — what is spelled like a source means a source.
* `mem_of_fileFor?_eq_some` — nothing but a source is meant.
-/

namespace GroovyFindings

/-! ## Plain relative paths -/

/-- A path that is not empty, has no backslash, and begins neither with a slash
nor with a dot and a slash. -/
structure PlainRelative (path : List Char) : Prop where
  nonempty : path ≠ []
  noBackslash : '\\' ∉ path
  noSlash : path.head? ≠ some '/'
  noDot : ∀ rest, path ≠ '.' :: '/' :: rest

/-- The ways in which a report may spell a relative path: as it is, with dots in
front of it, or behind any text and a slash. -/
inductive ReportedAs (relative : String) : (reported : String) → Prop
  | itself : ReportedAs relative relative
  | dotted {reported : String} (h : ReportedAs relative reported) :
      ReportedAs relative ("./" ++ reported)
  | behind (above : String) : ReportedAs relative (above ++ "/" ++ relative)

/-! ## What stands in front of a path -/

/-- The end of whole segments is whole segments. -/
theorem WholeSegments.of_append {xs ys : List Char} (whole : WholeSegments (xs ++ ys)) :
    WholeSegments ys := by
  cases hlast : ys.getLast? with
  | none => exact .inl (List.getLast?_eq_none_iff.1 hlast)
  | some c =>
      refine .inr ?_
      cases whole with
      | inl nothing => simp_all
      | inr slash => simp_all [List.getLast?_append]

theorem WholeSegments.slashed {front : List Char} (whole : WholeSegments front) :
    WholeSegments (Text.replaceAll '\\' '/' front) := by
  cases whole with
  | inl nothing => exact .inl (by rw [nothing]; rfl)
  | inr slash => exact .inr (by simp [Text.replaceAll, List.getLast?_map, slash])

/-- What normalizing leaves of whole segments is whole segments. -/
theorem WholeSegments.normalized {front : List Char} (whole : WholeSegments front) :
    WholeSegments (normalize front) := by
  obtain ⟨cut, hcut, -⟩ := exists_cut_append_normalize front
  exact WholeSegments.of_append (hcut ▸ whole.slashed)

section Plain

variable {front path : List Char} (plain : PlainRelative path)

include plain

theorem PlainRelative.slashed : Text.replaceAll '\\' '/' path = path :=
  replaceAll_eq_self plain.noBackslash

/-- Dots are dropped from what stands in front of a path, and no further: two
characters are dropped at a time, and whole segments end with a slash. -/
theorem dropDots_append (whole : WholeSegments front) :
    dropDots (front ++ path) = dropDots front ++ path := by
  fun_induction dropDots front with
  | case1 rest ih =>
      have behind : WholeSegments rest := @WholeSegments.of_append ['.', '/'] rest whole
      show dropDots (rest ++ path) = dropDots rest ++ path
      exact ih behind
  | case2 front other =>
      cases front with
      | nil =>
          rw [List.nil_append, dropDots]
          exact plain.noDot
      | cons c rest =>
          cases rest with
          | nil =>
              have slash : c = '/' := by
                cases whole with
                | inl nothing => cases nothing
                | inr slash => simpa using slash
              rw [slash]
              rfl
          | cons c' rest =>
              have noDots : ∀ rest', c :: c' :: (rest ++ path) ≠ '.' :: '/' :: rest' := by
                intro rest' h
                obtain ⟨rfl, rfl, -⟩ : c = '.' ∧ c' = '/' ∧ rest ++ path = rest' := by
                  simpa using h
                exact other rest rfl
              show dropDots (c :: c' :: (rest ++ path)) = c :: c' :: (rest ++ path)
              rw [dropDots]
              exact noDots

/-- Slashes are dropped from what stands in front of a path, and no further. -/
theorem dropWhile_slash_append :
    (front ++ path).dropWhile (· == '/') = front.dropWhile (· == '/') ++ path := by
  have stays : path.dropWhile (· == '/') = path := by
    apply Text.dropWhile_eq_self
    intro c hc
    have : c ≠ '/' := fun slash => plain.noSlash (slash ▸ hc)
    simpa using this
  rw [List.dropWhile_append]
  split
  · next dropped => rw [stays, List.isEmpty_iff.1 dropped, List.nil_append]
  · rfl

/-- Normalizing leaves a plain path behind whole segments as it is. -/
theorem normalize_append (whole : WholeSegments front) :
    normalize (front ++ path) = normalize front ++ path := by
  simp only [normalize, replaceAll_append, plain.slashed]
  rw [dropDots_append plain whole.slashed, dropWhile_slash_append plain]

theorem PlainRelative.normalize_eq : normalize path = path :=
  normalize_append plain (.inl rfl)

/-- A path behind whole segments ends with that path. -/
theorem hasPathSuffix_append (whole : WholeSegments front) :
    hasPathSuffix (front ++ path) path = true := by
  rw [hasPathSuffix, normalize_append plain whole]
  cases whole.normalized with
  | inl nothing => simp [nothing]
  | inr slash =>
      have stripped : Text.stripEnd? path (normalize front ++ path) = some (normalize front) :=
        Text.stripEnd?_eq_some_iff.2 rfl
      simp [stripped, slash]

end Plain

/-- However a report spells a relative path, whole segments stand in front of it. -/
theorem ReportedAs.exists_front {relative reported : String} (h : ReportedAs relative reported) :
    ∃ front, WholeSegments front ∧ reported.toList = front ++ relative.toList := by
  induction h with
  | itself => exact ⟨[], .inl rfl, rfl⟩
  | @dotted reported h ih =>
      obtain ⟨front, whole, spelled⟩ := ih
      refine ⟨['.', '/'] ++ front, ?_, ?_⟩
      · exact (show WholeSegments ['.', '/'] from .inr rfl).append whole
      · rw [String.toList_append, spelled, List.append_assoc]
        rfl
  | behind above => exact ⟨above.toList ++ ['/'], .inr (by simp), by simp⟩

/-! ## The source that is found -/

variable {sources files : List TrackedFile} {f : TrackedFile}

theorem mem_groovySources :
    f ∈ groovySources files ↔ f ∈ files ∧ f.language = some groovyLanguage ∧ f.kind = .main := by
  simp [groovySources, TrackedFile.isGroovy]

/-- A source whose path ends the reported one is found, or another one is
preferred. -/
theorem exists_matchSuffix? {wanted : List Char} (nonempty : wanted ≠ []) (mem : f ∈ sources)
    (ends : endsIn f wanted = true) : ∃ g, matchSuffix? sources wanted = some g := by
  have candidates : sources.filter (endsIn · wanted) ≠ [] :=
    List.ne_nil_of_mem (List.mem_filter.2 ⟨mem, ends⟩)
  obtain ⟨g, hg⟩ := exists_firstLeast? longer candidates
  cases hinner : firstLeast? shorter (sources.filter (endedBy · wanted)) with
  | some g' => exact ⟨g', by simp [matchSuffix?, nonempty, hinner]⟩
  | none => exact ⟨g, by simp [matchSuffix?, nonempty, hinner, hg]⟩

theorem mem_of_matchSuffix?_eq_some {wanted : List Char} (h : matchSuffix? sources wanted = some f) :
    f ∈ sources := by
  unfold matchSuffix? at h
  split at h
  · cases h
  · split at h
    · next g hg =>
      cases h
      exact (List.mem_filter.1 (mem_of_firstLeast?_eq_some hg)).1
    · exact (List.mem_filter.1 (mem_of_firstLeast?_eq_some h)).1

/-- Nothing but a Groovy source is meant by any path. -/
theorem mem_of_fileFor?_eq_some {reported : String} (h : fileFor? files reported = some f) :
    f ∈ groovySources files := by
  unfold fileFor? at h
  dsimp only at h
  split at h
  · next g exact =>
    cases h
    unfold exactMatch? at exact
    split at exact
    · exact List.mem_of_find?_eq_some exact
    · cases exact
  · exact mem_of_matchSuffix?_eq_some h

theorem exists_fileFor?_of_matchSuffix? {reported : String}
    (h : ∃ g, matchSuffix? (groovySources files) (normalize reported.toList) = some g) :
    ∃ g, fileFor? files reported = some g := by
  obtain ⟨g, hg⟩ := h
  cases exact : exactMatch? (groovySources files) (.ofString reported) with
  | some g' => exact ⟨g', by simp [fileFor?, exact]⟩
  | none => exact ⟨g, by simp [fileFor?, exact, hg]⟩

/-- What spells the relative path of a source means some source, whatever the
other ones are. -/
theorem exists_fileFor?_of_reportedAs {reported : String} (mem : f ∈ groovySources files)
    (plain : PlainRelative f.relative.toList) (h : ReportedAs f.relative reported) :
    ∃ g ∈ groovySources files, fileFor? files reported = some g := by
  obtain ⟨front, whole, spelled⟩ := h.exists_front
  have wanted : normalize reported.toList = normalize front ++ f.relative.toList := by
    rw [spelled, normalize_append plain whole]
  have nonempty : normalize reported.toList ≠ [] := by
    rw [wanted]
    exact List.append_ne_nil_of_right_ne_nil _ plain.nonempty
  have ends : endsIn f (normalize reported.toList) = true := by
    have named : f.relative.isEmpty = false := by
      have := plain.nonempty
      simpa [String.isEmpty_iff] using this
    rw [endsIn, plain.normalize_eq, wanted, hasPathSuffix_append plain whole.normalized, named]
    rfl
  obtain ⟨g, hg⟩ := exists_fileFor?_of_matchSuffix? (exists_matchSuffix? nonempty mem ends)
  exact ⟨g, mem_of_fileFor?_eq_some hg, hg⟩

end GroovyFindings
