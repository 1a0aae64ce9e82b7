import GroovyFindings.Proofs.Glob.Literal
import GroovyFindings.Proofs.Source.Order

/-!
# Which files are tracked

A directory is looked through by a pattern that begins with its own path.  Where
that path is a pattern for itself, all files below the directory are tracked and
no others are found in it.  Where it has wildcards, files of other directories
may be found in the place of its own.

## Main definitions

* `Disk.NamesProper` — the names on a disk are those of entries.
* `LiesBelow` — a tracked file lies below a directory, and its relative path says
  where.

## Main results

* `scan_tracks_literal_directories` — what is tracked.
* `scan_misses_bracketed` — a directory with brackets in its name.
-/

namespace GroovyFindings

/-- The names on the disk are such as entries can have. -/
def Disk.NamesProper (d : Disk) : Prop := ∀ e ∈ d.entries, ∀ name ∈ e.1, Path.Proper name

instance (d : Disk) : Decidable d.NamesProper :=
  inferInstanceAs (Decidable (∀ e ∈ d.entries, ∀ name ∈ e.1, Path.Proper name))

namespace Scan

variable {d : Disk} {base : Path} {main test : List Path} {suffixes : List String}
  {files : List TrackedFile} {f : TrackedFile} {r : Root} {names : List (List Char)}

/-- The file lies below the directory by the names, and joined to the directory its
relative path leads back to it.  The absolute path does not begin with a dot. -/
structure LiesBelow (r : Root) (names : List (List Char)) (f : TrackedFile) : Prop where
  ne_nil : names ≠ []
  proper : ∀ name ∈ names, Path.Proper name
  absolute : f.absolute.components = (r.path.below names).undotted
  relative : (∀ name ∈ names, '\\' ∉ name) → .here ∉ r.path.components →
    (r.path.join ⟨f.relative.toList⟩).SameAs f.absolute
  relative_of_dot : (∀ name ∈ names, '\\' ∉ name) → r.path.components = [.here] →
    (r.path.join ⟨f.relative.toList⟩).undotted = f.absolute.components

/-! ## What is tracked lies below -/

theorem relative_eq (hr : r.path.components ≠ []) (hne : names ≠ [])
    (proper : ∀ name ∈ names, Path.Proper name) (plain : ∀ name ∈ names, '\\' ∉ name)
    (front : .here ∉ r.path.components ∨ r.path.components = [.here]) {p : Path}
    (below : p.components = (r.path.below names).undotted) :
    (r.relative p).toList = (Path.below ⟨[]⟩ names).chars := by
  rw [Path.undotted_below hne proper] at below
  have kept : ∀ c ∈ (Path.below ⟨[]⟩ names).chars, c ≠ '\\' := by
    intro c hc
    rw [Path.chars_below hne proper] at hc
    obtain rfl | ⟨name, hname, hc⟩ := Text.mem_of_mem_intercalate hc
    · decide
    · rintro rfl
      exact plain name hname hc
  rw [Root.relative, Path.relativeTo?_below hr hne front below, String.toList_ofList,
    Option.getD_some, Text.replaceAll, List.map_congr_left fun c hc => if_neg (kept c hc),
    List.map_id']

/-- What a directory that is a pattern for itself shows lies below it. -/
theorem FoundIn.exists_liesBelow (found : FoundIn d suffixes r f) (proper : d.NamesProper)
    (literal : r.path.Literal) : ∃ names, LiesBelow r names f := by
  obtain ⟨pattern, hpattern, hfits⟩ := found.fits
  obtain rfl := Glob.eq_of_ofChars_literal literal hpattern
  obtain ⟨names, hspelled, hne, hentries⟩ := Glob.exists_of_mem_paths_literal hfits
  have hnames : ∀ name ∈ names, Path.Proper name := by
    intro name hname
    obtain ⟨e, he, hmem⟩ := hentries name hname
    exact proper e he name hmem
  have below : f.absolute.components = (r.path.below names).undotted := by
    rw [hspelled, Glob.components_spelled literal hne hnames]
  obtain ⟨place, hresolve⟩ := Disk.resolve_of_isDir found.isDir
  have nonempty := (Disk.of_resolve_eq_ok hresolve).2.1
  have hr := Path.components_ne_nil nonempty
  have back : (∀ name ∈ names, '\\' ∉ name) →
      (.here ∉ r.path.components ∨ r.path.components = [.here]) →
      r.path.join ⟨f.relative.toList⟩ = r.path.below names := by
    intro plain front
    have hrelative := relative_eq hr hne hnames plain front below
    have hfile : f.relative = r.relative f.absolute := congrArg TrackedFile.relative found.eq_file
    rw [hfile, hrelative]
    exact Path.join_below hne hnames
  refine ⟨names, hne, hnames, below, ?_, ?_⟩
  · intro plain noDot
    have noDot' : .here ∉ (r.path.below names).components := by
      rw [Path.components_below nonempty hnames, List.mem_append, not_or]
      exact ⟨noDot, by simp⟩
    rw [back plain (.inl noDot), Path.SameAs, below, Path.undotted_eq_components noDot']
  · intro plain dot
    rw [back plain (.inr dot), below]

/-! ## What lies below is tracked -/

/-- What is found in a directory is tracked. -/
theorem exists_tracked_of_walk (scanned : scan d base main test suffixes = .ok files)
    (hr : r ∈ roots base main test) :
    ∃ paths, r.walk d = .ok paths ∧ ∀ p ∈ paths, ∃ f ∈ files, f.absolute.SameAs p := by
  unfold scan at scanned
  obtain ⟨walks, hwalks, h⟩ := exists_of_bind_eq_ok scanned
  cases h
  obtain ⟨w, hw, hwalk⟩ := exists_mem_of_mapM hwalks r hr
  obtain ⟨paths, hpaths, rfl⟩ := exists_of_map_eq_ok hwalk
  refine ⟨paths, hpaths, fun p hp => ?_⟩
  have tracked : r.file suffixes p ∈ walks.flatMap fun w => w.1.track suffixes w.2 :=
    List.mem_flatMap.2 ⟨(r, paths), hw, mem_track.2 ⟨p, hp, rfl⟩⟩
  exact exists_mem_dropRepeats tracked

/-- A file below a directory that is a pattern for itself is found in it. -/
theorem exists_mem_walk {paths : List Path} (walked : r.walk d = .ok paths)
    (literal : r.path.Literal) (isDir : d.isDir r.path = true) (hne : names ≠ [])
    (proper : ∀ name ∈ names, Path.Proper name) (isFile : d.isFile (r.path.below names) = true) :
    ∃ p ∈ paths, p.components = (r.path.below names).undotted := by
  rw [Root.walk, if_pos isDir] at walked
  split at walked
  · next pattern hpattern =>
    cases walked
    obtain rfl := Glob.eq_of_ofChars_literal literal hpattern
    obtain ⟨found, isFile'⟩ := Glob.mem_paths_literal literal hne proper isFile
    exact ⟨_, List.mem_filter.2 ⟨found, isFile'⟩, Glob.components_spelled literal hne proper⟩
  · cases walked

/-- **Directories that are patterns for themselves are tracked as they are.**  If
the directory is there, every file below it is tracked, at any depth; and every
tracked file was found in some directory, and lies below it if that directory is a
pattern for itself. -/
theorem scan_tracks_literal_directories (proper : d.NamesProper)
    (scanned : scan d base main test suffixes = .ok files) :
    (∀ r ∈ roots base main test, r.path.Literal → d.isDir r.path = true →
      ∀ names : List (List Char), names ≠ [] → (∀ name ∈ names, Path.Proper name) →
        d.isFile (r.path.below names) = true →
          ∃ f ∈ files, f.absolute.components = (r.path.below names).undotted) ∧
    ∀ f ∈ files, ∃ r ∈ roots base main test, FoundIn d suffixes r f ∧
      (r.path.Literal → ∃ names, LiesBelow r names f) := by
  constructor
  · intro r hr literal isDir names hne hnames isFile
    obtain ⟨paths, walked, tracked⟩ := exists_tracked_of_walk scanned hr
    obtain ⟨p, hp, hcomponents⟩ := exists_mem_walk walked literal isDir hne hnames isFile
    obtain ⟨f, hf, same⟩ := tracked p hp
    exact ⟨f, hf, same.trans hcomponents⟩
  · intro f hf
    obtain ⟨r, hr, found⟩ := exists_foundIn scanned hf
    exact ⟨r, hr, found, found.exists_liesBelow proper⟩

/-! ## A directory without wildcards -/

/-- A disk with files in `/p/src`, and one beside it. -/
def plainDisk : Disk where
  entries := [
    ([['p']], .dir), ([['p'], "src".toList], .dir), ([['p'], "src".toList, ['q']], .dir),
    ([['p'], "src".toList, ['q'], "B.groovy".toList], .file []),
    ([['p'], "src".toList, "A.groovy".toList], .file []),
    ([['p'], "C.groovy".toList], .file [])]
  cwd := []

/-- The files in `/p/src` as they are tracked. -/
def plainFiles : List TrackedFile := [
  ⟨"A.groovy", .ofString "/p/src/A.groovy", some groovyLanguage, .main⟩,
  ⟨"q/B.groovy", .ofString "/p/src/q/B.groovy", some groovyLanguage, .main⟩]

theorem scan_plainDisk :
    scan plainDisk (.ofString "/p") [.ofString "src"] [] [".groovy"] = .ok plainFiles := by
  cbv

/-- The files below `/p/src` are tracked, and only those. -/
theorem scan_tracks_src :
    (∃ f ∈ plainFiles, f.absolute.components =
      ((Path.ofString "/p/src").below [['q'], "B.groovy".toList]).undotted) ∧
    ∀ f ∈ plainFiles, ∃ names, LiesBelow ⟨.ofString "/p/src", .main⟩ names f := by
  obtain ⟨tracked, below⟩ := @scan_tracks_literal_directories plainDisk (.ofString "/p")
    [.ofString "src"] [] [".groovy"] plainFiles (by decide +kernel) scan_plainDisk
  have looked : roots (.ofString "/p") [.ofString "src"] [] = [⟨.ofString "/p/src", .main⟩] := by
    decide
  have literal : (Path.ofString "/p/src").Literal := by
    constructor <;> decide +kernel
  rw [looked] at tracked below
  constructor
  · exact tracked ⟨.ofString "/p/src", .main⟩ (by simp) literal (by cbv)
      [['q'], "B.groovy".toList] (by simp) (by decide +kernel) (by cbv)
  · intro f hf
    obtain ⟨r, hr, -, hbelow⟩ := below f hf
    obtain rfl := List.mem_singleton.1 hr
    exact hbelow literal

/-! ## A directory with brackets -/

/-- A disk with a file in `/p/src[1]`, and one in `/p/src1`. -/
def bracketDisk : Disk where
  entries := [
    ([['p']], .dir), ([['p'], "src[1]".toList], .dir),
    ([['p'], "src[1]".toList, "A.groovy".toList], .file []),
    ([['p'], "src1".toList], .dir), ([['p'], "src1".toList, "B.groovy".toList], .file [])]
  cwd := []

/-- The one file that is tracked. -/
def besideBrackets : TrackedFile :=
  ⟨"../src1/B.groovy", .ofString "/p/src1/B.groovy", some groovyLanguage, .main⟩

/-- The brackets are read as a wildcard: the file in the directory is not tracked,
and one of another directory is. -/
theorem scan_misses_bracketed :
    bracketDisk.NamesProper ∧
    bracketDisk.isDir (.ofString "/p/src[1]") = true ∧
    bracketDisk.isFile ((Path.ofString "/p/src[1]").below ["A.groovy".toList]) = true ∧
    scan bracketDisk (.ofString "/p") [.ofString "src[1]"] [] [".groovy"] =
      .ok [besideBrackets] ∧
    ¬ besideBrackets.absolute.SameAs ((Path.ofString "/p/src[1]").below ["A.groovy".toList]) ∧
    ¬ (Path.ofString "/p/src[1]").components <+: besideBrackets.absolute.components := by
  refine ⟨by decide +kernel, by cbv, by cbv, by cbv, by decide +kernel, by decide +kernel⟩

end Scan

end GroovyFindings
