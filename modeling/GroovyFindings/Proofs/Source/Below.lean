import Mathlib
import GroovyFindings.Proofs.Linter.Ancestor
import GroovyFindings.Proofs.Path.Relative
import GroovyFindings.Proofs.Source.Match
import GroovyFindings.Proofs.Source.Tracked

/-!
# Paths that the linter writes

The linter looks below the common ancestor of the source directories, and spells
the files it finds as seen from there.  Such a path ends the absolute path of
the file it was written for, so that it means some tracked file.  It means that
very file if no other file that it ends is preferred; which one is preferred is
settled by the paths below the source directories alone, so that a file of
another directory may be.

## Main results

* `Scan.FoundIn.spelled` — how the path of a tracked file is spelled below a
  beginning of it.
* `Scan.FoundIn.normalize_ne_nil` — a Groovy file has a path below it that means
  something.
* `fileFor?_below_commonAncestor` — what the path below the common ancestor
  means.
-/

namespace GroovyFindings

/-! ## The last segment of a Groovy file -/

/-- Joined names end with the last of them. -/
theorem exists_intercalate_eq_append {names : List (List Char)} {name : List Char}
    (h : names.getLast? = some name) : ∃ front, ['/'].intercalate names = front ++ name := by
  induction names with
  | nil => cases h
  | cons first names ih =>
      cases names with
      | nil =>
          obtain rfl := Option.some.inj h
          exact ⟨[], by simp⟩
      | cons second names =>
          rw [List.getLast?_cons_cons] at h
          obtain ⟨front, hfront⟩ := ih h
          exact ⟨first ++ '/' :: front, by
            rw [List.intercalate_cons_cons, hfront]
            simp⟩

/-- The path of a Groovy file does not end with a slash. -/
theorem getLast?_of_hasSuffix {path : String} {suffixes : List String}
    (h : hasSuffix path suffixes = true) :
    ∃ c, path.toList.getLast? = some c ∧ c ≠ '/' := by
  obtain ⟨s, -, hs⟩ := List.any_eq_true.1 h
  have nonempty : lastSegment path.toList ≠ [] := by
    intro empty
    have dotted_nil : dotted (smallLetters s) = [] := by
      simpa [empty, smallLetters] using hs
    unfold dotted at dotted_nil
    split at dotted_nil <;> simp_all
  cases hlast : path.toList.getLast? with
  | none =>
      rw [List.getLast?_eq_none_iff.1 hlast] at nonempty
      exact absurd rfl nonempty
  | some c =>
      refine ⟨c, rfl, ?_⟩
      rintro rfl
      obtain ⟨front, hfront⟩ := List.getLast?_eq_some_iff.1 hlast
      rw [hfront, lastSegment, List.splitOn_append_cons_self] at nonempty
      simp at nonempty

/-- Joined names do not begin with a slash. -/
theorem head?_intercalate_ne {names : List (List Char)}
    (h : ∀ name ∈ names, name ≠ [] ∧ '/' ∉ name) : (['/'].intercalate names).head? ≠ some '/' := by
  rcases names with _ | ⟨first, others⟩
  · simp
  · obtain ⟨hfirst, noSlash⟩ := h first (by simp)
    obtain ⟨c, chars, rfl⟩ := List.exists_cons_of_ne_nil hfirst
    have hc : c ≠ '/' := by
      rintro rfl
      simp at noSlash
    cases others <;> simpa using hc

namespace Scan.FoundIn

variable {d : Disk} {suffixes : List String} {dir base : Path} {f : TrackedFile}
  {names : List (List Char)}

section Spelled

variable (found : FoundIn d suffixes ⟨dir, .main⟩ f) (plain : d.NamesPlain)
  (absolute : dir.isAbsolute = true) (starts : base.components <+: dir.components)
  (below : f.absolute.components = base.components ++ names.map .name)
  (noDot : ['.'] ∉ f.absolute.segments)

include found plain absolute

theorem isAbsolute : f.absolute.isAbsolute = true := by
  obtain ⟨rest, hrest⟩ := (found.tidy plain absolute).exists_chars_eq
  simp [Path.isAbsolute, hrest]

/-- The file does not lie above the directory it was found in. -/
theorem not_above : ¬ f.absolute.components <+: dir.components :=
  Disk.not_prefix_of_isFile found.isFile found.isDir (found.isAbsolute plain absolute) absolute

include starts below

theorem names_ne_nil : names ≠ [] := by
  rintro rfl
  rw [List.map_nil, List.append_nil] at below
  exact found.not_above plain absolute (below ▸ starts)

include noDot

/-- Behind a beginning of the path the names are spelled with slashes between
them. -/
theorem spelled :
    (∃ before, f.absolute.chars = before ++ '/' :: ['/'].intercalate names) ∧
      ∀ name ∈ names, name ≠ [] ∧ '/' ∉ name := by
  obtain ⟨segments, hbase, hsegments⟩ := found.tidy plain absolute
  have hwhole : f.absolute.segments = [] :: segments := by
    rw [Disk.segments_of_isFile found.isFile, hbase]
  have noSlash : ∀ s ∈ [] :: segments, '/' ∉ s :=
    fun s hs => Text.notMem_of_mem_splitOn (hwhole ▸ hs : s ∈ f.absolute.segments)
  -- Every segment is the name of a component.
  have hchars : (Path.named segments).map Path.Component.chars = segments := by
    rw [Path.map_chars_named, List.filter_eq_self]
    intro s hs
    have notDot : s ≠ ['.'] := by
      rintro rfl
      exact noDot (hwhole ▸ List.mem_cons_of_mem _ hs)
    simp [Path.isSilent, hsegments s hs, notDot]
  have hcomponents : Path.Component.root :: Path.named segments =
      base.components ++ names.map .name := by
    rw [← below, Path.components_of_isAbsolute (found.isAbsolute plain absolute), hwhole]
    rfl
  obtain ⟨front, hfront⟩ : ∃ front, segments = front ++ names := by
    cases hb : base.components with
    | nil =>
        obtain ⟨name, others, rfl⟩ := List.exists_cons_of_ne_nil
          (found.names_ne_nil plain absolute starts below)
        rw [hb] at hcomponents
        cases hcomponents
    | cons b bs =>
        rw [hb, List.cons_append, List.cons.injEq] at hcomponents
        refine ⟨bs.map Path.Component.chars, ?_⟩
        have names_chars : names.map (Path.Component.chars ∘ Path.Component.name) = names :=
          List.map_id names
        rw [← hchars, hcomponents.2, List.map_append, List.map_map, names_chars]
  refine ⟨⟨['/'].intercalate ([] :: front), ?_⟩, ?_⟩
  · have hjoined : (['/'].intercalate ([] :: front) ++ '/' :: ['/'].intercalate names).splitOn '/' =
        [] :: segments := by
      rw [List.splitOn_append_cons_self, hfront, List.splitOn_intercalate, List.splitOn_intercalate,
        List.cons_append]
      · exact fun s hs => noSlash s (by simp [hfront, hs])
      · exact found.names_ne_nil plain absolute starts below
      · exact fun s hs => noSlash s (by
          obtain rfl | hs := List.mem_cons.1 hs
          · simp
          · simp [hfront, hs])
      · simp
    have whole : ['/'].intercalate f.absolute.segments = f.absolute.chars :=
      List.intercalate_splitOn '/'
    rw [← whole, hwhole, ← hjoined, List.intercalate_splitOn]
  · intro name hname
    have mem : name ∈ segments := hfront ▸ List.mem_append_right _ hname
    exact ⟨hsegments name mem, noSlash name (List.mem_cons_of_mem _ mem)⟩

/-- The path of a Groovy file below a beginning of it means something. -/
theorem normalize_ne_nil (groovy : f.isGroovy = true) :
    normalize (['/'].intercalate names) ≠ [] := by
  obtain ⟨⟨before, hbefore⟩, hnames⟩ := found.spelled plain absolute starts below noDot
  have nonempty := found.names_ne_nil plain absolute starts below
  obtain ⟨name, hlast⟩ : ∃ name, names.getLast? = some name :=
    ⟨_, List.getLast?_eq_some_getLast nonempty⟩
  obtain ⟨hname, noSlash⟩ := hnames name (List.mem_of_getLast? hlast)
  -- Both the path below the base and the relative path end with the last name.
  obtain ⟨front, hfront⟩ := exists_intercalate_eq_append hlast
  have hcomponent : f.absolute.components.getLast? = some (.name name) := by
    rw [below, List.getLast?_append, List.getLast?_map, hlast]
    rfl
  have hname' : f.absolute.chars = (before ++ '/' :: front) ++ name := by
    rw [hbefore, hfront, List.append_assoc, List.cons_append]
  obtain ⟨front', hfront'⟩ := Path.exists_chars_relativeTo? (found.isAbsolute plain absolute)
    absolute (found.not_above plain absolute) hcomponent noSlash hname'
  have hrelative : f.relative.toList = Text.replaceAll '\\' '/' (front' ++ name) := by
    rw [congrArg TrackedFile.relative found.eq_file, Root.file, Root.relative, hfront',
      String.toList_ofList]
  have suffixed : hasSuffix f.relative suffixes = true := by
    have language : f.language = some groovyLanguage := by
      simpa [TrackedFile.isGroovy] using groovy
    rw [congrArg TrackedFile.language found.eq_file] at language
    rw [congrArg TrackedFile.relative found.eq_file]
    dsimp only [Root.file] at language ⊢
    split at language
    · assumption
    · cases language
  obtain ⟨c, hc, notSlash⟩ := getLast?_of_hasSuffix suffixed
  have nonempty' : Text.replaceAll '\\' '/' name ≠ [] := by simpa [Text.replaceAll] using hname
  have last : ∀ front : List Char, (Text.replaceAll '\\' '/' (front ++ name)).getLast? =
      (Text.replaceAll '\\' '/' name).getLast? := by
    intro front
    rw [replaceAll_append, List.getLast?_append, List.getLast?_eq_some_getLast nonempty']
    rfl
  rw [hrelative, last] at hc
  exact GroovyFindings.normalize_ne_nil (hfront ▸ (last front).trans hc) notSlash

end Spelled

end Scan.FoundIn

/-! ## What the path below the common ancestor means -/

/-- **A path that the linter writes leads to a file it could have been written
for.**  Source directories with a common ancestor are scanned, and a Groovy file
of the main sources lies below it by some names, its path being spelled without
dots.  The path below the ancestor means a tracked file that it ends; it means
the very file if that is the first choice among them, by the length of the
relative path and then by the relative path itself; and unless it happens to be
the file's relative path, it means another file if not. -/
theorem fileFor?_below_commonAncestor {d : Disk} {base root : Path} {dirs test : List Path}
    {suffixes : List String} {files : List TrackedFile} {f : TrackedFile}
    {names : List (List Char)} (plain : d.NamesPlain)
    (absolute : ∀ dir ∈ dirs, dir.isAbsolute = true)
    (common : Linter.commonAncestor? dirs = some base)
    (scanned : scan d root dirs test suffixes = .ok files) (mem : f ∈ groovySources files)
    (below : f.absolute.components = base.components ++ names.map .name)
    (noDot : ['.'] ∉ f.absolute.segments) :
    let path := String.ofList (['/'].intercalate names)
    let wanted := normalize path.toList
    (∃ g ∈ groovySources files, fileFor? files path = some g ∧ endedBy g wanted = true) ∧
    (FirstChoice (groovySources files) wanted f → fileFor? files path = some f) ∧
    (path ≠ f.relative → fileFor? files path = some f →
      FirstChoice (groovySources files) wanted f) := by
  obtain ⟨hfiles, hkind⟩ := List.mem_filter.1 mem
  rw [Bool.and_eq_true, beq_iff_eq] at hkind
  obtain ⟨dir, hdir, found⟩ := Scan.exists_main_foundIn scanned hfiles hkind.2
  have joined : root.join dir = dir := by rw [Path.join, if_pos (absolute dir hdir)]
  rw [joined] at found
  have starts := Linter.commonAncestor?_prefix common dir hdir
  obtain ⟨⟨before, hbefore⟩, hnames⟩ :=
    found.spelled plain (absolute dir hdir) starts below noDot
  have means := found.normalize_ne_nil plain (absolute dir hdir) starts below noDot hkind.1
  have relative : (Path.ofString (String.ofList (['/'].intercalate names))).isAbsolute = false := by
    rw [Path.isAbsolute, Path.ofString, String.toList_ofList, beq_eq_false_iff_ne]
    exact head?_intercalate_ne hnames
  have ends : endedBy f (normalize (['/'].intercalate names)) = true := by
    have absolute' := found.isAbsolute plain (absolute dir hdir)
    rw [Path.isAbsolute, beq_iff_eq] at absolute'
    rw [endedBy, hasPathSuffix_of_append hbefore absolute', Bool.or_true]
  rw [← String.toList_ofList (l := ['/'].intercalate names)] at means ends
  have choice := fileFor?_eq_some_iff_firstChoice relative means mem ends
  exact ⟨exists_fileFor?_eq_some relative means mem ends, choice.2, fun _ => choice.1⟩

/-! ## Directories with names alike -/

/-- The inner of two files with alike paths. -/
def innerTwin : TrackedFile :=
  ⟨"X.groovy", .ofString "/p/c/a/b/X.groovy", some groovyLanguage, .main⟩

/-- The outer of two files with alike paths. -/
def outerTwin : TrackedFile :=
  ⟨"b/X.groovy", .ofString "/p/a/b/X.groovy", some groovyLanguage, .main⟩

/-- A disk with a file below `/p/a`, and another one below `/p/c/a/b`. -/
def twinDisk : Disk where
  entries := [
    ([['p']], .dir), ([['p'], ['a']], .dir), ([['p'], ['a'], ['b']], .dir),
    ([['p'], ['a'], ['b'], "X.groovy".toList], .file []),
    ([['p'], ['c']], .dir), ([['p'], ['c'], ['a']], .dir), ([['p'], ['c'], ['a'], ['b']], .dir),
    ([['p'], ['c'], ['a'], ['b'], "X.groovy".toList], .file [])]
  cwd := []

/-- The two source directories. -/
def twinDirs : List Path := [.ofString "/p/a", .ofString "/p/c/a/b"]

theorem scan_twinDisk :
    scan twinDisk ⟨['/']⟩ twinDirs [] [".groovy"] = .ok [outerTwin, innerTwin] := by
  cbv

/-- The path of the inner file below `/p` means it. -/
theorem fileFor?_innerTwin :
    fileFor? [outerTwin, innerTwin] "c/a/b/X.groovy" = some innerTwin := by
  have means := @fileFor?_below_commonAncestor twinDisk (.ofString "/p") ⟨['/']⟩ twinDirs []
    [".groovy"] [outerTwin, innerTwin] innerTwin [['c'], ['a'], ['b'], "X.groovy".toList]
    (by decide +kernel) (by decide +kernel) (by decide +kernel) scan_twinDisk (by decide +kernel)
    (by decide +kernel) (by decide +kernel)
  exact means.2.1 ⟨[outerTwin], [], rfl, by decide +kernel, by decide +kernel⟩

/-- The path of the outer file below `/p` means the inner one, whose relative path
is shorter. -/
theorem fileFor?_outerTwin_ne :
    (∀ dir ∈ twinDirs, dir.isAbsolute = true ∧ ['.'] ∉ dir.segments ∧ ['.', '.'] ∉ dir.segments) ∧
    Linter.commonAncestor? twinDirs = some (.ofString "/p") ∧
    scan twinDisk ⟨['/']⟩ twinDirs [] [".groovy"] = .ok [outerTwin, innerTwin] ∧
    outerTwin ∈ groovySources [outerTwin, innerTwin] ∧
    outerTwin.absolute.components =
      (Path.ofString "/p").components ++ [['a'], ['b'], "X.groovy".toList].map .name ∧
    fileFor? [outerTwin, innerTwin] "a/b/X.groovy" ≠ some outerTwin := by
  refine ⟨by decide +kernel, by decide +kernel, scan_twinDisk, by decide +kernel,
    by decide +kernel, by decide +kernel⟩

end GroovyFindings
