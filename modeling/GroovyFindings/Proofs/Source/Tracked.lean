import GroovyFindings.Proofs.Disk.Kind
import GroovyFindings.Proofs.Glob.Descent
import GroovyFindings.Source.Scan

/-!
# Where tracked files come from

Every tracked file was found in one of the directories that were looked at, and
is kept as that directory shows it.

## Main definitions

* `Scan.FoundIn` — a file as a directory shows it.

## Main results

* `Scan.exists_foundIn` — every tracked file is shown by one of the directories.
* `Scan.exists_main_foundIn` — one of the main sources by a main directory.
* `Scan.FoundIn.tidy` — its path is spelled with one slash before each name.
-/

namespace GroovyFindings.Scan

variable {d : Disk} {base : Path} {main test : List Path} {suffixes : List String}
  {files : List TrackedFile} {f : TrackedFile} {r : Root}

/-- The file was found in a directory, and is kept as the directory shows it. -/
structure FoundIn (d : Disk) (suffixes : List String) (r : Root) (f : TrackedFile) : Prop where
  isDir : d.isDir r.path = true
  isFile : d.isFile f.absolute = true
  eq_file : f = r.file suffixes f.absolute
  fits : ∃ pattern, Glob.Pattern.ofChars ((r.path.child "**").child "*").chars = .ok pattern ∧
    f.absolute ∈ pattern.paths d

theorem dropRepeats_sublist (files : List TrackedFile) : (dropRepeats files).Sublist files := by
  induction files with
  | nil => exact .slnil
  | cons f rest ih => exact (List.filter_sublist.trans ih).cons_cons f

theorem foundIn_of_mem_track {paths : List Path} (walked : r.walk d = .ok paths)
    (h : f ∈ r.track suffixes paths) : FoundIn d suffixes r f := by
  obtain ⟨p, hp, rfl⟩ := List.mem_map.1 h
  rw [List.mem_mergeSort] at hp
  unfold Root.walk at walked
  split at walked
  · next isDir =>
    split at walked
    · next pattern hpattern =>
      cases walked
      obtain ⟨hfits, isFile⟩ := List.mem_filter.1 hp
      exact ⟨isDir, isFile, rfl, pattern, hpattern, hfits⟩
    · cases walked
  · cases walked
    cases hp

/-- Every tracked file is shown by one of the directories. -/
theorem exists_foundIn (h : scan d base main test suffixes = .ok files) (hf : f ∈ files) :
    ∃ r ∈ roots base main test, FoundIn d suffixes r f := by
  unfold scan at h
  obtain ⟨walks, hwalks, h⟩ := exists_of_bind_eq_ok h
  cases h
  obtain ⟨w, hw, htrack⟩ := List.mem_flatMap.1 ((dropRepeats_sublist _).subset hf)
  obtain ⟨r, hr, hwalk⟩ := exists_of_mem_mapM hwalks w hw
  obtain ⟨paths, hpaths, rfl⟩ := exists_of_map_eq_ok hwalk
  exact ⟨r, hr, foundIn_of_mem_track hpaths htrack⟩

/-- A file of the main sources is shown by a main directory. -/
theorem exists_main_foundIn (h : scan d base main test suffixes = .ok files) (hf : f ∈ files)
    (isMain : f.kind = .main) :
    ∃ dir ∈ main, FoundIn d suffixes ⟨base.join dir, .main⟩ f := by
  obtain ⟨r, hr, found⟩ := exists_foundIn h hf
  have kind : r.kind = .main := by
    rw [found.eq_file] at isMain
    exact isMain
  obtain hr | hr := List.mem_append.1 hr
  · obtain ⟨dir, hdir, rfl⟩ := List.mem_map.1 hr
    exact ⟨dir, hdir, found⟩
  · obtain ⟨dir, -, rfl⟩ := List.mem_map.1 hr
    cases kind

/-- On a disk with plain names the path of a tracked file of an absolute
directory is spelled with one slash before each name. -/
theorem FoundIn.tidy (found : FoundIn d suffixes r f) (plain : d.NamesPlain)
    (absolute : r.path.isAbsolute = true) : f.absolute.Tidy := by
  obtain ⟨pattern, hpattern, hfits⟩ := found.fits
  have head : ((r.path.child "**").child "*").chars.head? = some '/' := by
    have habs : ((r.path.child "**").child "*").isAbsolute = true := by
      rw [Path.isAbsolute_child (by decide), Path.isAbsolute_child (by decide), absolute]
    simpa [Path.isAbsolute] using habs
  exact Glob.Pattern.paths_tidy plain hpattern head hfits

end GroovyFindings.Scan
