import GroovyFindings.Proofs.Disk.Entry

/-!
# Files and directories by their paths

## Main results

* `segments_of_isFile` — the path of a file does not end with a slash.
* `not_prefix_of_isFile` — no file is above a directory.
-/

namespace GroovyFindings.Disk

variable {d : Disk} {p q : Path}

theorem resolve_of_isDir (h : d.isDir p = true) :
    ∃ place, d.resolve true p = .ok (.found place .dir) := by
  unfold isDir status? at h
  split at h
  · next place node hfind =>
    obtain rfl : node = .dir := by simpa using h
    exact ⟨place, find_eq_ok_iff.1 hfind⟩
  · cases h

theorem resolve_of_isFile (h : d.isFile p = true) :
    ∃ place content, d.resolve true p = .ok (.found place (.file content)) := by
  unfold isFile status? at h
  split at h
  · next content hstatus =>
    split at hstatus
    · next place node hfind =>
      cases hstatus
      exact ⟨place, content, find_eq_ok_iff.1 hfind⟩
    · cases hstatus
  · cases h

/-- The path of a file does not end with a slash. -/
theorem segments_of_isFile (h : d.isFile p = true) : p.segments = p.baseSegments := by
  obtain hsegments | hsegments := p.segments_eq_base_or
  · exact hsegments
  · obtain ⟨place, content, found⟩ := resolve_of_isFile h
    obtain ⟨noNul, nonempty, fits⟩ := of_resolve_eq_ok found
    rw [resolve_eq_walk noNul nonempty fits, hsegments] at found
    cases eq_dir_of_slash found

/-- No file is above a directory. -/
theorem not_prefix_of_isFile (file : d.isFile p = true) (dir : d.isDir q = true)
    (hp : p.isAbsolute = true) (hq : q.isAbsolute = true) : ¬ p.components <+: q.components := by
  rintro ⟨more, hmore⟩
  rw [Path.components_of_isAbsolute hp, Path.components_of_isAbsolute hq, List.cons_append,
    List.cons.injEq] at hmore
  have noisy : (p.segments ++ more.map Path.Component.chars).filter (!Path.isSilent ·) =
      q.segments.filter (!Path.isSilent ·) := by
    have whole : q.segments.filter (!Path.isSilent ·) =
        p.segments.filter (!Path.isSilent ·) ++ more.map Path.Component.chars := by
      rw [← Path.map_chars_named, ← hmore.2, List.map_append, Path.map_chars_named]
    have left : ∀ x ∈ more.map Path.Component.chars, (!Path.isSilent x) = true := by
      intro x hx
      have mem : x ∈ q.segments.filter (!Path.isSilent ·) :=
        whole ▸ List.mem_append_right _ hx
      exact (List.mem_filter.1 mem).2
    rw [whole, List.filter_append, List.filter_eq_self.2 left]
  have root : ∀ {p : Path}, p.isAbsolute = true → d.start p = [] := fun h => by simp [start, h]
  -- The directory is entered by way of the file, which is then a directory as well.
  obtain ⟨place, foundDir⟩ := resolve_of_isDir dir
  obtain ⟨noNul, nonempty, fits⟩ := of_resolve_eq_ok foundDir
  rw [resolve_eq_walk noNul nonempty fits, root hq, ← List.append_nil q.segments] at foundDir
  obtain ⟨links, entered⟩ := exists_enters_of_found foundDir (by simp)
  obtain ⟨links', between, before⟩ :=
    exists_enters (entered.congr noisy).walk_eq (.inr (.inr ⟨rfl, _, rfl⟩))
  obtain ⟨place', content, foundFile⟩ := resolve_of_isFile file
  obtain ⟨noNul, nonempty, fits⟩ := of_resolve_eq_ok foundFile
  rw [resolve_eq_walk noNul nonempty fits, root hp, before.walk_eq] at foundFile
  cases foundFile

end GroovyFindings.Disk
