import GroovyFindings.Disk.Edit
import GroovyFindings.Proofs.Disk.Enters
import GroovyFindings.Proofs.Path.Child

/-!
# Entries of a directory by their paths

A name that is joined to the path of a directory is the path of an entry of
that directory.  What such a path leads to, what can be read there and what
writing and removing do is then said by the one place of the disk that it
stands for.

## Main definitions

* `IsFileName` — a string that can name an entry.
* `dirPlace?` — the directory that a path stands for.
* `LeadsInto` — the names joined to a path are entries of a directory.

## Main results

* `resolve_child` — where the path of an entry leads.
* `write_child`, `read_child`, `remove_child`, `find_child_of_none` — what can
  be done with a file through the path of an entry.
* `exists_leadsInto`, `leadsInto_of_dirPlace`, `dirPlace_of_leadsInto` — when
  a path leads into a directory.
* `mkdirs_of_dirPlace` — a directory that is there is not made.
-/

namespace GroovyFindings.Disk

variable {d d' : Disk} {w : Path} {dir : Place} {name : String}

/-- A string that can name an entry of a directory. -/
structure IsFileName (name : String) : Prop extends IsName name.toList where
  noSlash : '/' ∉ name.toList
  noNul : '\x00' ∉ name.toList

/-- Where the walk along a path begins. -/
def start (d : Disk) (p : Path) : Place := if p.isAbsolute then [] else d.cwd

/-- The directory that a path stands for; the empty path stands for the one in
which relative paths begin. -/
def dirPlace? (d : Disk) (p : Path) : Option Place :=
  if p.chars = [] then some d.cwd
  else
    match d.find true p with
    | .ok (place, .dir) => some place
    | _ => none

/-- Names that are joined to the path are entries of the directory. -/
def LeadsInto (d : Disk) (w : Path) (dir : Place) : Prop :=
  '\x00' ∉ w.chars ∧ ∃ links, Enters d maxLinks (d.start w) w.baseSegments links dir

theorem LeadsInto.keeps (h : d.LeadsInto w dir) (keeps : d.Keeps d') : d'.LeadsInto w dir := by
  obtain ⟨noNul, links, entered⟩ := h
  have hstart : d'.start w = d.start w := by rw [start, start, keeps.cwd]
  exact ⟨noNul, links, hstart ▸ entered.keeps keeps⟩

/-! ## Paths that can be followed -/

theorem resolve_eq_walk {p : Path} (noNul : '\x00' ∉ p.chars) (nonempty : p.chars ≠ [])
    (fits : Utf8.byteLength p.chars ≤ maxPath) (follow : Bool) :
    d.resolve follow p = d.walk follow maxLinks (d.start p) p.segments := by
  rw [resolve, if_neg noNul, if_neg nonempty, if_neg (Nat.not_lt.2 fits), start]

/-- A path that leads anywhere can be followed. -/
theorem of_resolve_eq_ok {p : Path} {follow : Bool} {target : Target}
    (h : d.resolve follow p = .ok target) :
    '\x00' ∉ p.chars ∧ p.chars ≠ [] ∧ Utf8.byteLength p.chars ≤ maxPath := by
  unfold resolve at h
  split at h
  · cases h
  · next noNul =>
    split at h
    · cases h
    · next nonempty =>
      split at h
      · cases h
      · next fits => exact ⟨noNul, nonempty, Nat.not_lt.1 fits⟩

theorem find_eq_ok_iff {p : Path} {follow : Bool} {place : Place} {node : Node} :
    d.find follow p = .ok (place, node) ↔ d.resolve follow p = .ok (.found place node) := by
  unfold find
  split <;> simp_all

/-! ## The path of an entry -/

theorem child_ne_nil (isName : IsFileName name) : (w.child name).chars ≠ [] :=
  fun h => Path.ends_join isName.noSlash isName.ne_nil (.inl h)

theorem nul_notMem_child (isName : IsFileName name) :
    '\x00' ∉ (w.child name).chars ↔ '\x00' ∉ w.chars := by
  rw [Path.mem_chars_child isName.noSlash (by decide)]
  simp [isName.noNul]

theorem endsWithSlash_child (isName : IsFileName name) : endsWithSlash (w.child name) = false := by
  rw [endsWithSlash, beq_eq_false_iff_ne]
  exact fun h => Path.ends_join isName.noSlash isName.ne_nil (.inr h)

/-- The walk along the path of an entry. -/
theorem resolve_child_eq_walk (isName : IsFileName name) (noNul : '\x00' ∉ w.chars)
    (fits : Utf8.byteLength (w.child name).chars ≤ maxPath) (follow : Bool) :
    d.resolve follow (w.child name) =
      d.walk follow maxLinks (d.start w) (w.baseSegments ++ [name.toList]) := by
  rw [resolve_eq_walk ((nul_notMem_child isName).2 noNul) (child_ne_nil isName) fits, start,
    Path.isAbsolute_child isName.noSlash, Path.segments_child isName.noSlash, start]

/-- The path of an entry leads to its place in the directory, if there is
nothing or a file. -/
theorem resolve_child (leads : d.LeadsInto w dir) (isName : IsFileName name)
    (fits : Utf8.byteLength (w.child name).chars ≤ maxPath)
    (plain : d.PlainAt (dir ++ [name.toList])) (follow : Bool) :
    d.resolve follow (w.child name) = .ok (match d.node? (dir ++ [name.toList]) with
      | none => .absent (dir ++ [name.toList])
      | some node => .found (dir ++ [name.toList]) node) := by
  obtain ⟨noNul, links, entered⟩ := leads
  rw [resolve_child_eq_walk isName noNul fits, entered.walk_append (.inl (by simp)),
    walk_name isName.toIsName]
  cases hnode : d.node? (dir ++ [name.toList]) with
  | none => rfl
  | some node =>
      obtain ⟨content, rfl⟩ := plain node hnode
      rfl

/-- A path that is too long leads nowhere, on whatever disk. -/
theorem resolve_child_of_long (isName : IsFileName name) (noNul : '\x00' ∉ w.chars)
    (long : maxPath < Utf8.byteLength (w.child name).chars) (follow : Bool) :
    d.resolve follow (w.child name) = .error .nameTooLong := by
  rw [resolve, if_neg ((nul_notMem_child isName).2 noNul), if_neg (child_ne_nil isName),
    if_pos long]

section Entry

variable (leads : d.LeadsInto w dir) (isName : IsFileName name)
  (fits : Utf8.byteLength (w.child name).chars ≤ maxPath)

include leads isName fits

theorem write_child (plain : d.PlainAt (dir ++ [name.toList])) (content : List UInt8) :
    d.write (w.child name) content = .ok (d.put (dir ++ [name.toList]) (.file content)) := by
  rw [write, resolve_child leads isName fits plain]
  cases hnode : d.node? (dir ++ [name.toList]) with
  | none => simp [endsWithSlash_child isName]
  | some node =>
      obtain ⟨old, rfl⟩ := plain node hnode
      rfl

theorem find_child_of_file {content : List UInt8}
    (file : d.node? (dir ++ [name.toList]) = some (.file content)) (follow : Bool) :
    d.find follow (w.child name) = .ok (dir ++ [name.toList], .file content) := by
  have plain : d.PlainAt (dir ++ [name.toList]) := by
    intro node hnode
    exact ⟨content, Option.some.inj (hnode.symm.trans file)⟩
  rw [find, resolve_child leads isName fits plain, file]

theorem find_child_of_none (missing : d.node? (dir ++ [name.toList]) = none) (follow : Bool) :
    d.find follow (w.child name) = .error .missing := by
  have plain : d.PlainAt (dir ++ [name.toList]) := by
    intro node hnode
    simp [missing] at hnode
  rw [find, resolve_child leads isName fits plain, missing]

theorem read_child {content : List UInt8}
    (file : d.node? (dir ++ [name.toList]) = some (.file content)) :
    d.read (w.child name) = .ok content := by
  rw [read, opened, find_child_of_file leads isName fits file]
  rfl

theorem remove_child {content : List UInt8}
    (file : d.node? (dir ++ [name.toList]) = some (.file content)) :
    d.remove (w.child name) = .ok (d.erase (dir ++ [name.toList])) := by
  rw [remove, find_child_of_file leads isName fits file]

theorem present_child_of_file {content : List UInt8}
    (file : d.node? (dir ++ [name.toList]) = some (.file content)) :
    d.present (w.child name) = true := by
  rw [present, status?, find_child_of_file leads isName fits file]
  rfl

theorem present_child_of_none (missing : d.node? (dir ++ [name.toList]) = none) :
    d.present (w.child name) = false := by
  rw [present, status?, find_child_of_none leads isName fits missing]
  rfl

end Entry

/-! ## Paths that lead into a directory -/

/-- Where the path of an entry leads anywhere, the path of the directory leads
into one. -/
theorem exists_leadsInto {follow : Bool} {target : Target} (isName : IsFileName name)
    (h : d.resolve follow (w.child name) = .ok target) :
    (∃ dir, d.LeadsInto w dir) ∧ Utf8.byteLength (w.child name).chars ≤ maxPath := by
  obtain ⟨noNul, -, fits⟩ := of_resolve_eq_ok h
  rw [nul_notMem_child isName] at noNul
  rw [resolve_child_eq_walk isName noNul fits] at h
  obtain ⟨links, dir, entered⟩ := exists_enters h (.inl ⟨_, by simp, isName.ne_nil⟩)
  exact ⟨⟨dir, noNul, links, entered⟩, fits⟩

theorem dirPlace_eq_some (h : d.dirPlace? w = some dir) (nonempty : w.chars ≠ []) :
    d.resolve true w = .ok (.found dir .dir) := by
  rw [dirPlace?, if_neg nonempty] at h
  split at h
  · next found =>
    cases h
    exact find_eq_ok_iff.1 found
  · cases h

theorem fits_of_dirPlace (h : d.dirPlace? w = some dir) :
    Utf8.byteLength w.chars ≤ maxPath := by
  by_cases empty : w.chars = []
  · simp [empty, Utf8.byteLength]
  · exact (of_resolve_eq_ok (dirPlace_eq_some h empty)).2.2

/-- Nothing is walked along the empty path, from the current directory. -/
theorem walk_of_empty (d : Disk) (empty : w.chars = []) :
    w.baseSegments = [] ∧ d.start w = d.cwd := by
  simp [Path.baseSegments, Path.segments, start, Path.isAbsolute, empty]

theorem leadsInto_of_dirPlace (h : d.dirPlace? w = some dir) : d.LeadsInto w dir := by
  by_cases empty : w.chars = []
  · rw [dirPlace?, if_pos empty] at h
    cases h
    obtain ⟨hbase, hstart⟩ := walk_of_empty d empty
    exact ⟨by simp [empty], maxLinks, by rw [hbase, hstart]; exact .here⟩
  · have found := dirPlace_eq_some h empty
    obtain ⟨noNul, -, fits⟩ := of_resolve_eq_ok found
    obtain ⟨slashes, hsegments, silent⟩ := w.exists_segments_eq_base
    rw [resolve_eq_walk noNul empty fits, hsegments] at found
    exact ⟨noNul, exists_enters_of_found found silent⟩

theorem dirPlace_of_leadsInto (leads : d.LeadsInto w dir)
    (fits : Utf8.byteLength w.chars ≤ maxPath) : d.dirPlace? w = some dir := by
  obtain ⟨noNul, links, entered⟩ := leads
  unfold dirPlace?
  split
  · next empty =>
    obtain ⟨hbase, hstart⟩ := walk_of_empty d empty
    rw [hbase, hstart] at entered
    cases entered
    rfl
  · next nonempty =>
    obtain ⟨slashes, hsegments, silent⟩ := w.exists_segments_eq_base
    have found : d.find true w = .ok (dir, .dir) := by
      rw [find_eq_ok_iff, resolve_eq_walk noNul nonempty fits, hsegments,
        entered.walk_append (.inr rfl), walk_slashes silent]
    rw [found]

/-! ## Making a directory that is there -/

/-- The slashes at the end of a path that are not looked at when a directory is
made. -/
theorem exists_withoutSlash_append (w : Path) :
    ∃ run, (withoutSlash w).chars ++ run = w.chars ∧ (∀ c ∈ run, c = '/') ∧
      (w.chars ≠ [] → (withoutSlash w).chars ≠ []) := by
  unfold withoutSlash
  split
  · exact ⟨[], by simp, by simp, id⟩
  · next chars hne =>
    obtain ⟨run, hrun, slash⟩ := Text.exists_run_dropped (· == '/') w.chars
    exact ⟨run, hrun, fun c hc => by simpa using slash c hc, fun _ => hne⟩

/-- A directory that is there is not made, and what stands in its place does. -/
theorem mkdirs_of_dirPlace (h : d.dirPlace? w = some dir) : d.mkdirs w = (d, .ok ()) := by
  by_cases empty : w.chars = []
  · rw [mkdirs, if_pos empty]
  have found := dirPlace_eq_some h empty
  have isDir : d.isDir w = true := by
    rw [isDir, status?, find_eq_ok_iff.2 found]
    rfl
  have taken : d.mkdir w = .error .taken := by
    obtain ⟨noNul, -, fits⟩ := of_resolve_eq_ok found
    obtain ⟨run, hrun, slash, nonempty⟩ := exists_withoutSlash_append w
    obtain ⟨slashes, hsegments, silent⟩ := Path.exists_segments_of_append hrun slash
    rw [resolve_eq_walk noNul empty fits, hsegments] at found
    obtain ⟨links, entered⟩ := exists_enters_of_found found silent
    obtain ⟨place, node, hwalk⟩ := entered.exists_walk_eq_found false
    have noNul' : '\x00' ∉ (withoutSlash w).chars := by
      intro nul
      exact noNul (hrun ▸ List.mem_append_left _ nul)
    have fits' : Utf8.byteLength (withoutSlash w).chars ≤ maxPath := by
      rw [← hrun, Utf8.byteLength_append] at fits
      omega
    have hstart : d.start (withoutSlash w) = d.start w := by
      obtain ⟨c, chars, hc⟩ := List.exists_cons_of_ne_nil (nonempty empty)
      simp [start, Path.isAbsolute, ← hrun, hc]
    rw [mkdir, make, resolve_eq_walk noNul' (nonempty empty) fits', hstart, Path.segments, hwalk]
  rw [mkdirs, if_neg empty, taken]
  simp [isDir]

end GroovyFindings.Disk
