import GroovyFindings.Proofs.Disk.Entry

/-!
# Canonical paths

A path that leads to something leads to a place above which there are only
directories.  The path of such a place is spelled with the names that lead there,
has the places above it above it, and leads to nothing else.  So it is canonical, if
it can be followed at all: it may be too long for that.

## Main definitions

* `Reached` — a place with what is there, below directories only.

## Main results

* `Reached.above` — the places above such a place are directories.
* `parent?_pathOf_nil`, `parent?_pathOf` — the path above the path of a place.
* `exists_reached` — a canonical path is that of such a place.
* `Reached.eq_of_canonical` — the path of such a place stands for itself.
-/

namespace GroovyFindings.Disk

variable {d : Disk} {place here : Place} {node : Node} {name : List Char}

/-- A place with what is there.  All places above it are directories, and its names
are such as a path can have. -/
inductive Reached (d : Disk) : Place → Node → Prop
  | root : Reached d [] .dir
  | entry {dir : Place} {name : List Char} {node : Node} (isDir : Reached d dir .dir)
      (isName : IsName name) (noSlash : '/' ∉ name)
      (there : d.node? (dir ++ [name]) = some node) : Reached d (dir ++ [name]) node

namespace Reached

/-- The place above a directory. -/
theorem dropLast (h : d.Reached here .dir) : d.Reached here.dropLast .dir := by
  cases h with
  | root => exact .root
  | entry isDir _ _ _ =>
      rw [List.dropLast_concat]
      exact isDir

/-- A place is reached by names of entries. -/
theorem isName (h : d.Reached place node) : ∀ name ∈ place, IsName name ∧ '/' ∉ name := by
  induction h with
  | root => simp
  | entry _ isName noSlash _ ih =>
      intro x hx
      rw [List.mem_append, List.mem_singleton] at hx
      obtain hx | rfl := hx
      · exact ih x hx
      · exact ⟨isName, noSlash⟩

/-- None of those names can be left out of a path. -/
theorem heard (h : d.Reached place node) :
    ∀ name ∈ place, Path.isSilent name = false ∧ '/' ∉ name :=
  fun name hname => ⟨(h.isName name hname).1.not_silent, (h.isName name hname).2⟩

/-- What is above a place is a directory. -/
theorem above (h : d.Reached place node) (starts : here <+: place) :
    here = place ∨ d.Reached here .dir := by
  induction h with
  | root => exact .inl (List.prefix_nil.1 starts)
  | entry isDir _ _ _ ih =>
      obtain whole | above := List.prefix_concat_iff.1 starts
      · exact .inl whole
      · obtain rfl | further := ih above
        · exact .inr isDir
        · exact .inr further

/-- A walk from a directory leads to a place that is reached. -/
theorem of_walk {follow : Bool} {links : Nat} {segments : List (List Char)}
    (h : d.walk follow links here segments = .ok (.found place node))
    (isDir : d.Reached here .dir) (noSlash : ∀ x ∈ segments, '/' ∉ x) : d.Reached place node := by
  fun_induction walk d follow links here segments with
  | case1 =>
      cases h
      exact isDir
  | case2 _ _ _ _ _ ih => exact ih h isDir fun x hx => noSlash x (List.mem_cons_of_mem _ hx)
  | case3 _ _ _ _ ih =>
      exact ih h isDir.dropLast fun x hx => noSlash x (List.mem_cons_of_mem _ hx)
  | case7 =>
      rename_i noisy named short place isDir' ih
      have entered : d.Reached place .dir :=
        .entry isDir (isName_of_walk noisy named short) (noSlash _ (List.mem_cons_self ..)) isDir'
      exact ih h entered fun x hx => noSlash x (List.mem_cons_of_mem _ hx)
  | case8 =>
      rename_i noisy named short place content isFile
      obtain ⟨rfl, rfl⟩ := Target.found.inj (Except.ok.inj h)
      exact .entry isDir (isName_of_walk noisy named short) (noSlash _ (List.mem_cons_self ..))
        isFile
  | case10 =>
      rename_i noisy named short place target isLink last
      obtain ⟨rfl, rfl⟩ := Target.found.inj (Except.ok.inj h)
      exact .entry isDir (isName_of_walk noisy named short) (noSlash _ (List.mem_cons_self ..))
        isLink
  | case13 =>
      rename_i here _ _ _ _ _ _ target isLink goesOn links nonempty ih
      have start : d.Reached (if target.isAbsolute then [] else here) .dir := by
        split
        · exact .root
        · exact isDir
      refine ih h start ?_
      intro x hx
      obtain hx | hx := List.mem_append.1 hx
      · exact Text.notMem_of_mem_splitOn hx
      · exact noSlash x (List.mem_cons_of_mem _ hx)
  | case4 | case5 | case6 | case9 | case11 | case12 => cases h

/-- The names of a directory lead to it. -/
theorem walk_append {follow : Bool} {links : Nat} (h : d.Reached place .dir)
    (rest : List (List Char)) :
    d.walk follow links [] (place ++ rest) = d.walk follow links place rest := by
  generalize hnode : Node.dir = node at h
  induction h generalizing rest with
  | root => rfl
  | entry _ isName _ there ih =>
      rw [List.append_assoc, List.singleton_append, ih _ rfl,
        walk_dir isName (by rw [there, hnode])]

/-- The names of a place lead to it, unless it is a link. -/
theorem walk_eq {follow : Bool} {links : Nat} (h : d.Reached place node)
    (noLink : ∀ target, node ≠ .link target) :
    d.walk follow links [] place = .ok (.found place node) := by
  cases h with
  | root => rw [walk]
  | entry isDir isName _ there =>
      rw [isDir.walk_append]
      cases node with
      | file content => simp only [walk_name isName, there, if_true]
      | link target => exact absurd rfl (noLink target)
      | dir => rw [walk_dir isName there, walk]

end Reached

/-- If links are followed, no link is found. -/
theorem ne_link_of_walk {links : Nat} {segments : List (List Char)}
    (h : d.walk true links here segments = .ok (.found place node)) (target : Path) :
    node ≠ .link target := by
  generalize hfollow : true = follow at h
  fun_induction walk d follow links here segments with
  | case1 | case8 =>
      cases (Target.found.inj (Except.ok.inj h)).2
      simp
  | case2 | case3 | case7 =>
      rename_i ih
      exact ih h
  | case13 =>
      rename_i ih
      exact ih h
  | case10 =>
      rename_i last
      exact absurd (hfollow.trans last.2) (by simp)
  | case4 | case5 | case6 | case9 | case11 | case12 => cases h

/-! ## The path of a place -/

/-- A path of names is spelled with them. -/
theorem segments_pathOf (noSlash : ∀ name ∈ place, '/' ∉ name) :
    (pathOf place).segments = [] :: if place = [] then [[]] else place := by
  rw [pathOf, Path.segments, Text.splitOn_cons_self]
  split
  · next empty =>
    rw [empty]
    rfl
  · next nonempty => rw [List.splitOn_intercalate '/' noSlash nonempty]

/-- The path of a place does not end with a slash, but for that of the root. -/
theorem baseSegments_pathOf (h : ∀ x ∈ place, Path.isSilent x = false ∧ '/' ∉ x) :
    (pathOf place).baseSegments = [] :: place := by
  by_cases nonempty : place = []
  · subst nonempty
    rfl
  have segments : (pathOf place).segments = [] :: place := by
    rw [segments_pathOf fun x hx => (h x hx).2, if_neg nonempty]
  obtain whole | slash := (pathOf place).segments_eq_base_or
  · rw [← whole, segments]
  · rw [segments] at slash
    have last : place.getLast? = some [] := by
      have ends := congrArg List.getLast? slash
      rwa [List.getLast?_concat, List.getLast?_cons_of_ne_nil nonempty] at ends
    exact absurd (h [] (List.mem_of_getLast? last)).1 (by decide)

/-- The path of an entry says which directory it is in. -/
theorem eq_of_child_pathOf {place' : Place} {name name' : String}
    (h : ∀ x ∈ place, Path.isSilent x = false ∧ '/' ∉ x)
    (h' : ∀ x ∈ place', Path.isSilent x = false ∧ '/' ∉ x)
    (noSlash : '/' ∉ name.toList) (noSlash' : '/' ∉ name'.toList)
    (same : (pathOf place).child name = (pathOf place').child name') : place = place' := by
  have segments := congrArg Path.segments same
  rw [Path.segments_child noSlash, Path.segments_child noSlash', baseSegments_pathOf h,
    baseSegments_pathOf h'] at segments
  exact (List.cons.inj (List.append_inj_left' segments rfl)).2

/-- There is nothing above the root. -/
theorem parent?_pathOf_nil : (pathOf []).parent? = none := by decide

/-- Above the path of an entry is that of its directory. -/
theorem parent?_pathOf (h : ∀ x ∈ place ++ [name], Path.isSilent x = false ∧ '/' ∉ x) :
    (pathOf (place ++ [name])).parent? = some (pathOf place) := by
  have heard : ∀ {names : Place}, (∀ x ∈ names, x ∈ place ++ [name]) →
      Text.dropEndWhile Path.isSilent names = names := by
    intro names among
    apply Text.dropEndWhile_eq_self
    exact fun x hx => (h x (among x (List.mem_of_getLast? hx))).1
  have body : (pathOf (place ++ [name])).bodySegments = place ++ [name] :=
    List.splitOn_intercalate '/' (fun x hx => (h x hx).2) (by simp)
  rw [Path.parent?, body, heard fun x hx => hx]
  split
  · next empty => simp at empty
  · rw [List.dropLast_concat, heard fun x hx => List.mem_append_left _ hx]
    rfl

/-! ## Canonical paths -/

theorem canonical_eq_ok_iff {p s : Path} : d.canonical p = .ok s ↔
    ∃ place node, d.resolve true p = .ok (.found place node) ∧ s = pathOf place := by
  rw [canonical]
  constructor
  · intro h
    cases found : d.find true p with
    | error f =>
        rw [found] at h
        cases h
    | ok there =>
        rw [found] at h
        exact ⟨there.1, there.2, find_eq_ok_iff.1 found, (Except.ok.inj h).symm⟩
  · rintro ⟨place, node, found, rfl⟩
    rw [find_eq_ok_iff.2 found]
    rfl

/-- A canonical path is the path of a place that is reached, and of no link. -/
theorem exists_reached {p s : Path} (cwd : d.Reached d.cwd .dir) (h : d.canonical p = .ok s) :
    ∃ place node, s = pathOf place ∧ d.Reached place node ∧ ∀ target, node ≠ .link target := by
  obtain ⟨place, node, found, rfl⟩ := canonical_eq_ok_iff.1 h
  obtain ⟨noNul, nonempty, fits⟩ := of_resolve_eq_ok found
  rw [resolve_eq_walk noNul nonempty fits] at found
  have start : d.Reached (d.start p) .dir := by
    unfold Disk.start
    split
    · exact .root
    · exact cwd
  refine ⟨place, node, rfl, ?_, ne_link_of_walk found⟩
  exact .of_walk found start fun x hx => Text.notMem_of_mem_splitOn hx

/-- A dot stands for the current directory. -/
theorem canonical_dot (d : Disk) : d.canonical (.ofString ".") = .ok (pathOf d.cwd) := by
  rw [canonical_eq_ok_iff]
  refine ⟨d.cwd, .dir, ?_, rfl⟩
  have start : d.start (.ofString ".") = d.cwd := rfl
  have segments : (Path.ofString ".").segments = [['.']] := rfl
  rw [resolve_eq_walk (by decide) (by decide) (by decide), start, segments, walk_silent (.inr rfl),
    walk]

/-- The path of a place leads to that place, if it can be followed. -/
theorem Reached.resolve_pathOf (h : d.Reached place node) (noLink : ∀ target, node ≠ .link target)
    {target : Target} (followed : d.resolve true (pathOf place) = .ok target) :
    target = .found place node := by
  obtain ⟨noNul, nonempty, fits⟩ := of_resolve_eq_ok followed
  have root : d.start (pathOf place) = [] := rfl
  rw [resolve_eq_walk noNul nonempty fits, root, segments_pathOf fun x hx => (h.isName x hx).2,
    walk_silent (.inl rfl)] at followed
  split at followed
  · next empty =>
    subst empty
    have found : d.walk true maxLinks [] [] = .ok (.found [] node) := h.walk_eq noLink
    rw [walk_silent (.inl rfl), found] at followed
    exact (Except.ok.inj followed).symm
  · rw [h.walk_eq noLink] at followed
    exact (Except.ok.inj followed).symm

/-- The path of a place stands for itself, if it stands for anything. -/
theorem Reached.eq_of_canonical (h : d.Reached place node) (noLink : ∀ target, node ≠ .link target)
    {s : Path} (canonical : d.canonical (pathOf place) = .ok s) : s = pathOf place := by
  obtain ⟨there, node', found, rfl⟩ := canonical_eq_ok_iff.1 canonical
  cases h.resolve_pathOf noLink found
  rfl

end GroovyFindings.Disk
