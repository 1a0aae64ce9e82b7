import GroovyFindings.Disk.Resolve

/-!
# Directories that are entered

Following a path is a walk from directory to directory up to its last
name.  `Enters` is that walk as a relation: one constructor for each way in
which a segment is passed.  A walk that passes some segments goes on with the
others from the directory that it has entered, and a disk on which only files
have changed is entered alike.

## Main definitions

* `IsName` — a segment that names an entry.
* `Enters` — the directories that segments lead through.
* `PlainAt` — nothing or a file at a place.
* `Keeps` — a disk with the directories and links of another one.

## Main results

* `Enters.walk_append` — the walk goes on where the segments lead.
* `exists_enters`, `exists_enters_of_found` — a walk that comes to an entry, or
  to a directory, has entered what leads there.
* `Enters.keeps` — the same directories are entered on a disk that keeps them.
-/

namespace GroovyFindings.Disk

variable {d d' : Disk} {follow : Bool} {links links' : Nat} {here there : Place}
  {segment : List Char} {xs ys rest : List (List Char)}

/-! ## One segment -/

/-- A segment that names an entry of a directory. -/
structure IsName (segment : List Char) : Prop where
  ne_nil : segment ≠ []
  ne_dot : segment ≠ ['.']
  ne_dots : segment ≠ ['.', '.']
  short : Utf8.byteLength segment ≤ maxName

theorem IsName.not_silent (h : IsName segment) : Path.isSilent segment = false := by
  simp [Path.isSilent, h.ne_nil, h.ne_dot]

theorem walk_silent (h : segment = [] ∨ segment = ['.']) :
    walk d follow links here (segment :: rest) = walk d follow links here rest := by
  rw [walk, if_pos h]

theorem walk_up :
    walk d follow links here (['.', '.'] :: rest) = walk d follow links here.dropLast rest := by
  rw [walk, if_neg (by simp), if_pos rfl]

theorem isName_of_walk (noisy : ¬ (segment = [] ∨ segment = ['.']))
    (named : ¬ segment = ['.', '.']) (short : ¬ maxName < Utf8.byteLength segment) :
    IsName segment :=
  ⟨(noisy <| .inl ·), (noisy <| .inr ·), named, Nat.not_lt.1 short⟩

/-- Slashes lead nowhere. -/
theorem walk_slashes (h : ∀ x ∈ xs, x = []) :
    walk d follow links here xs = .ok (.found here .dir) := by
  induction xs with
  | nil => rw [walk]
  | cons x xs ih =>
      rw [walk_silent (.inl (h x (by simp)))]
      exact ih fun y hy => h y (by simp [hy])

/-- A name leads on by what it names. -/
theorem walk_name (h : IsName segment) :
    walk d follow links here (segment :: rest) =
      match d.node? (here ++ [segment]) with
      | none => if rest.all (·.isEmpty) then .ok (.absent (here ++ [segment])) else .error .missing
      | some .dir => walk d follow links (here ++ [segment]) rest
      | some (.file content) =>
          if rest = [] then .ok (.found (here ++ [segment]) (.file content))
          else .error .notDirectory
      | some (.link target) =>
          if rest = [] ∧ follow = false then .ok (.found (here ++ [segment]) (.link target))
          else
            match links with
            | 0 => .error .tooManyLinks
            | links + 1 =>
                if target.chars = [] then .error .missing
                else walk d follow links (if target.isAbsolute then [] else here)
                  (target.segments ++ rest) := by
  rw [walk, if_neg (by simp [h.ne_nil, h.ne_dot]), if_neg h.ne_dots]
  exact if_neg (Nat.not_lt.2 h.short)

theorem walk_dir (h : IsName segment) (isDir : d.node? (here ++ [segment]) = some .dir) :
    walk d follow links here (segment :: rest) =
      walk d follow links (here ++ [segment]) rest := by
  rw [walk_name h, isDir]

theorem walk_link {target : Path} (h : IsName segment)
    (isLink : d.node? (here ++ [segment]) = some (.link target)) (nonempty : target.chars ≠ [])
    (passed : rest ≠ [] ∨ follow = true) :
    walk d follow (links + 1) here (segment :: rest) =
      walk d follow links (if target.isAbsolute then [] else here) (target.segments ++ rest) := by
  have goesOn : ¬ (rest = [] ∧ follow = false) := by
    rintro ⟨rfl, rfl⟩
    simp at passed
  simp only [walk_name h, isLink, if_neg goesOn, if_neg nonempty]

/-! ## The walk through directories -/

/-- The segments lead from one directory to another one, with the numbers of
links that may still be followed before and behind them. -/
inductive Enters (d : Disk) : Nat → Place → List (List Char) → Nat → Place → Prop
  | here {links : Nat} {here : Place} : Enters d links here [] links here
  | silent {links links' : Nat} {here there : Place} {segment : List Char}
      {rest : List (List Char)} (silent : segment = [] ∨ segment = ['.'])
      (further : Enters d links here rest links' there) :
      Enters d links here (segment :: rest) links' there
  | up {links links' : Nat} {here there : Place} {rest : List (List Char)}
      (further : Enters d links here.dropLast rest links' there) :
      Enters d links here (['.', '.'] :: rest) links' there
  | dir {links links' : Nat} {here there : Place} {segment : List Char}
      {rest : List (List Char)} (isName : IsName segment)
      (isDir : d.node? (here ++ [segment]) = some .dir)
      (further : Enters d links (here ++ [segment]) rest links' there) :
      Enters d links here (segment :: rest) links' there
  | link {links links' : Nat} {here there : Place} {segment : List Char}
      {rest : List (List Char)} {target : Path} (isName : IsName segment)
      (isLink : d.node? (here ++ [segment]) = some (.link target))
      (nonempty : target.chars ≠ [])
      (further : Enters d links (if target.isAbsolute then [] else here)
        (target.segments ++ rest) links' there) :
      Enters d (links + 1) here (segment :: rest) links' there

namespace Enters

/-- The walk goes on where the segments lead. -/
theorem walk_append (h : Enters d links here xs links' there)
    (goesOn : ys ≠ [] ∨ follow = true) :
    walk d follow links here (xs ++ ys) = walk d follow links' there ys := by
  induction h with
  | here => rfl
  | silent silent _ ih => rw [List.cons_append, walk_silent silent, ih]
  | up _ ih => rw [List.cons_append, walk_up, ih]
  | dir isName isDir _ ih => rw [List.cons_append, walk_dir isName isDir, ih]
  | link isName isLink nonempty _ ih =>
      rw [List.cons_append, walk_link isName isLink nonempty (goesOn.imp_left (by simp [·])),
        ← List.append_assoc, ih]

/-- Segments that lead into a directory lead there. -/
theorem walk_eq (h : Enters d links here xs links' there) :
    walk d true links here xs = .ok (.found there .dir) := by
  rw [← List.append_nil xs, h.walk_append (.inr rfl), walk]

/-- Segments that lead into a directory lead to something, also if a link at
the end is not followed. -/
theorem exists_walk_eq_found (h : Enters d links here xs links' there) (follow : Bool) :
    ∃ place node, walk d follow links here xs = .ok (.found place node) := by
  induction h with
  | here => exact ⟨_, _, by rw [walk]⟩
  | silent silent _ ih => rwa [walk_silent silent]
  | up _ ih => rwa [walk_up]
  | dir isName isDir _ ih => rwa [walk_dir isName isDir]
  | @link _ _ _ _ _ rest _ isName isLink nonempty _ ih =>
      by_cases last : rest = [] ∧ follow = false
      · exact ⟨_, _, by simp only [walk_name isName, isLink, if_pos last]; rfl⟩
      · have goesOn : rest ≠ [] ∨ follow = true := by
          rwa [Decidable.not_and_iff_or_not, Bool.not_eq_false] at last
        rwa [walk_link isName isLink nonempty goesOn]

end Enters

/-! ## What a walk has entered -/

/-- A walk that gets as far as to a later name, or to something that is there
behind a slash, or to a directory, has entered the directories before it. -/
theorem exists_enters {target : Target}
    (h : walk d follow links here (xs ++ ys) = .ok target)
    (past : (∃ y ∈ ys, y ≠ []) ∨ (ys ≠ [] ∧ ∃ place node, target = .found place node) ∨
      (follow = true ∧ ∃ place, target = .found place .dir)) :
    ∃ links' there, Enters d links here xs links' there := by
  generalize hs : xs ++ ys = segments at h
  fun_induction walk d follow links here segments generalizing xs with
  | case1 =>
      obtain ⟨rfl, -⟩ := List.append_eq_nil_iff.1 hs
      exact ⟨_, _, .here⟩
  | case2 _ _ _ _ silent ih =>
      obtain ⟨rfl, -⟩ | ⟨xs, rfl, rest⟩ := List.append_eq_cons_iff.1 hs
      · exact ⟨_, _, .here⟩
      · obtain ⟨_, _, further⟩ := ih rest.symm h
        exact ⟨_, _, .silent silent further⟩
  | case3 _ _ _ _ ih =>
      obtain ⟨rfl, -⟩ | ⟨xs, rfl, rest⟩ := List.append_eq_cons_iff.1 hs
      · exact ⟨_, _, .here⟩
      · obtain ⟨_, _, further⟩ := ih rest.symm h
        exact ⟨_, _, .up further⟩
  | case7 =>
      rename_i noisy named short place isDir ih
      obtain ⟨rfl, -⟩ | ⟨xs, rfl, rest⟩ := List.append_eq_cons_iff.1 hs
      · exact ⟨_, _, .here⟩
      · obtain ⟨_, _, further⟩ := ih rest.symm h
        exact ⟨_, _, .dir (isName_of_walk noisy named short) isDir further⟩
  | case13 =>
      rename_i here segment tail noisy named short place target isLink goesOn links nonempty ih
      obtain ⟨rfl, -⟩ | ⟨xs, rfl, rest⟩ := List.append_eq_cons_iff.1 hs
      · exact ⟨_, _, .here⟩
      · have joined : target.segments ++ xs ++ ys = target.segments ++ tail := by
          rw [rest, List.append_assoc]
        obtain ⟨_, _, further⟩ := ih joined h
        exact ⟨_, _, .link (isName_of_walk noisy named short) isLink nonempty further⟩
  | case5 =>
      rename_i slashes
      obtain ⟨rfl, -⟩ | ⟨xs, rfl, rfl⟩ := List.append_eq_cons_iff.1 hs
      · exact ⟨_, _, .here⟩
      · obtain ⟨y, hy, hname⟩ | ⟨-, place, node, rfl⟩ | ⟨-, place, rfl⟩ := past
        · simp at slashes
          exact absurd (slashes.2 y hy) hname
        · cases h
        · cases h
  | case8 =>
      obtain ⟨rfl, -⟩ | ⟨xs, rfl, rest⟩ := List.append_eq_cons_iff.1 hs
      · exact ⟨_, _, .here⟩
      · obtain ⟨y, hy, hname⟩ | ⟨hys, -⟩ | ⟨-, place, rfl⟩ := past
        · simp [(List.append_eq_nil_iff.1 rest.symm).2] at hy
        · exact absurd (List.append_eq_nil_iff.1 rest.symm).2 hys
        · cases h
  | case10 =>
      rename_i last
      obtain ⟨rfl, -⟩ | ⟨xs, rfl, rest⟩ := List.append_eq_cons_iff.1 hs
      · exact ⟨_, _, .here⟩
      · have atEnd : ys = [] := (List.append_eq_nil_iff.1 (rest.symm.trans last.1)).2
        obtain ⟨y, hy, hname⟩ | ⟨hys, -⟩ | ⟨-, place, rfl⟩ := past
        · simp [atEnd] at hy
        · exact absurd atEnd hys
        · cases h
  | case4 | case6 | case9 | case11 | case12 => cases h

/-- Segments behind which there are only slashes, and which lead to a directory,
enter that directory. -/
theorem exists_enters_of_found
    (h : walk d true links here (xs ++ ys) = .ok (.found there .dir))
    (slashes : ∀ y ∈ ys, y = []) : ∃ links', Enters d links here xs links' there := by
  obtain ⟨l, between, entered⟩ := exists_enters h (.inr (.inr ⟨rfl, _, rfl⟩))
  rw [entered.walk_append (.inr rfl), walk_slashes slashes] at h
  cases h
  exact ⟨l, entered⟩

/-- What stands before a slash and is there is a directory. -/
theorem eq_dir_of_slash {place : Place} {node : Node}
    (h : walk d follow links here (xs ++ [[]]) = .ok (.found place node)) : node = .dir := by
  obtain ⟨l, between, entered⟩ := exists_enters h (.inr (.inl ⟨by simp, _, _, rfl⟩))
  rw [entered.walk_append (.inl (by simp)), walk_slashes (by simp)] at h
  cases h
  rfl

/-! ## Segments that denote nothing -/

theorem Enters.of_silent (h : ∀ x ∈ xs, Path.isSilent x = true)
    (further : Enters d links here ys links' there) : Enters d links here (xs ++ ys) links' there := by
  induction xs with
  | nil => exact further
  | cons x xs ih =>
      have silent : x = [] ∨ x = ['.'] := by simpa [Path.isSilent] using h x (by simp)
      exact .silent silent (ih fun y hy => h y (by simp [hy]))

/-- Segments that denote nothing make no difference to where others lead. -/
theorem Enters.congr (h : Enters d links here xs links' there)
    (same : ys.filter (!Path.isSilent ·) = xs.filter (!Path.isSilent ·)) :
    Enters d links here ys links' there := by
  induction h generalizing ys with
  | here =>
      rw [List.filter_nil, List.filter_eq_nil_iff] at same
      exact List.append_nil ys ▸ .of_silent (fun y hy => by simpa using same y hy) .here
  | @silent _ _ _ _ segment _ silent _ ih =>
      have skipped : Path.isSilent segment = true := by simpa [Path.isSilent] using silent
      exact ih (by rw [same, List.filter_cons_of_neg (by simp [skipped])])
  | up _ ih =>
      rw [List.filter_cons_of_pos (by decide), List.filter_eq_cons_iff] at same
      obtain ⟨before, after, rfl, silent, -, same⟩ := same
      exact .of_silent (fun y hy => by simpa using silent y hy) (.up (ih same))
  | dir isName isDir _ ih =>
      have noisy := isName.not_silent
      rw [List.filter_cons_of_pos (by simp [noisy]), List.filter_eq_cons_iff] at same
      obtain ⟨before, after, rfl, silent, -, same⟩ := same
      exact .of_silent (fun y hy => by simpa using silent y hy) (.dir isName isDir (ih same))
  | link isName isLink nonempty _ ih =>
      have noisy := isName.not_silent
      rw [List.filter_cons_of_pos (by simp [noisy]), List.filter_eq_cons_iff] at same
      obtain ⟨before, after, rfl, silent, -, same⟩ := same
      exact .of_silent (fun y hy => by simpa using silent y hy)
        (.link isName isLink nonempty (ih (by rw [List.filter_append, same, List.filter_append])))

/-! ## Disks that differ in files -/

/-- A place that a file can be put at: there is nothing, or a file. -/
def PlainAt (d : Disk) (place : Place) : Prop :=
  ∀ node, d.node? place = some node → ∃ content, node = .file content

/-- One disk has the directories and links of another one, and begins relative
paths in the same place. -/
structure Keeps (d d' : Disk) : Prop where
  cwd : d'.cwd = d.cwd
  dirs : ∀ {place}, d.node? place = some .dir → d'.node? place = some .dir
  links : ∀ {place target}, d.node? place = some (.link target) →
    d'.node? place = some (.link target)

theorem node?_erase_self (d : Disk) {place : Place} (h : place ≠ []) :
    (d.erase place).node? place = none := by
  simp [node?, erase, h]

theorem node?_erase_of_ne (d : Disk) {place other : Place} (h : other ≠ place) :
    (d.erase place).node? other = d.node? other := by
  unfold node? erase
  split
  · rfl
  · congr 1
    rw [List.find?_filter]
    congr 1
    funext e
    by_cases he : e.1 = other
    · simp [he, h]
    · simp [he]

theorem PlainAt.ne_nil {place : Place} (plain : d.PlainAt place) : place ≠ [] := by
  rintro rfl
  obtain ⟨content, h⟩ := plain .dir (node?_nil d)
  cases h

/-- What happens to a file, or to nothing, happens to no directory and no link. -/
theorem PlainAt.keeps {place : Place} (plain : d.PlainAt place) (cwd : d'.cwd = d.cwd)
    (same : ∀ other, other ≠ place → d'.node? other = d.node? other) : d.Keeps d' where
  cwd := cwd
  dirs {other} h := by
    refine (same other ?_).trans h
    rintro rfl
    obtain ⟨content, hfile⟩ := plain _ h
    cases hfile
  links {other target} h := by
    refine (same other ?_).trans h
    rintro rfl
    obtain ⟨content, hfile⟩ := plain _ h
    cases hfile

theorem PlainAt.keeps_put {place : Place} (plain : d.PlainAt place) (node : Node) :
    d.Keeps (d.put place node) :=
  plain.keeps rfl fun _ h => node?_put_of_ne d node h

theorem PlainAt.keeps_erase {place : Place} (plain : d.PlainAt place) :
    d.Keeps (d.erase place) :=
  plain.keeps rfl fun _ h => node?_erase_of_ne d h

/-- What is left on a disk had been there before. -/
theorem node?_of_erase {place other : Place} {node : Node}
    (h : (d.erase place).node? other = some node) : d.node? other = some node := by
  by_cases hother : other = place
  · subst hother
    by_cases hroot : other = []
    · simpa [hroot] using h
    · rw [node?_erase_self d hroot] at h
      cases h
  · rwa [node?_erase_of_ne d hother] at h

theorem PlainAt.erase {place : Place} (plain : d.PlainAt place) (other : Place) :
    (d.erase other).PlainAt place :=
  fun node h => plain node (node?_of_erase h)

theorem PlainAt.put {place : Place} (plain : d.PlainAt place) (other : Place)
    (content : List UInt8) : (d.put other (.file content)).PlainAt place := by
  intro node h
  by_cases hplace : place = other
  · subst hplace
    rw [node?_put_self d _ plain.ne_nil] at h
    exact ⟨content, (Option.some.inj h).symm⟩
  · rw [node?_put_of_ne d _ hplace] at h
    exact plain node h

/-- A disk keeps what it had before something was removed from it. -/
theorem keeps_of_erase (d : Disk) (place : Place) : (d.erase place).Keeps d :=
  ⟨rfl, node?_of_erase, node?_of_erase⟩

theorem Keeps.trans {d'' : Disk} (h : d.Keeps d') (h' : d'.Keeps d'') : d.Keeps d'' where
  cwd := h'.cwd.trans h.cwd
  dirs isDir := h'.dirs (h.dirs isDir)
  links isLink := h'.links (h.links isLink)

/-- On a disk that keeps them the same directories are entered. -/
theorem Enters.keeps (h : Enters d links here xs links' there) (keeps : d.Keeps d') :
    Enters d' links here xs links' there := by
  induction h with
  | here => exact .here
  | silent silent _ ih => exact .silent silent ih
  | up _ ih => exact .up ih
  | dir isName isDir _ ih => exact .dir isName (keeps.dirs isDir) ih
  | link isName isLink nonempty _ ih => exact .link isName (keeps.links isLink) nonempty ih

end GroovyFindings.Disk
