import GroovyFindings.Proofs.Source.Meaning
import Mathlib.Logic.Function.Iterate

/-!
# What normalizing leaves in front of a path

A path may have slashes and dots in front of it, in any order and number, and is
the bare path behind them.  Normalizing drops dots and then slashes.  That is all
of them, unless there are dots behind a slash: those come to light when the
slashes are gone, and are dropped when the path is normalized once more.

So a normalized path can be normalized again without a change exactly if no dots
stood behind a slash, and this is also when the front of a reported path does not
matter.  It matters to some list of files in every other case, as the reported
path is normalized once where it is held against the files' paths, and twice where
they are held against it.

## Main definitions

* `bare` — a path with nothing in front of it.
* `DotBehindSlash` — a path with dots behind a slash in front of it.

## Main results

* `normalize_eq_bare_iff`, `normalize_normalize_eq_iff` — when normalizing leaves
  the bare path, and when it is done after one time.
* `iterate_normalize` — it is done after some times.
* `exists_files_of_dotBehindSlash` — files among which the front decides.
* `normalize_settled_iff` — when a path is settled by normalizing it.
-/

namespace GroovyFindings

variable {path front text rest : List Char} {reported : String} {files : List TrackedFile}

/-! ## The front of a path -/

theorem Leading.eq_dot_or_slash (h : Leading front) : ∀ c ∈ front, c = '.' ∨ c = '/' := by
  induction h with
  | nil => simp
  | slash _ ih => simpa using ih
  | dot _ ih => simpa using ih

/-- A text without slashes and dots at its beginning. -/
def dropLeading : List Char → List Char
  | '/' :: rest => dropLeading rest
  | '.' :: '/' :: rest => dropLeading rest
  | text => text

/-- The path with slashes for backslashes, and with nothing in front of it. -/
def bare (path : List Char) : List Char := dropLeading (Text.replaceAll '\\' '/' path)

/-- Among what stands in front of the path there are dots behind a slash. -/
def DotBehindSlash (path : List Char) : Prop :=
  ∃ front rest, Leading front ∧ Text.replaceAll '\\' '/' path = front ++ '/' :: '.' :: '/' :: rest

theorem exists_leading_append_dropLeading (text : List Char) :
    ∃ front, Leading front ∧ front ++ dropLeading text = text := by
  fun_induction dropLeading text with
  | case1 rest ih =>
      obtain ⟨front, leading, hfront⟩ := ih
      exact ⟨'/' :: front, .slash leading, by rw [List.cons_append, hfront]⟩
  | case2 rest ih =>
      obtain ⟨front, leading, hfront⟩ := ih
      exact ⟨'.' :: '/' :: front, .dot leading, by rw [List.cons_append, List.cons_append, hfront]⟩
  | case3 text => exact ⟨[], .nil, rfl⟩

theorem Leading.dropLeading_append (h : Leading front) (text : List Char) :
    dropLeading (front ++ text) = dropLeading text := by
  induction h with
  | nil => rfl
  | slash _ ih => exact ih
  | dot _ ih => exact ih

theorem dropLeading_eq_self (noSlash : text.head? ≠ some '/')
    (noDot : ∀ rest, text ≠ '.' :: '/' :: rest) : dropLeading text = text := by
  unfold dropLeading
  split
  · next rest => exact absurd rfl noSlash
  · next rest => exact absurd rfl (noDot rest)
  · rfl

theorem head?_dropLeading_ne (text : List Char) : (dropLeading text).head? ≠ some '/' := by
  fun_induction dropLeading text with
  | case1 rest ih => exact ih
  | case2 rest ih => exact ih
  | case3 text noSlash noDot =>
      intro h
      obtain ⟨rest, rfl⟩ := List.head?_eq_some_iff.1 h
      exact noSlash rest rfl

theorem dropLeading_ne_dot (text rest : List Char) : dropLeading text ≠ '.' :: '/' :: rest := by
  fun_induction dropLeading text with
  | case1 rest' ih => exact ih
  | case2 rest' ih => exact ih
  | case3 text noSlash noDot => exact fun h => noDot rest h

theorem Leading.replaceAll (h : Leading front) : Text.replaceAll '\\' '/' front = front := by
  apply replaceAll_eq_self
  intro backslash
  cases h.eq_dot_or_slash _ backslash with
  | inl dot => cases dot
  | inr slash => cases slash

/-- What is put in front of a path does not change the bare path. -/
theorem Leading.bare_append (h : Leading front) (path : List Char) :
    bare (front ++ path) = bare path := by
  rw [bare, replaceAll_append, h.replaceAll, h.dropLeading_append, bare]

/-! ## The bare path -/

theorem backslash_notMem_bare (path : List Char) : '\\' ∉ bare path := by
  obtain ⟨front, -, hfront⟩ := exists_leading_append_dropLeading (Text.replaceAll '\\' '/' path)
  intro h
  exact backslash_notMem_replaceAll path (hfront ▸ List.mem_append_right front h)

/-- Normalizing does not touch the bare path. -/
theorem dropLeading_normalize (path : List Char) : dropLeading (normalize path) = bare path := by
  obtain ⟨front, leading, hfront⟩ := exists_leading_append_normalize path
  rw [bare, ← hfront, leading.dropLeading_append]

theorem bare_normalize (path : List Char) : bare (normalize path) = bare path := by
  rw [bare, replaceAll_eq_self (backslash_notMem_normalize path), dropLeading_normalize]

/-- Normalizing leaves some of the front before the bare path. -/
theorem exists_leading_append_bare (path : List Char) :
    ∃ front, Leading front ∧ front ++ bare path = normalize path := by
  obtain ⟨front, leading, hfront⟩ := exists_leading_append_dropLeading (normalize path)
  exact ⟨front, leading, by rw [← dropLeading_normalize, hfront]⟩

/-- A path that begins with nothing that normalizing drops is normalized. -/
theorem normalize_eq_self (noBackslash : '\\' ∉ path) (noSlash : path.head? ≠ some '/')
    (noDot : ∀ rest, path ≠ '.' :: '/' :: rest) : normalize path = path := by
  by_cases empty : path = []
  · rw [empty]
    rfl
  · exact PlainRelative.normalize_eq ⟨empty, noBackslash, noSlash, noDot⟩

theorem normalize_bare (path : List Char) : normalize (bare path) = bare path :=
  normalize_eq_self (backslash_notMem_bare path) (head?_dropLeading_ne _) (dropLeading_ne_dot _)

/-! ## What is left in front -/

theorem dropDots_ne_dot (text rest : List Char) : dropDots text ≠ '.' :: '/' :: rest := by
  fun_induction dropDots text with
  | case1 rest' ih => exact ih
  | case2 text noDot => exact fun h => noDot rest h

/-- Slashes are dropped up to the dots behind them. -/
theorem Leading.exists_dropWhile_eq (h : Leading front) (rest : List Char) :
    ∃ behind, (front ++ '/' :: '.' :: '/' :: rest).dropWhile (· == '/') = '.' :: '/' :: behind := by
  induction h with
  | nil => exact ⟨rest, rfl⟩
  | slash _ ih => exact ih
  | dot _ _ => exact ⟨_, rfl⟩

/-- Dots behind a slash are left by normalizing, and no others are. -/
theorem exists_normalize_eq_iff :
    (∃ rest, normalize path = '.' :: '/' :: rest) ↔ DotBehindSlash path := by
  constructor
  · rintro ⟨rest, hrest⟩
    obtain ⟨dots, leading, hdots⟩ := exists_leading_append_dropDots (Text.replaceAll '\\' '/' path)
    obtain ⟨slashes, hslash, hslashes⟩ :=
      exists_slashes_append_dropWhile (dropDots (Text.replaceAll '\\' '/' path))
    rw [← normalize, hrest] at hslashes
    -- without slashes, dots would stand first when dots had been dropped
    have nonempty : slashes ≠ [] := by
      intro noSlashes
      rw [noSlashes, List.nil_append] at hslashes
      exact dropDots_ne_dot _ rest hslashes.symm
    have last := hslash _ (List.getLast_mem nonempty)
    have ends := List.dropLast_append_getLast nonempty
    rw [last] at ends
    have leading' : Leading slashes.dropLast :=
      leading_of_slashes fun c hc => hslash c (List.dropLast_subset _ hc)
    refine ⟨dots ++ slashes.dropLast, rest, leading.append leading', ?_⟩
    calc Text.replaceAll '\\' '/' path = dots ++ (slashes ++ '.' :: '/' :: rest) := by
          rw [hslashes, hdots]
      _ = dots ++ ((slashes.dropLast ++ ['/']) ++ '.' :: '/' :: rest) := by rw [ends]
      _ = (dots ++ slashes.dropLast) ++ '/' :: '.' :: '/' :: rest := by simp
  · rintro ⟨front, rest, leading, spelled⟩
    rw [normalize, spelled]
    clear spelled
    induction leading with
    | nil => exact ⟨rest, rfl⟩
    | slash leading _ => exact (Leading.slash leading).exists_dropWhile_eq rest
    | dot _ ih => exact ih

theorem normalize_ne_dot_iff :
    (∀ rest, normalize path ≠ '.' :: '/' :: rest) ↔ ¬ DotBehindSlash path := by
  rw [← exists_normalize_eq_iff, not_exists]

theorem normalize_eq_bare_iff : normalize path = bare path ↔ ¬ DotBehindSlash path := by
  rw [← normalize_ne_dot_iff]
  constructor
  · intro h rest
    rw [h]
    exact dropLeading_ne_dot _ rest
  · intro noDot
    rw [← dropLeading_normalize, dropLeading_eq_self (head?_normalize_ne path) noDot]

theorem length_normalize_le (path : List Char) : (normalize path).length ≤ path.length := by
  obtain ⟨front, -, hfront⟩ := exists_leading_append_normalize path
  have length := congrArg List.length hfront
  rw [List.length_append, Text.replaceAll, List.length_map] at length
  omega

/-- Dots that stand first are dropped. -/
theorem length_normalize_lt (dot : path = '.' :: '/' :: rest) :
    (normalize path).length < path.length := by
  subst dot
  have shorter : (normalize rest).length ≤ rest.length := length_normalize_le rest
  show (normalize rest).length < rest.length + 2
  omega

/-- Normalizing is done after one time exactly if it leaves no dots. -/
theorem normalize_normalize_eq_iff :
    normalize (normalize path) = normalize path ↔ ¬ DotBehindSlash path := by
  rw [← normalize_ne_dot_iff]
  constructor
  · intro fixed rest dot
    have shorter := length_normalize_lt dot
    rw [fixed] at shorter
    exact Nat.lt_irrefl _ shorter
  · exact normalize_eq_self (backslash_notMem_normalize path) (head?_normalize_ne path)

/-- Dots behind a slash show that something has been dropped. -/
theorem length_normalize_lt_of_dotBehindSlash (mixed : DotBehindSlash path) :
    (normalize path).length < path.length := by
  obtain ⟨rest, hrest⟩ := exists_normalize_eq_iff.2 mixed
  have slashed : (Text.replaceAll '\\' '/' path).length = path.length := List.length_map _
  have same : normalize (Text.replaceAll '\\' '/' path) = normalize path := by
    rw [normalize, replaceAll_eq_self (backslash_notMem_replaceAll path), normalize]
  by_cases dropped : normalize path = Text.replaceAll '\\' '/' path
  · have shorter := length_normalize_lt (dropped.symm.trans hrest)
    rw [same] at shorter
    omega
  · obtain ⟨front, -, hfront⟩ := exists_leading_append_normalize path
    cases front with
    | nil => exact absurd hfront dropped
    | cons c front =>
        have length := congrArg List.length hfront
        rw [List.length_append, List.length_cons] at length
        omega

/-- Normalizing again and again leaves the bare path: as long as dots are behind a
slash the path gets shorter. -/
theorem iterate_normalize {n : Nat} (enough : path.length ≤ n) :
    normalize^[n] path = bare path := by
  induction n generalizing path with
  | zero =>
      obtain rfl := List.length_eq_zero_iff.1 (Nat.le_zero.1 enough)
      rfl
  | succ n ih =>
      rw [Function.iterate_succ_apply]
      by_cases mixed : DotBehindSlash path
      · have shorter := length_normalize_lt_of_dotBehindSlash mixed
        have enough' : (normalize path).length ≤ n := by omega
        rw [ih enough', bare_normalize]
      · rw [normalize_eq_bare_iff.2 mixed]
        exact Function.iterate_fixed (normalize_bare path) n

/-! ## The front of a reported path -/

theorem fileForRelative?_some (files : List TrackedFile) (reported : String) :
    fileForRelative? files (some reported) =
      matchSuffix? (groovySources files) (normalize reported.toList) := rfl

/-- A Groovy source with one and the same path from everywhere. -/
def sourceAt (path : List Char) : TrackedFile :=
  ⟨String.ofList path, ⟨path⟩, some groovyLanguage, .main⟩

theorem groovySources_sourceAt (path : List Char) :
    groovySources [sourceAt path] = [sourceAt path] := by
  simp [groovySources, TrackedFile.isGroovy, sourceAt]

theorem endsPathOf_sourceAt_iff :
    EndsPathOf reported (sourceAt path) ↔
      EndsOnSegment (normalize path) (normalize reported.toList) := by
  simp [EndsPathOf, sourceAt]

theorem endedByPathOf_sourceAt_iff :
    EndedByPathOf reported (sourceAt path) ↔ path ≠ [] ∧
      EndsOnSegment (normalize (normalize reported.toList)) (normalize path) := by
  simp [EndedByPathOf, sourceAt, String.ofList_eq_empty_iff]

/-- One source and a path that means it by its last segments, or means nothing. -/
theorem isSome_fileForRelative?_sourceAt_iff :
    (fileForRelative? [sourceAt path] (some reported)).isSome = true ↔
      normalize reported.toList ≠ [] ∧
        (EndsOnSegment (normalize path) (normalize reported.toList) ∨
          path ≠ [] ∧ EndsOnSegment (normalize (normalize reported.toList)) (normalize path)) := by
  rw [Option.isSome_iff_ne_none, ne_eq, fileForRelative?_some, matchSuffix?_eq_none_iff,
    groovySources_sourceAt, ← endsPathOf_sourceAt_iff, ← endedByPathOf_sourceAt_iff]
  simp only [List.mem_singleton, forall_eq, not_not]

/-- The bare path of a reported one, as a report could spell it. -/
def bareReport (reported : String) : String := String.ofList (bare reported.toList)

theorem normalize_bareReport (reported : String) :
    normalize (bareReport reported).toList = bare reported.toList := by
  rw [bareReport, String.toList_ofList, normalize_bare]

/-- A source below the bare path, and the bare path itself. -/
theorem plainRelative_below (path : List Char) : PlainRelative ('a' :: '/' :: bare path) where
  nonempty := List.cons_ne_nil _ _
  noBackslash := by simpa using backslash_notMem_bare path
  noSlash := by simp
  noDot := by simp

/-- What is left of the front begins with dots, and stands before the bare path. -/
theorem exists_normalize_eq_append (mixed : DotBehindSlash path) :
    ∃ front, Leading front ∧ normalize path = '.' :: '/' :: front ++ bare path := by
  obtain ⟨rest, hrest⟩ := exists_normalize_eq_iff.2 mixed
  obtain ⟨front, leading, hfront⟩ := exists_leading_append_dropLeading rest
  have same : dropLeading rest = bare path := by
    rw [← dropLeading_normalize, hrest]
    rfl
  exact ⟨front, leading, by rw [hrest, ← hfront, same]; rfl⟩

/-- The reported path ends no source below the bare path: it is longer than what
could be its end, and begins otherwise than the source. -/
theorem not_endsOnSegment_below (mixed : DotBehindSlash path) :
    ¬ EndsOnSegment ('a' :: '/' :: bare path) (normalize path) := by
  obtain ⟨front, -, hfront⟩ := exists_normalize_eq_append mixed
  rw [hfront]
  rintro (same | ⟨above, behind⟩)
  · simp at same
  · have length := congrArg List.length behind
    simp only [List.length_cons, List.length_append] at length
    omega

/-- No source below the bare path ends the reported one: there are no names in the
front. -/
theorem not_endsOnSegment_normalize_normalize (path : List Char) :
    ¬ EndsOnSegment (normalize (normalize path)) ('a' :: '/' :: bare path) := by
  intro ends
  obtain ⟨front, leading, hfront⟩ := exists_leading_append_bare (normalize path)
  rw [bare_normalize] at hfront
  obtain ⟨above, habove⟩ := ends.suffix
  have same : (above ++ ['a', '/']) ++ bare path = front ++ bare path := by
    rw [hfront, ← habove, List.append_assoc]
    rfl
  have mem : 'a' ∈ front := by
    rw [← List.append_cancel_right same]
    simp
  cases leading.eq_dot_or_slash 'a' mem with
  | inl dot => cases dot
  | inr slash => cases slash

/-- **Where dots are behind a slash the front decides.**  There is a source that
the reported path does not mean and the bare one does; or, if nothing is behind the
front, the other way around. -/
theorem exists_files_of_dotBehindSlash (mixed : DotBehindSlash reported.toList) :
    ∃ files, (fileForRelative? files (some reported)).isSome ≠
      (fileForRelative? files (some (bareReport reported))).isSome := by
  by_cases nothing : bare reported.toList = []
  · refine ⟨[sourceAt ['.', '/']], ?_⟩
    obtain ⟨front, leading, hfront⟩ := exists_leading_append_bare (normalize reported.toList)
    rw [bare_normalize, nothing, List.append_nil] at hfront
    have found : (fileForRelative? [sourceAt ['.', '/']] (some reported)).isSome = true := by
      rw [isSome_fileForRelative?_sourceAt_iff]
      obtain ⟨_, -, hleft⟩ := exists_normalize_eq_append mixed
      refine ⟨by simp [hleft], .inr ⟨by simp, ?_⟩⟩
      have ends := leading.wholeSegments.endsOnSegment []
      rw [List.append_nil, hfront] at ends
      exact ends
    have lost : ¬ (fileForRelative? [sourceAt ['.', '/']] (some (bareReport reported))).isSome =
        true := by
      rw [isSome_fileForRelative?_sourceAt_iff, normalize_bareReport]
      exact fun means => means.1 nothing
    rw [found]
    exact fun same => lost same.symm
  · refine ⟨[sourceAt ('a' :: '/' :: bare reported.toList)], ?_⟩
    have plain := plainRelative_below reported.toList
    have found : (fileForRelative? [sourceAt ('a' :: '/' :: bare reported.toList)]
        (some (bareReport reported))).isSome = true := by
      rw [isSome_fileForRelative?_sourceAt_iff, normalize_bareReport, plain.normalize_eq]
      exact ⟨nothing, .inl (.inr ⟨['a'], rfl⟩)⟩
    have lost : ¬ (fileForRelative? [sourceAt ('a' :: '/' :: bare reported.toList)]
        (some reported)).isSome = true := by
      rw [isSome_fileForRelative?_sourceAt_iff, plain.normalize_eq]
      rintro ⟨-, inner | ⟨-, outer⟩⟩
      · exact not_endsOnSegment_below mixed inner
      · exact not_endsOnSegment_normalize_normalize _ outer
    rw [found]
    exact lost

/-- Where no dots are behind a slash the reported path means what the bare one
does. -/
theorem fileForRelative?_bareReport (unmixed : ¬ DotBehindSlash reported.toList)
    (files : List TrackedFile) :
    fileForRelative? files (some (bareReport reported)) = fileForRelative? files (some reported) := by
  rw [fileForRelative?_some, fileForRelative?_some, normalize_bareReport,
    normalize_eq_bare_iff.2 unmixed]

/-- An absolute path may be a source's own; but for that, the last segments of the
reported path decide. -/
theorem fileFor?_eq_or (files : List TrackedFile) (reported : String) :
    fileFor? files reported = (exactMatch? (groovySources files) (.ofString reported)).or
      (fileForRelative? files (some reported)) := by
  unfold fileFor?
  dsimp only
  cases exactMatch? (groovySources files) (.ofString reported) <;> rfl

/-- **Normalizing settles a path unless dots are behind a slash in front of it.**  It
leaves no backslash and no slash at the beginning.  It leaves no dots there, nothing
for another time, and the bare path, exactly if there are no dots behind a slash; done
often enough it always leaves the bare path, which is the same whatever is put in
front.  And exactly then the front of a reported path does not decide whether it means
a source by its last segments: it means what the bare path means, unless it is
absolute and a source's own. -/
theorem normalize_settled_iff (reported : String) :
    let path := reported.toList
    ('\\' ∉ normalize path ∧ (normalize path).head? ≠ some '/') ∧
    ((∀ rest, normalize path ≠ '.' :: '/' :: rest) ↔ ¬ DotBehindSlash path) ∧
    (normalize (normalize path) = normalize path ↔ ¬ DotBehindSlash path) ∧
    (normalize path = bare path ↔ ¬ DotBehindSlash path) ∧
    (normalize^[path.length] path = bare path ∧ normalize (bare path) = bare path ∧
      ∀ front, Leading front → bare (front ++ path) = bare path) ∧
    ((∀ files, (fileForRelative? files (some reported)).isSome =
      (fileForRelative? files (some (bareReport reported))).isSome) ↔ ¬ DotBehindSlash path) ∧
    (¬ DotBehindSlash path → ∀ files, fileFor? files reported =
      (exactMatch? (groovySources files) (.ofString reported)).or
        (fileForRelative? files (some (bareReport reported)))) := by
  intro path
  refine ⟨⟨backslash_notMem_normalize path, head?_normalize_ne path⟩, normalize_ne_dot_iff,
    normalize_normalize_eq_iff, normalize_eq_bare_iff, ?_, ?_, ?_⟩
  · have iterated : normalize^[path.length] path = bare path := iterate_normalize (Nat.le_refl _)
    exact ⟨iterated, normalize_bare path, fun front leading => leading.bare_append path⟩
  · constructor
    · intro same mixed
      obtain ⟨files, differ⟩ := exists_files_of_dotBehindSlash mixed
      exact differ (same files)
    · intro unmixed files
      rw [fileForRelative?_bareReport unmixed]
  · intro unmixed files
    rw [fileFor?_eq_or, fileForRelative?_bareReport unmixed]

/-! ## A front with all there can be in it -/

/-- A source in a directory. -/
def nestedSource : TrackedFile :=
  ⟨"src/A.groovy", .ofString "/p/src/A.groovy", some groovyLanguage, .main⟩

/-- Backslashes, dots, and slashes behind the dots do not matter. -/
theorem normalize_settled_unmixed :
    ¬ DotBehindSlash ".\\.///A.groovy".toList ∧
      fileFor? [nestedSource] ".\\.///A.groovy" = some nestedSource := by
  have settled := normalize_settled_iff ".\\.///A.groovy"
  have unmixed : ¬ DotBehindSlash ".\\.///A.groovy".toList :=
    settled.2.2.1.1 (by decide +kernel)
  refine ⟨unmixed, ?_⟩
  rw [settled.2.2.2.2.2.2 unmixed]
  decide +kernel

/-- Dots behind a slash do. -/
theorem normalize_unsettled_mixed :
    normalize (normalize "/./A.groovy".toList) ≠ normalize "/./A.groovy".toList ∧
      normalize "/./A.groovy".toList = "./A.groovy".toList ∧
      fileFor? [nestedSource] "/./A.groovy" = none ∧
      fileFor? [nestedSource] "./A.groovy" = some nestedSource ∧
      fileFor? [nestedSource] "/A.groovy" = some nestedSource := by
  decide +kernel

end GroovyFindings
