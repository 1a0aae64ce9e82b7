import GroovyFindings.Linter.Command
import GroovyFindings.Proofs.Linter.Ancestor
import GroovyFindings.Proofs.Path.Relative
import Mathlib.Data.List.Basic

/-!
# Looking below one directory instead of several

The linter looks below one directory, the common ancestor of the source
directories, at the files that some patterns fit.  A pattern in one directory
says the same as another pattern in another directory when the segments that
lead to its files are the same, counted from where the directories begin.
Folding several directories into one keeps what is looked at in this sense: the
patterns in the ancestor are those of all source directories, each once.

## Main definitions

* `inside` — the segments of a pattern in a directory.
* `listed` — the patterns of a list with commas between them.

## Main results

* `inside_scopedGlob` — a scoped pattern in the ancestor is the pattern in the
  directory.
* `listed_scopedIncludes` — the patterns that the linter is told.
* `arguments_keep_scope` — the arguments that the linter is given look at the
  same files.
-/

namespace GroovyFindings.Linter

/-! ## Patterns in a directory -/

/-- The segments of a pattern in a directory, as they are spelled. -/
def inside (dir : Path) (pattern : List Char) : List (List Char) :=
  dir.components.map Path.Component.chars ++ pattern.splitOn '/'

theorem inside_injective {dir : Path} {p q : List Char} (h : inside dir p = inside dir q) :
    p = q := by
  have segments : p.splitOn '/' = q.splitOn '/' := List.append_cancel_left h
  have joined : ∀ text : List Char, ['/'].intercalate (text.splitOn '/') = text :=
    fun _ => List.intercalate_splitOn '/'
  rw [← joined p, segments, joined]

section Seen

variable {base dir : Path} (hne : base.components ≠ [])
  (starts : base.components <+: dir.components)
  (plain : ∀ c ∈ dir.components, ',' ∉ c.chars ∧ '\\' ∉ c.chars)

include hne starts plain

/-- A directory as seen from above it is spelled with the names that lead
there. -/
theorem seenFrom_spelled :
    (∀ c ∈ seenFrom base dir, c ≠ ',') ∧
      (dir.components = base.components ∧ seenFrom base dir = [] ∨
        dir.components.map Path.Component.chars =
          base.components.map Path.Component.chars ++ (seenFrom base dir).splitOn '/' ∧
        seenFrom base dir ≠ [] ∧ (seenFrom base dir).getLast? ≠ some '/') := by
  obtain ⟨rest, hrest⟩ := starts
  have seen := Path.relativeTo?_of_components hne hrest.symm
  have names := Path.plain_of_components hne hrest.symm
  by_cases hnil : rest = []
  · have empty : seenFrom base dir = [] := by
      rw [seenFrom, seen, hnil]
      rfl
    rw [empty]
    refine ⟨by simp, .inl ⟨?_, rfl⟩⟩
    rw [← hrest, hnil, List.append_nil]
  · obtain ⟨hsegments, spelled, ends⟩ := Path.segments_ofComponents names hnil
    have noMark : ∀ c ∈ (Path.ofComponents rest).chars, c ≠ ',' ∧ c ≠ '\\' := by
      intro c hc
      have joined := (Path.ofComponents rest).intercalate_segments
      obtain rfl | ⟨segment, hsegment, hc⟩ := Text.mem_of_mem_intercalate (joined ▸ hc)
      · decide
      · have among : segment ∈ rest.map Path.Component.chars := hsegments ▸ hsegment
        obtain ⟨component, hcomponent, rfl⟩ := List.mem_map.1 among
        have mem : component ∈ dir.components := hrest ▸ List.mem_append_right _ hcomponent
        obtain ⟨noComma, noBackslash⟩ := plain component mem
        exact ⟨fun h => noComma (h ▸ hc), fun h => noBackslash (h ▸ hc)⟩
    have kept : seenFrom base dir = (Path.ofComponents rest).chars := by
      rw [seenFrom, seen]
      show Text.replaceAll '\\' '/' (Path.ofComponents rest).chars = _
      rw [Text.replaceAll, List.map_congr_left fun c hc => if_neg (noMark c hc).2, List.map_id']
    rw [kept]
    refine ⟨fun c hc => (noMark c hc).1, .inr ⟨?_, spelled, ends⟩⟩
    rw [← hrest, List.map_append, ← hsegments]
    rfl

/-- A pattern that is scoped to a directory says in the ancestor what it says in
the directory. -/
theorem inside_scopedGlob (glob : List Char) :
    inside base (scopedGlob (seenFrom base dir) glob) = inside dir glob := by
  obtain ⟨-, ⟨same, empty⟩ | ⟨split, spelled, ends⟩⟩ := seenFrom_spelled hne starts plain
  · rw [empty, inside, inside, same]
    rfl
  · have kept : Text.dropEndWhile (· == '/') (seenFrom base dir) = seenFrom base dir :=
      Text.dropEndWhile_eq_self fun c hc => by
        rw [beq_eq_false_iff_ne]
        rintro rfl
        exact ends hc
    rw [scopedGlob, if_neg (by simpa using spelled), kept, inside, inside, split,
      List.splitOn_append_cons_self, List.append_assoc]

theorem scopedGlob_plain {glob : List Char} (nonempty : glob ≠ []) (noComma : ',' ∉ glob) :
    scopedGlob (seenFrom base dir) glob ≠ [] ∧ ',' ∉ scopedGlob (seenFrom base dir) glob := by
  obtain ⟨noComma', -⟩ := seenFrom_spelled hne starts plain
  unfold scopedGlob
  split
  · exact ⟨nonempty, noComma⟩
  · obtain ⟨run, hrun⟩ := Text.dropEndWhile_append (· == '/') (seenFrom base dir)
    refine ⟨by simp, ?_⟩
    simp only [List.mem_append, List.mem_cons, not_or]
    refine ⟨fun hmem => ?_, by decide, noComma⟩
    exact noComma' ',' (hrun ▸ List.mem_append_left run hmem) rfl

end Seen

/-! ## The patterns of a list -/

/-- The patterns of a list with commas between them. -/
def listed (value : List Char) : List (List Char) :=
  if value = [] then [] else value.splitOn ','

theorem listed_intercalate {patterns : List (List Char)}
    (h : ∀ p ∈ patterns, p ≠ [] ∧ ',' ∉ p) : listed ([','].intercalate patterns) = patterns := by
  cases patterns with
  | nil => rfl
  | cons first others =>
      have nonempty : [','].intercalate (first :: others) ≠ [] := by
        cases others with
        | nil => simpa using (h first (by simp)).1
        | cons second others => simp
      have split := List.splitOn_intercalate ',' (fun p hp => (h p hp).2)
        (List.cons_ne_nil first others)
      rw [listed, if_neg nonempty, split]

theorem nodup_eraseDups (patterns : List (List Char)) : patterns.eraseDups.Nodup := by
  induction hn : patterns.length using Nat.strongRecOn generalizing patterns with
  | _ n ih =>
      cases patterns with
      | nil => exact List.nodup_nil
      | cons first others =>
          have shorter : (others.filter fun p => !p == first).length < n :=
            hn ▸ Nat.lt_succ_of_le (List.length_filter_le _ _)
          rw [List.eraseDups_cons, List.nodup_cons, List.mem_eraseDups]
          exact ⟨by simp, ih _ shorter _ rfl⟩

theorem mem_globs_iff {includes glob : List Char} :
    glob ∈ globs includes ↔ (∃ part ∈ includes.splitOn ',', Text.trim part = glob) ∧ glob ≠ [] := by
  rw [globs, List.mem_filter, List.mem_map]
  simp

theorem noComma_of_mem_globs {includes glob : List Char} (h : glob ∈ globs includes) :
    ',' ∉ glob := by
  obtain ⟨⟨part, hpart, rfl⟩, -⟩ := mem_globs_iff.1 h
  exact fun hmem => Text.notMem_of_mem_splitOn hpart (Text.mem_of_mem_trim hmem)

/-! ## The arguments of the linter -/

section Scoped

variable {base : Path} {dirs : List Path} (hne : base.components ≠ [])
  (starts : ∀ dir ∈ dirs, base.components <+: dir.components)
  (plain : ∀ dir ∈ dirs, ∀ c ∈ dir.components, ',' ∉ c.chars ∧ '\\' ∉ c.chars)

include hne starts plain

/-- The linter is told the patterns of all directories as seen from the ancestor,
each once. -/
theorem listed_scopedIncludes (includes : List Char) :
    listed (scopedIncludes base dirs includes) =
      (dirs.flatMap fun dir => (globs includes).map (scopedGlob (seenFrom base dir))).eraseDups := by
  apply listed_intercalate
  intro p hp
  rw [List.mem_eraseDups, List.mem_flatMap] at hp
  obtain ⟨dir, hdir, hp⟩ := hp
  obtain ⟨glob, hglob, rfl⟩ := List.mem_map.1 hp
  exact scopedGlob_plain hne (starts dir hdir) (plain dir hdir) (mem_globs_iff.1 hglob).2
    (noComma_of_mem_globs hglob)

theorem mem_listed_scopedIncludes_iff {includes p : List Char} :
    p ∈ listed (scopedIncludes base dirs includes) ↔
      ∃ dir ∈ dirs, ∃ part ∈ includes.splitOn ',', Text.trim part ≠ [] ∧
        inside base p = inside dir (Text.trim part) := by
  rw [listed_scopedIncludes hne starts plain, List.mem_eraseDups, List.mem_flatMap]
  have said : ∀ dir ∈ dirs, ∀ glob,
      inside base (scopedGlob (seenFrom base dir) glob) = inside dir glob :=
    fun dir hdir => inside_scopedGlob hne (starts dir hdir) (plain dir hdir)
  constructor
  · rintro ⟨dir, hdir, hp⟩
    obtain ⟨glob, hglob, rfl⟩ := List.mem_map.1 hp
    obtain ⟨⟨part, hpart, rfl⟩, nonempty⟩ := mem_globs_iff.1 hglob
    exact ⟨dir, hdir, part, hpart, nonempty, said dir hdir _⟩
  · rintro ⟨dir, hdir, part, hpart, nonempty, same⟩
    have whole : p = scopedGlob (seenFrom base dir) (Text.trim part) :=
      inside_injective (same.trans (said dir hdir _).symm)
    have among : Text.trim part ∈ globs includes :=
      mem_globs_iff.2 ⟨⟨part, hpart, rfl⟩, nonempty⟩
    exact ⟨dir, hdir, whole ▸ List.mem_map_of_mem among⟩

/-- Every given pattern is covered in every directory. -/
theorem exists_mem_listed_scopedIncludes {includes : List Char} {dir : Path} (hdir : dir ∈ dirs)
    {part : List Char} (hpart : part ∈ includes.splitOn ',') (nonempty : Text.trim part ≠ []) :
    ∃ p ∈ listed (scopedIncludes base dirs includes),
      inside base p = inside dir (Text.trim part) := by
  have same := inside_scopedGlob hne (starts dir hdir) (plain dir hdir) (Text.trim part)
  have mem := (mem_listed_scopedIncludes_iff hne starts plain).2
    ⟨dir, hdir, part, hpart, nonempty, same⟩
  exact ⟨_, mem, same⟩

end Scoped

/-- **Folding source directories into one base directory keeps the scope.**  The
directories have a common ancestor, and no commas or backslashes in their names.
The leading arguments stay, one base directory follows that is an ancestor of
every directory, and patterns without repetition which say in the base directory
what the given patterns say in the source directories: each of these is covered,
and nothing else is said. -/
theorem arguments_keep_scope {command : Command} {request : Request} {above : Path}
    (nonempty : request.sourceDirs ≠ []) (named : above.components ≠ [])
    (common : ∀ dir ∈ request.sourceDirs, dir.startsWith above = true)
    (plain : ∀ dir ∈ request.sourceDirs, ∀ c ∈ dir.components, ',' ∉ c.chars ∧ '\\' ∉ c.chars) :
    ∃ (base : Path) (includes : String),
      command.arguments request =
        command.leading ++ ["-basedir=" ++ base.text, "-includes=" ++ includes,
          "-rulesetfiles=file:" ++ request.ruleSet.text, "-report=xml:" ++ request.report.text,
          "-title=" ++ request.title] ∧
      (∀ dir ∈ request.sourceDirs, dir.startsWith base = true) ∧
      (listed includes.toList).Nodup ∧
      (∀ dir ∈ request.sourceDirs, ∀ part ∈ request.includes.toList.splitOn ',',
        Text.trim part ≠ [] →
          ∃ p ∈ listed includes.toList, inside base p = inside dir (Text.trim part)) ∧
      ∀ p, p ∈ listed includes.toList ↔
        ∃ dir ∈ request.sourceDirs, ∃ part ∈ request.includes.toList.splitOn ',',
          Text.trim part ≠ [] ∧ inside base p = inside dir (Text.trim part) := by
  obtain ⟨base, hbase, deep⟩ := exists_commonAncestor? nonempty named fun dir hdir =>
    List.isPrefixOf_iff_prefix.1 (common dir hdir)
  have starts := commonAncestor?_prefix hbase
  have hne : base.components ≠ [] := by
    intro hnil
    rw [hnil] at deep
    exact named (List.prefix_nil.1 deep)
  refine ⟨base, String.ofList (scopedIncludes base request.sourceDirs request.includes.toList),
    ?_, ?_, ?_, ?_, ?_⟩
  · rw [Command.arguments, Command.scopeArguments, hbase, List.append_assoc]
    rfl
  · exact fun dir hdir => List.isPrefixOf_iff_prefix.2 (starts dir hdir)
  · rw [String.toList_ofList, listed_scopedIncludes hne starts plain]
    exact nodup_eraseDups _
  · intro dir hdir part hpart nonempty'
    rw [String.toList_ofList]
    exact exists_mem_listed_scopedIncludes hne starts plain hdir hpart nonempty'
  · intro p
    rw [String.toList_ofList]
    exact mem_listed_scopedIncludes_iff hne starts plain

/-- A request for a directory, one inside of it, and one beside that. -/
def nestedRequest : Request where
  sourceDirs := [.ofString "/p/src", .ofString "/p/src/gen/", .ofString "/p/./src"]
  includes := "**/*.groovy, , *.gvy"
  ruleSet := .ofString "/w/rules.xml"
  report := .ofString "/w/report.xml"
  title := "p"

/-- The directory that is given twice, and holds the other one, is the base. -/
theorem arguments_keep_scope_nested :
    (Command.ofWords ["java", "-jar"]).arguments nestedRequest =
      ["-jar", "-basedir=/p/src", "-includes=**/*.groovy,*.gvy,gen/**/*.groovy,gen/*.gvy",
        "-rulesetfiles=file:/w/rules.xml", "-report=xml:/w/report.xml", "-title=p"] ∧
    ∃ (base : Path) (includes : String),
      (Command.ofWords ["java", "-jar"]).arguments nestedRequest =
        ["-jar"] ++ ["-basedir=" ++ base.text, "-includes=" ++ includes,
          "-rulesetfiles=file:" ++ nestedRequest.ruleSet.text,
          "-report=xml:" ++ nestedRequest.report.text, "-title=" ++ nestedRequest.title] ∧
      (∀ dir ∈ nestedRequest.sourceDirs, dir.startsWith base = true) ∧
      (listed includes.toList).Nodup ∧
      (∀ dir ∈ nestedRequest.sourceDirs, ∀ part ∈ nestedRequest.includes.toList.splitOn ',',
        Text.trim part ≠ [] →
          ∃ p ∈ listed includes.toList, inside base p = inside dir (Text.trim part)) ∧
      ∀ p, p ∈ listed includes.toList ↔
        ∃ dir ∈ nestedRequest.sourceDirs, ∃ part ∈ nestedRequest.includes.toList.splitOn ',',
          Text.trim part ≠ [] ∧ inside base p = inside dir (Text.trim part) :=
  ⟨by cbv, @arguments_keep_scope (Command.ofWords ["java", "-jar"]) nestedRequest
    (.ofString "/p") (by decide +kernel) (by decide +kernel) (by decide +kernel)
    (by decide +kernel)⟩

end GroovyFindings.Linter
