import Mathlib
import GroovyFindings.Proofs.Settings.Precedence
import GroovyFindings.Proofs.Settings.Root

/-!
# Blank options

An option that is blank is passed over when a setting is looked for, just as one that
is not given.  Two options take part in something else as well.  The search for the
root begins at the base directory on the command line also if it is blank.  And
directories on the command line, all of them blank, replace those of the settings file
by none.

## Main definitions

* `Options.withoutBlanks` — the command line without what is blank.
* `OnlyBlanks` — directories are given, and all of them are blank.
* `Effective.replacing` — what becomes of the settings by such directories.

## Main results

* `merge_eq_replacing` — what blank options change at a root.
* `projectRoot_withoutBlanks`, `canonical_of_projectRoot_eq` — when they leave the
  root alone.
* `projectRoot_eq_of_resolve_eq` — settings and errors tell the roots apart.
* `resolve_withoutBlanks` — when blank options are as good as none.
-/

namespace GroovyFindings.Settings

open Disk (Reached pathOf)

variable {d : Disk} {o : Options}

/-- What the command line says, without what is blank. -/
def Options.withoutBlanks (o : Options) : Options where
  baseDir := said o.baseDir
  profile := said o.profile
  reportPath := said o.reportPath
  sourceDirs := o.sourceDirs.filter fun dir => !Text.isBlankText dir
  workDir := said o.workDir
  output := said o.output

/-- Directories are given, and all of them are blank. -/
def OnlyBlanks (dirs : List String) : Prop := dirs ≠ [] ∧ ∀ dir ∈ dirs, ¬ Says dir

instance : DecidablePred OnlyBlanks := fun dirs =>
  inferInstanceAs (Decidable (dirs ≠ [] ∧ ∀ dir ∈ dirs, ¬ Says dir))

/-- The settings with no main directories, if the given directories are only blanks. -/
def Effective.replacing (e : Effective) (dirs : List String) : Effective :=
  if OnlyBlanks dirs then { e with mainDirs := [] } else e

/-! ## At a root -/

theorem said_said (text : Option String) : said (said text) = said text := by
  simp [said, Option.filter_filter]

theorem said_eq_some {text : String} (speaks : Says text) : said (some text) = some text :=
  Option.filter_some_pos ((not_isBlankText text).2 speaks)

theorem said_eq_none {text : String} (silent : ¬ Says text) : said (some text) = none :=
  Option.filter_some_neg (Bool.eq_false_iff.2 (mt (not_isBlankText text).1 silent))

theorem mainDirs_of_onlyBlanks {base : Path} {w : Written} (blank : OnlyBlanks o.sourceDirs) :
    (merge o base w).mainDirs = [] := by
  have given : mainSaid o w = o.sourceDirs := by
    rw [mainSaid, if_neg (by simp [blank.1])]
  have silent : (o.sourceDirs.filter fun dir => !Text.isBlankText dir) = [] := by
    rw [List.filter_eq_nil_iff]
    exact fun dir hdir => mt (not_isBlankText dir).1 (blank.2 dir hdir)
  show dirsBelow base (mainSaid o w) = []
  rw [given, dirsBelow, silent, List.map_nil]

theorem mainDirs_withoutBlanks {base : Path} {w : Written} (kept : ¬ OnlyBlanks o.sourceDirs) :
    (merge o.withoutBlanks base w).mainDirs = (merge o base w).mainDirs := by
  show dirsBelow base (mainSaid o.withoutBlanks w) = dirsBelow base (mainSaid o w)
  by_cases empty : o.sourceDirs = []
  · rw [mainSaid, mainSaid, Options.withoutBlanks, empty]
    rfl
  · have left : o.withoutBlanks.sourceDirs ≠ [] := by
      intro silent
      refine kept ⟨empty, fun dir hdir speaks => ?_⟩
      exact (List.filter_eq_nil_iff.1 silent) dir hdir ((not_isBlankText dir).2 speaks)
    rw [mainSaid, mainSaid, if_neg (by simpa using left), if_neg (by simpa using empty), dirsBelow,
      dirsBelow, Options.withoutBlanks, List.filter_filter]
    simp

/-- At one root, all that blank options change are the main directories, and only if
blank ones are all that is given. -/
theorem merge_eq_replacing (o : Options) (base : Path) (w : Written) :
    merge o base w = (merge o.withoutBlanks base w).replacing o.sourceDirs := by
  have others : merge o base w =
      { merge o.withoutBlanks base w with mainDirs := (merge o base w).mainDirs } := by
    simp [merge, profileSaid, Options.withoutBlanks, said_said]
  rw [Effective.replacing]
  split
  · next blank => rw [others, mainDirs_of_onlyBlanks blank]
  · next kept => rw [others, ← mainDirs_withoutBlanks kept]

/-! ## The root -/

theorem startPath_withoutBlanks (speaks : ∀ text, o.baseDir = some text → Says text) :
    startPath o.withoutBlanks = startPath o := by
  rw [startPath, startPath, Options.withoutBlanks]
  cases given : o.baseDir with
  | none => rfl
  | some text => rw [said_eq_some (speaks text given)]

/-- A base directory that is not blank is the same without blanks. -/
theorem projectRoot_withoutBlanks (speaks : ∀ text, o.baseDir = some text → Says text) :
    projectRoot d (startPath o) = projectRoot d (startPath o.withoutBlanks) := by
  rw [startPath_withoutBlanks speaks]

section BlankStart

variable {text : String} (given : o.baseDir = some text) (silent : ¬ Says text)

include given silent

theorem startPath_of_silent : startPath o.withoutBlanks = .ofString "." := by
  rw [startPath, Options.withoutBlanks, given, said_eq_none silent]
  rfl

/-- A blank base directory is relative: no slash is blank. -/
theorem isAbsolute_startPath : (startPath o).isAbsolute = false := by
  rw [startPath, given, ← Bool.not_eq_true]
  intro absolute
  have slash : '/' ∈ text.toList := List.mem_of_head? (beq_iff_eq.1 absolute)
  exact silent ⟨'/', slash, by decide⟩

/-- If the root of a blank base directory is absolute, something has that name. -/
theorem canonical_of_isAbsolute (absolute : (projectRoot d (startPath o)).isAbsolute = true) :
    ∃ s, d.canonical (startPath o) = .ok s :=
  (isAbsolute_projectRoot_iff.1 absolute).resolve_left
    (by simp [isAbsolute_startPath given silent])

theorem isAbsolute_projectRoot_withoutBlanks :
    (projectRoot d (startPath o.withoutBlanks)).isAbsolute = true := by
  rw [startPath_of_silent given silent]
  exact isAbsolute_projectRoot_iff.2 (.inr ⟨_, d.canonical_dot⟩)

theorem canonical_of_projectRoot_eq
    (same : projectRoot d (startPath o) = projectRoot d (startPath o.withoutBlanks)) :
    ∃ s, d.canonical (startPath o) = .ok s := by
  apply canonical_of_isAbsolute given silent
  rw [same]
  exact isAbsolute_projectRoot_withoutBlanks given silent

end BlankStart

/-! ## Errors -/

/-- The settings file that an error is about. -/
def Error.path : Error → Path
  | .toml path _ => path
  | .yaml path _ => path
  | .unreadable path _ => path

/-- An error that has been renamed was another one before. -/
theorem exists_of_mapError_eq_error {ε α : Type} {x : Except ε α} {rename : ε → Error}
    {fault : Error} (h : x.mapError rename = .error fault) : ∃ e, rename e = fault := by
  cases x with
  | error e => exact ⟨e, Except.error.inj h⟩
  | ok a => cases h

/-- An error of a file is about that file. -/
theorem ReadFrom.path_of_error {path : Path} {name : String} {settings : Except Error Written}
    {fault : Error} (h : ReadFrom d path name settings) (failed : settings = .error fault) :
    fault.path = path := by
  cases h with
  | unreadable _ =>
      cases failed
      rfl
  | toml _ _ =>
      obtain ⟨e, rfl⟩ := exists_of_mapError_eq_error failed
      rfl
  | yaml _ _ =>
      obtain ⟨e, rfl⟩ := exists_of_mapError_eq_error failed
      rfl

/-- An error is about a settings file at the root. -/
theorem exists_of_load_eq_error {root : Path} {fault : Error} (h : load d root = .error fault) :
    ∃ name ∈ settingsNames, fault.path = root.child name := by
  unfold load at h
  split at h
  · next name found =>
    refine ⟨name, List.mem_of_find?_eq_some found, ?_⟩
    have isRead := readFrom_loadWith d (root.child name) name
    cases settings : loadWith d (root.child name) (reader (root.child name) name) with
    | error fault' =>
        rw [settings] at h
        cases h
        exact isRead.path_of_error settings
    | ok written =>
        rw [settings] at h
        cases h
  · cases h

/-- Settings files have names with no slash. -/
theorem noSlash_of_mem_settingsNames {name : String} (h : name ∈ settingsNames) :
    '/' ∉ name.toList := by
  simp only [settingsNames, List.mem_cons, List.not_mem_nil, or_false] at h
  obtain rfl | rfl | rfl := h <;> decide

/-- Searches that lead to the same error have led to the same root, if one of them begins
at something. -/
theorem projectRoot_eq_of_load_eq_error {start start' : Path} {fault : Error}
    (cwd : Reached d d.cwd .dir) (relative : start.isAbsolute = false)
    (canonical' : ∃ s, d.canonical start' = .ok s)
    (failed : load d (projectRoot d start) = .error fault)
    (failed' : load d (projectRoot d start') = .error fault) :
    projectRoot d start = projectRoot d start' := by
  obtain ⟨name, isName, about⟩ := exists_of_load_eq_error failed
  obtain ⟨name', isName', about'⟩ := exists_of_load_eq_error failed'
  have noSlash := noSlash_of_mem_settingsNames isName
  have noSlash' := noSlash_of_mem_settingsNames isName'
  have same : (projectRoot d start).child name = (projectRoot d start').child name' :=
    about.symm.trans about'
  have absolute : (projectRoot d start).isAbsolute = true := by
    rw [← Path.isAbsolute_child noSlash, same, Path.isAbsolute_child noSlash']
    exact isAbsolute_projectRoot_iff.2 (.inr canonical')
  obtain ⟨s, canonical⟩ := (isAbsolute_projectRoot_iff.1 absolute).resolve_left (by simp [relative])
  obtain ⟨s', canonical'⟩ := canonical'
  obtain ⟨root, node, isRoot, reached, -⟩ := exists_reached_projectRoot cwd canonical
  obtain ⟨root', node', isRoot', reached', -⟩ := exists_reached_projectRoot cwd canonical'
  rw [isRoot, isRoot'] at same ⊢
  rw [Disk.eq_of_child_pathOf reached.heard reached'.heard noSlash noSlash' same]

/-! ## On a disk -/

theorem resolve_eq_replacing
    (same : projectRoot d (startPath o) = projectRoot d (startPath o.withoutBlanks)) :
    resolve d o = (resolve d o.withoutBlanks).map (·.replacing o.sourceDirs) := by
  rw [resolve_eq_map, resolve_eq_map, ← same]
  cases load d (projectRoot d (startPath o)) with
  | error fault => rfl
  | ok written => exact congrArg _ (merge_eq_replacing ..)

/-- Settings in effect, and errors, tell the roots apart. -/
theorem projectRoot_eq_of_resolve_eq (cwd : Reached d d.cwd .dir)
    (same : resolve d o = resolve d o.withoutBlanks) :
    projectRoot d (startPath o) = projectRoot d (startPath o.withoutBlanks) := by
  cases settled : resolve d o with
  | ok e =>
      obtain ⟨written, -, rfl⟩ := exists_of_resolve_eq_ok settled
      obtain ⟨written', -, same'⟩ := exists_of_resolve_eq_ok (same.symm.trans settled)
      exact congrArg Effective.baseDir same'
  | error fault =>
      by_cases speaks : ∀ text, o.baseDir = some text → Says text
      · exact projectRoot_withoutBlanks speaks
      obtain ⟨text, given, silent⟩ : ∃ text, o.baseDir = some text ∧ ¬ Says text := by
        simpa using speaks
      have dot : ∃ s, d.canonical (startPath o.withoutBlanks) = .ok s := by
        rw [startPath_of_silent given silent]
        exact ⟨_, d.canonical_dot⟩
      exact projectRoot_eq_of_load_eq_error cwd (isAbsolute_startPath given silent) dot
        (load_of_resolve_eq_error settled) (load_of_resolve_eq_error (same.symm.trans settled))

/-- Where there are no main directories, none are replaced. -/
theorem map_replacing_eq_self_iff {dirs : List String} {settled : Except Error Effective} :
    settled = settled.map (·.replacing dirs) ↔
      (OnlyBlanks dirs → ∀ e, settled = .ok e → e.mainDirs = []) := by
  have kept : ∀ e : Effective, e = e.replacing dirs ↔ (OnlyBlanks dirs → e.mainDirs = []) := by
    intro e
    rw [Effective.replacing]
    split
    · next blank =>
      constructor
      · exact fun same _ => congrArg Effective.mainDirs same
      · intro noMain
        rw [← noMain blank]
    · next other => simp [other]
  cases settled with
  | error fault => simp [Except.map]
  | ok e =>
      show Except.ok e = Except.ok (e.replacing dirs) ↔ _
      rw [Except.ok.injEq, kept]
      simp

/-- **When blank options are as good as none.**  The settings in effect are those of the
command line without blanks exactly if the search leads to the same root, and if there
are no main directories for blank ones to replace.  If it leads to the same root,
nothing but the main directories is different.  It does if the base directory is not
blank.  If it is, something must have that blank name. -/
theorem resolve_withoutBlanks (cwd : Reached d d.cwd .dir) :
    let root := projectRoot d (startPath o)
    let root' := projectRoot d (startPath o.withoutBlanks)
    (resolve d o = resolve d o.withoutBlanks ↔ root = root' ∧
      (OnlyBlanks o.sourceDirs → ∀ e, resolve d o.withoutBlanks = .ok e → e.mainDirs = [])) ∧
    (root = root' → resolve d o = (resolve d o.withoutBlanks).map (·.replacing o.sourceDirs)) ∧
    ((∀ text, o.baseDir = some text → Says text) → root = root') ∧
    ∀ text, o.baseDir = some text → ¬ Says text → root = root' →
      ∃ s, d.canonical (startPath o) = .ok s := by
  intro root root'
  refine ⟨?_, resolve_eq_replacing, projectRoot_withoutBlanks,
    fun text given silent => canonical_of_projectRoot_eq given silent⟩
  rw [← map_replacing_eq_self_iff]
  constructor
  · intro same
    have sameRoot := projectRoot_eq_of_resolve_eq cwd same
    refine ⟨sameRoot, ?_⟩
    rw [← resolve_eq_replacing sameRoot, same]
  · rintro ⟨sameRoot, same⟩
    rw [resolve_eq_replacing sameRoot, ← same]

/-- Options all of which are blank but for the base directory. -/
def blankOptions : Options where
  baseDir := some "/p"
  profile := some ""
  sourceDirs := [" "]
  output := some "\t"

theorem withoutBlanks_blankOptions : blankOptions.withoutBlanks = { baseDir := some "/p" } := by
  decide

theorem resolve_blankSettings : resolve blankSettings { baseDir := some "/p" } =
    .ok (merge { baseDir := some "/p" } (.ofString "/p")
      { profile := some " ", output := some "json", sources := { main := some [] } }) := by
  rw [resolve_of_root (o := { baseDir := some "/p" }) projectRoot_blankSettings load_blankSettings,
    Option.getD_some]

/-- A blank directory replaces no main directory if the settings file has none. -/
theorem resolve_withoutBlanks_none :
    resolve blankSettings blankOptions = resolve blankSettings { baseDir := some "/p" } := by
  have settled := resolve_withoutBlanks (o := blankOptions) (d := blankSettings) .root
  have speaks : ∀ text, blankOptions.baseDir = some text → Says text := by
    rintro _ ⟨⟩
    exact ⟨'p', by simp, by decide⟩
  rw [withoutBlanks_blankOptions] at settled
  refine settled.1.2 ⟨settled.2.2.1 speaks, ?_⟩
  rintro - e resolved
  rw [resolve_blankSettings] at resolved
  cases resolved
  rfl

/-- A disk with nothing on it. -/
def bareDisk : Disk where
  entries := []
  cwd := []

theorem marked_bareDisk : marked bareDisk (pathOf []) = false := by
  cbv

theorem projectRoot_bareDisk : projectRoot bareDisk (.ofString ".") = pathOf [] := by
  have notHere : ¬ marked bareDisk (pathOf []) = true := by simp [marked_bareDisk]
  rw [projectRoot_eq (searchStart_of_canonical (Disk.canonical_dot _)),
    show bareDisk.cwd = [] from rfl, nearestMarked?_of_not_marked notHere, Disk.parent?_pathOf_nil]
  rfl

theorem load_bareDisk : load bareDisk (pathOf []) = .ok none := by
  cbv

/-- An empty base directory leads to a root with no name, and a blank directory replaces
the main directory. -/
theorem not_resolve_withoutBlanks_bare :
    resolve bareDisk { baseDir := some "" } ≠
      resolve bareDisk (Options.withoutBlanks { baseDir := some "" }) ∧
    resolve bareDisk { sourceDirs := [" "] } ≠
      resolve bareDisk (Options.withoutBlanks { sourceDirs := [" "] }) := by
  have silent : ¬ Says "" ∧ ¬ Says " " := by simp [Says, Text.isBlank]
  constructor
  · intro same
    obtain ⟨s, canonical⟩ := canonical_of_projectRoot_eq rfl silent.1
      (projectRoot_eq_of_resolve_eq .root same)
    have missing : bareDisk.canonical (.ofString "") = .error .missing := rfl
    exact absurd (canonical.symm.trans missing) (by simp)
  · intro same
    have clean : Options.withoutBlanks { sourceDirs := [" "] } = {} := by decide
    have replaced :=
      resolve_of_root (o := { sourceDirs := [" "] }) projectRoot_bareDisk load_bareDisk
    have kept := resolve_of_root (o := {}) projectRoot_bareDisk load_bareDisk
    rw [clean, replaced, kept] at same
    have dirs := congrArg Effective.mainDirs (Except.ok.inj same)
    exact absurd dirs (by decide)

end GroovyFindings.Settings
