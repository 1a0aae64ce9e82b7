import Mathlib
import GroovyFindings.Settings.Effective

/-!
# Precedence among the settings

A setting comes from the first layer that says something: the command line, then
the settings file, then a default.  What it takes to say something differs from
setting to setting.  A text says something if it is not blank, some lists do if
they are not empty, and some do by being there.  The layers of one setting are no
others, so no setting depends on what is said about another one.

## Main definitions

* `FirstOf` — the first of several layers that counts.
* `Precedence` — the layers of each setting.
* `FieldByField` — settings that differ only where their layers do.

## Main results

* `FirstOf.unique` — the layers leave no choice.
* `precedence_merge` — the settings in effect come from their layers.
* `Precedence.fieldByField` — and from nothing else.
* `resolve_is_precedence` — so it is on a disk.
-/

namespace GroovyFindings.Settings

/-! ## The first layer that counts -/

/-- The first of the layers that is there and counts; `none` if there is none. -/
inductive FirstOf {α : Type} (counts : α → Prop) : List (Option α) → Option α → Prop
  | nobody : FirstOf counts [] none
  | absent {layers : List (Option α)} {first : Option α} (h : FirstOf counts layers first) :
      FirstOf counts (none :: layers) first
  | ignored {x : α} {layers : List (Option α)} {first : Option α} (hx : ¬ counts x)
      (h : FirstOf counts layers first) : FirstOf counts (some x :: layers) first
  | taken {x : α} {layers : List (Option α)} (hx : counts x) :
      FirstOf counts (some x :: layers) (some x)

namespace FirstOf

variable {α : Type} {counts : α → Prop} {layers : List (Option α)} {first first' : Option α}

theorem unique (h : FirstOf counts layers first) (h' : FirstOf counts layers first') :
    first = first' := by
  induction h with
  | nobody =>
      cases h'
      rfl
  | absent h ih =>
      cases h' with
      | absent h' => exact ih h'
  | ignored hx h ih =>
      cases h' with
      | ignored _ h' => exact ih h'
      | taken hx' => exact absurd hx' hx
  | taken hx =>
      cases h' with
      | ignored hx' _ => exact absurd hx hx'
      | taken _ => rfl

theorem unique_some {x y : α} (h : FirstOf counts layers (some x))
    (h' : FirstOf counts layers (some y)) : x = y := Option.some.inj (h.unique h')

/-- What is made of the first layer that counts is determined by the layers. -/
theorem determines {β : Type} {make : α → β} {made made' : β}
    (h : ∃ x, FirstOf counts layers (some x) ∧ made = make x)
    (h' : ∃ x, FirstOf counts layers (some x) ∧ made' = make x) : made = made' := by
  obtain ⟨x, first, hmade⟩ := h
  obtain ⟨x', first', hmade'⟩ := h'
  rw [hmade, hmade', first.unique_some first']

/-- A further layer goes before the others if it counts. -/
theorem filter_or {p : α → Bool} (test : ∀ x, p x = true ↔ counts x) (layer : Option α)
    (h : FirstOf counts layers first) :
    FirstOf counts (layer :: layers) ((layer.filter p).or first) := by
  cases layer with
  | none => exact .absent h
  | some x =>
      by_cases hx : counts x
      · rw [Option.filter_some_pos ((test x).2 hx)]
        exact .taken hx
      · have fails : p x = false := Bool.eq_false_iff.2 (mt (test x).1 hx)
        rw [Option.filter_some_neg fails]
        exact .ignored hx h

/-- The last layer is a default. -/
theorem filter_getD {p : α → Bool} (test : ∀ x, p x = true ↔ counts x) (layer : Option α)
    {default : α} (hdefault : counts default) :
    FirstOf counts [layer, some default] (some ((layer.filter p).getD default)) := by
  rw [← Option.or_some]
  exact filter_or test layer (.taken hdefault)

/-- A layer that counts by being there. -/
theorem or_of_forall (all : ∀ x, counts x) (layer : Option α) (h : FirstOf counts layers first) :
    FirstOf counts (layer :: layers) (layer.or first) := by
  cases layer with
  | none => exact .absent h
  | some x => exact .taken (all x)

end FirstOf

/-! ## What counts -/

/-- A text with a character that is not blank. -/
def Says (text : String) : Prop := ∃ c ∈ text.toList, Text.isBlank c = false

instance : DecidablePred Says := fun text =>
  inferInstanceAs (Decidable (∃ c ∈ text.toList, Text.isBlank c = false))

/-- Whatever is there. -/
def Given {α : Type} (_ : α) : Prop := True

/-- The paths that a list names below a base: a blank entry names none. -/
def named (base : Path) (dirs : List String) : List Path :=
  (dirs.filter fun dir => decide (Says dir)).map base.child

theorem isBlankText_eq_false {text : String} : Text.isBlankText text = false ↔ Says text := by
  simp [Text.isBlankText, Says]

/-- Every default says something. -/
theorem says_default : Says "narcbridge-profile.toml" ∧ Says "human" ∧ Says ".narcbridge" :=
  ⟨⟨'n', by simp, by decide⟩, ⟨'h', by simp, by decide⟩, ⟨'.', by simp, by decide⟩⟩

theorem not_isBlankText (text : String) : (!Text.isBlankText text) = true ↔ Says text := by
  rw [Bool.not_eq_true', isBlankText_eq_false]

theorem not_isEmpty {α : Type} (xs : List α) : (!xs.isEmpty) = true ↔ xs ≠ [] := by
  cases xs <;> simp

theorem dirsBelow_eq_named (base : Path) (dirs : List String) :
    dirsBelow base dirs = named base dirs := by
  have same : (fun dir => !Text.isBlankText dir) = fun dir => decide (Says dir) := by
    funext dir
    rw [Bool.eq_iff_iff, decide_eq_true_iff, not_isBlankText]
  rw [dirsBelow, named, same]

/-! ## The layers of each setting -/

/-- Each setting is the first of its layers that counts. -/
structure Precedence (o : Options) (w : Written) (base : Path) (e : Effective) : Prop where
  baseDir : e.baseDir = base
  profile : ∃ text,
    FirstOf Says [o.profile, w.profile, some "narcbridge-profile.toml"] (some text) ∧
      e.profile = base.child text
  profileConfigured : e.profileConfigured = true ↔
    ∃ text, FirstOf Says [o.profile, w.profile] (some text)
  output : FirstOf Says [o.output, w.output, some "human"] (some e.output)
  workDir : ∃ text, FirstOf Says [o.workDir, w.workDir, some ".narcbridge"] (some text) ∧
    e.workDir = base.child text
  /-- There is no default. -/
  reportPath : ∃ text, FirstOf Says [o.reportPath, w.linter.reportPath] text ∧
    e.reportPath = text.map base.child
  /-- The name of a directory counts even if it is blank. -/
  title : ∃ text, FirstOf Says [w.title] text ∧
    FirstOf Given [text, base.fileName?.map String.ofList, some "project"] (some e.title)
  /-- The list in the settings file counts even if it is empty, the one of the
  command line does not. -/
  mainDirs : ∃ dirs dirs', FirstOf (· ≠ []) [some o.sourceDirs] dirs ∧
    FirstOf Given [dirs, w.sources.main, some ["src/main/groovy"]] (some dirs') ∧
      e.mainDirs = named base dirs'
  testDirs : ∃ dirs, FirstOf Given [w.sources.test, some ["src/test/groovy"]] (some dirs) ∧
    e.testDirs = named base dirs
  suffixes : FirstOf (· ≠ []) [w.sources.suffixes, some [".groovy"]] (some e.suffixes)
  command : FirstOf (· ≠ []) [w.linter.command, some ["codenarc"]] (some e.command)

section Merge

variable (o : Options) (w : Written) (base : Path)

theorem firstOf_said (text text' : Option String) :
    FirstOf Says [text, text'] ((said text).or (said text')) := by
  have second : FirstOf Says [text'] ((said text').or none) :=
    .filter_or not_isBlankText text' .nobody
  rw [Option.or_none] at second
  exact .filter_or not_isBlankText text second

theorem firstOf_said_getD (text text' : Option String) {default : String}
    (hdefault : Says default) :
    FirstOf Says [text, text', some default] (some (((said text).or (said text')).getD default)) := by
  have second := FirstOf.filter_getD not_isBlankText text' hdefault
  rw [← Option.or_some, Option.or_assoc, Option.or_some]
  exact .filter_or not_isBlankText text second

theorem firstOf_title : ∃ text, FirstOf Says [w.title] text ∧
    FirstOf Given [text, base.fileName?.map String.ofList, some "project"]
      (some ((said w.title).getD (titleOf base))) := by
  have written : FirstOf Says [w.title] ((said w.title).or none) :=
    .filter_or not_isBlankText w.title .nobody
  have name : titleOf base = (base.fileName?.map String.ofList).getD "project" := by
    rw [titleOf]
    cases base.fileName? <;> rfl
  have given : ∀ text : String, Given text := fun _ => trivial
  refine ⟨said w.title, by rwa [Option.or_none] at written, ?_⟩
  rw [name, ← Option.or_some, ← Option.or_some]
  exact .or_of_forall given _ (.or_of_forall given _ (.taken trivial))

theorem firstOf_getD (dirs : Option (List String)) (default : List String) :
    FirstOf Given [dirs, some default] (some (dirs.getD default)) := by
  rw [← Option.or_some]
  exact .or_of_forall (fun _ => trivial) dirs (.taken trivial)

theorem firstOf_mainSaid : ∃ dirs, FirstOf (· ≠ []) [some o.sourceDirs] dirs ∧
    FirstOf Given [dirs, w.sources.main, some ["src/main/groovy"]] (some (mainSaid o w)) := by
  cases hdirs : o.sourceDirs with
  | nil =>
      refine ⟨none, .ignored (by simp) .nobody, .absent ?_⟩
      rw [mainSaid, hdirs]
      exact firstOf_getD _ _
  | cons dir dirs =>
      refine ⟨some (dir :: dirs), .taken (by simp), ?_⟩
      rw [mainSaid, hdirs]
      exact .taken trivial

theorem firstOf_listOr {default : List String} (nonempty : default ≠ [])
    (list : Option (List String)) :
    FirstOf (· ≠ []) [list, some default] (some (listOr default list)) :=
  .filter_getD not_isEmpty list nonempty

/-- The settings in effect come from their layers. -/
theorem precedence_merge : Precedence o w base (merge o base w) where
  baseDir := rfl
  profile := ⟨_, firstOf_said_getD o.profile w.profile says_default.1, rfl⟩
  profileConfigured := by
    have first := firstOf_said o.profile w.profile
    show (profileSaid o w).isSome = true ↔ _
    rw [Option.isSome_iff_exists]
    constructor
    · intro ⟨text, htext⟩
      exact ⟨text, htext ▸ first⟩
    · intro ⟨text, htext⟩
      exact ⟨text, first.unique htext⟩
  output := firstOf_said_getD o.output w.output says_default.2.1
  workDir := ⟨_, firstOf_said_getD o.workDir w.workDir says_default.2.2, rfl⟩
  reportPath := ⟨_, firstOf_said o.reportPath w.linter.reportPath, rfl⟩
  title := firstOf_title w base
  mainDirs := by
    obtain ⟨dirs, cli, first⟩ := firstOf_mainSaid o w
    exact ⟨dirs, _, cli, first, dirsBelow_eq_named base _⟩
  testDirs := ⟨_, firstOf_getD w.sources.test _, dirsBelow_eq_named base _⟩
  suffixes := firstOf_listOr (by simp) w.sources.suffixes
  command := firstOf_listOr (by simp) w.linter.command

end Merge

/-! ## One setting does not depend on another -/

/-- Two settings are the same if what is said about them is. -/
structure FieldByField (o o' : Options) (w w' : Written) (e e' : Effective) : Prop where
  profile : o.profile = o'.profile → w.profile = w'.profile →
    e.profile = e'.profile ∧ e.profileConfigured = e'.profileConfigured
  output : o.output = o'.output → w.output = w'.output → e.output = e'.output
  workDir : o.workDir = o'.workDir → w.workDir = w'.workDir → e.workDir = e'.workDir
  reportPath : o.reportPath = o'.reportPath → w.linter.reportPath = w'.linter.reportPath →
    e.reportPath = e'.reportPath
  title : w.title = w'.title → e.title = e'.title
  mainDirs : o.sourceDirs = o'.sourceDirs → w.sources.main = w'.sources.main →
    e.mainDirs = e'.mainDirs
  testDirs : w.sources.test = w'.sources.test → e.testDirs = e'.testDirs
  suffixes : w.sources.suffixes = w'.sources.suffixes → e.suffixes = e'.suffixes
  command : w.linter.command = w'.linter.command → e.command = e'.command

namespace Precedence

variable {o o' : Options} {w w' : Written} {base : Path} {e e' : Effective}

/-- Below one base a setting is determined by its layers. -/
theorem fieldByField (h : Precedence o w base e) (h' : Precedence o' w' base e') :
    FieldByField o o' w w' e e' where
  profile := by
    intro cli written
    constructor
    · have path := h.profile
      rw [cli, written] at path
      exact FirstOf.determines path h'.profile
    · rw [Bool.eq_iff_iff, h.profileConfigured, h'.profileConfigured, cli, written]
  output := by
    intro cli written
    have first := h.output
    rw [cli, written] at first
    exact first.unique_some h'.output
  workDir := by
    intro cli written
    have path := h.workDir
    rw [cli, written] at path
    exact FirstOf.determines path h'.workDir
  reportPath := by
    intro cli written
    obtain ⟨text, first, below⟩ := h.reportPath
    obtain ⟨text', first', below'⟩ := h'.reportPath
    rw [cli, written] at first
    rw [below, below', first.unique first']
  title := by
    intro written
    obtain ⟨text, said, first⟩ := h.title
    obtain ⟨text', said', first'⟩ := h'.title
    rw [written] at said
    obtain rfl := said.unique said'
    exact first.unique_some first'
  mainDirs := by
    intro cli written
    obtain ⟨dirs, chosen, said, first, below⟩ := h.mainDirs
    obtain ⟨dirs', chosen', said', first', below'⟩ := h'.mainDirs
    -- An empty list on the command line is settled first, as no layer at all.
    rw [cli] at said
    obtain rfl := said.unique said'
    rw [written] at first
    rw [below, below', first.unique_some first']
  testDirs := by
    intro written
    have dirs := h.testDirs
    rw [written] at dirs
    exact FirstOf.determines dirs h'.testDirs
  suffixes := by
    intro written
    have first := h.suffixes
    rw [written] at first
    exact first.unique_some h'.suffixes
  command := by
    intro written
    have first := h.command
    rw [written] at first
    exact first.unique_some h'.command

end Precedence

/-! ## The settings on a disk -/

section Resolve

variable {d : Disk} {o : Options}

theorem resolve_eq_map : resolve d o = (load d (projectRoot d (startPath o))).map fun written =>
    merge o (projectRoot d (startPath o)) (written.getD {}) := by
  rw [resolve]
  cases load d (projectRoot d (startPath o)) <;> rfl

theorem resolve_of_error {e : Error} (h : load d (projectRoot d (startPath o)) = .error e) :
    resolve d o = .error e := by
  rw [resolve_eq_map, h]
  rfl

theorem resolve_of_ok {written : Option Written}
    (h : load d (projectRoot d (startPath o)) = .ok written) :
    resolve d o = .ok (merge o (projectRoot d (startPath o)) (written.getD {})) := by
  rw [resolve_eq_map, h]
  rfl

theorem resolve_of_root {root : Path} {written : Option Written}
    (isRoot : projectRoot d (startPath o) = root) (loaded : load d root = .ok written) :
    resolve d o = .ok (merge o root (written.getD {})) := by
  subst isRoot
  exact resolve_of_ok loaded

theorem load_of_resolve_eq_error {error : Error} (h : resolve d o = .error error) :
    load d (projectRoot d (startPath o)) = .error error := by
  cases loaded : load d (projectRoot d (startPath o)) with
  | error fault =>
      rw [resolve_of_error loaded] at h
      cases h
      rfl
  | ok written =>
      rw [resolve_of_ok loaded] at h
      cases h

theorem exists_of_resolve_eq_ok {e : Effective} (h : resolve d o = .ok e) :
    ∃ written, load d (projectRoot d (startPath o)) = .ok written ∧
      e = merge o (projectRoot d (startPath o)) (written.getD {}) := by
  cases loaded : load d (projectRoot d (startPath o)) with
  | error fault =>
      rw [resolve_of_error loaded] at h
      cases h
  | ok written =>
      rw [resolve_of_ok loaded] at h
      cases h
      exact ⟨written, rfl, rfl⟩

end Resolve

/-- **The settings in effect are settled by precedence, field by field.**  A
settings file at the root that does not parse is an error.  If it parses, or if
there is none, there are settings in effect, each of which is the first of its
layers that counts; and whatever else is changed, on the command line, in the
settings file or on the disk, a setting stays the same as long as the root and its
own layers do. -/
theorem resolve_is_precedence (d : Disk) (o : Options) :
    let base := projectRoot d (startPath o)
    (∀ error, load d base = .error error → resolve d o = .error error) ∧
    ∀ written, load d base = .ok written → ∃ e, resolve d o = .ok e ∧
      Precedence o (written.getD {}) base e ∧
      ∀ d' o' written' e', projectRoot d' (startPath o') = base → load d' base = .ok written' →
        resolve d' o' = .ok e' →
        FieldByField o o' (written.getD {}) (written'.getD {}) e e' := by
  intro base
  refine ⟨fun error => resolve_of_error, ?_⟩
  intro written loaded
  refine ⟨_, resolve_of_ok loaded, precedence_merge _ _ _, ?_⟩
  intro d' o' written' e' root loaded' settled
  rw [← root] at loaded'
  rw [resolve_of_ok loaded', Except.ok.injEq, root] at settled
  subst settled
  exact (precedence_merge _ _ _).fieldByField (precedence_merge _ _ _)

/-! ## Blank settings -/

/-- A disk with a settings file that has a blank profile and no main directories. -/
def blankSettings : Disk where
  entries := [([['p']], .dir),
    ([['p'], "narcbridge.toml".toList], .file (Utf8.ofString
      "profile = ' '\noutput = 'json'\n[sources]\nmain = []\n"))]
  cwd := []

theorem projectRoot_blankSettings :
    projectRoot blankSettings (.ofString "/p") = .ofString "/p" := by
  cbv

theorem load_blankSettings : load blankSettings (.ofString "/p") =
    .ok (some { profile := some " ", output := some "json", sources := { main := some [] } }) := by
  cbv

/-- A blank output on the command line and a blank profile in the settings file are
passed over, an empty list of main directories is not. -/
theorem resolve_is_precedence_blank : ∃ e,
    resolve blankSettings { baseDir := some "/p", output := some " " } = .ok e ∧
      e.output = "json" ∧ e.profileConfigured = false ∧ e.mainDirs = [] := by
  have silent : ¬ Says " " := by simp [Says, Text.isBlank]
  have root : projectRoot blankSettings (startPath { baseDir := some "/p", output := some " " }) =
      .ofString "/p" := projectRoot_blankSettings
  have settled := (resolve_is_precedence blankSettings
    { baseDir := some "/p", output := some " " }).2
  rw [root] at settled
  obtain ⟨e, resolved, precedence, _⟩ := settled _ load_blankSettings
  refine ⟨e, resolved, ?_, ?_, ?_⟩
  · exact precedence.output.unique_some (.ignored silent (.taken ⟨'j', by simp, by decide⟩))
  · rw [Bool.eq_false_iff]
    intro configured
    obtain ⟨text, first⟩ := precedence.profileConfigured.1 configured
    exact absurd (first.unique (.absent (.ignored silent .nobody))) (by simp)
  · obtain ⟨dirs, dirs', cli, first, below⟩ := precedence.mainDirs
    obtain rfl := cli.unique (.ignored (by simp) .nobody)
    rw [below, first.unique_some (.absent (.taken trivial))]
    rfl

end GroovyFindings.Settings
