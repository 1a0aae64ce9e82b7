import GroovyFindings.Linter.Scope
import GroovyFindings.Proofs.Path.Below

/-!
# The common ancestor of directories

The ancestor is found by going up from the first directory until the next one
lies below, and so on.  What it denotes is said without that: it is the longest
list of components that all directories begin with.

## Main definitions

* `LongestStart` — the longest list that several lists begin with.

## Main results

* `ascendTo?_prefix`, `exists_ascendTo?` — ascending leads to a beginning of both
  paths, and not above one that is known.
* `commonAncestor?_prefix` — the common ancestor of directories begins each of
  them.
* `exists_commonAncestor?` — there is one if all begin alike.
* `commonAncestor?_is_deepest` — the common ancestor is what all begin with, in
  full, and none if they begin with nothing.
-/

namespace GroovyFindings.Linter

/-- Ascending leads to a beginning of both paths. -/
theorem ascendTo?_prefix {base dir above : Path} (h : ascendTo? base dir = some above) :
    above.components <+: base.components ∧ above.components <+: dir.components := by
  fun_induction ascendTo? base dir with
  | case1 base starts =>
      cases h
      exact ⟨List.prefix_rfl, List.isPrefixOf_iff_prefix.1 starts⟩
  | case2 base _ up hup ih =>
      obtain ⟨c, hc⟩ := Path.components_of_parent? hup
      obtain ⟨hbase, hdir⟩ := ih h
      exact ⟨hbase.trans ⟨[c], hc.symm⟩, hdir⟩
  | case3 => cases h

/-- Ascending does not lead above what both paths begin with. -/
theorem exists_ascendTo? {base dir : Path} {start : List Path.Component} (hne : start ≠ [])
    (hbase : start <+: base.components) (hdir : start <+: dir.components) :
    ∃ above, ascendTo? base dir = some above ∧ start <+: above.components := by
  fun_induction ascendTo? base dir with
  | case1 base => exact ⟨base, rfl, hbase⟩
  | case2 base notAbove up hup ih =>
      obtain ⟨c, hc⟩ := Path.components_of_parent? hup
      rw [hc, List.prefix_concat_iff] at hbase
      obtain whole | hbase := hbase
      · rw [whole, ← hc] at hdir
        exact absurd (List.isPrefixOf_iff_prefix.2 hdir) notAbove
      · exact ih hbase
  | case3 base notAbove hup =>
      -- The path is the root, and so is the beginning.
      have whole : start = base.components := by
        obtain hnil | hroot := Path.components_of_parent?_eq_none hup
        · rw [hnil] at hbase
          exact absurd (List.prefix_nil.1 hbase) hne
        · rw [hroot] at hbase ⊢
          have single : start <+: [] ++ [.root] := hbase
          obtain whole | hnil := List.prefix_concat_iff.1 single
          · exact whole
          · exact absurd (List.prefix_nil.1 hnil) hne
      rw [whole] at hdir
      exact absurd (List.isPrefixOf_iff_prefix.2 hdir) notAbove

/-- What is ascended to from one directory after the other begins all of them. -/
theorem foldlM_ascendTo?_prefix {first above : Path} {rest : List Path}
    (h : rest.foldlM ascendTo? first = some above) :
    above.components <+: first.components ∧
      ∀ dir ∈ rest, above.components <+: dir.components := by
  induction rest generalizing first with
  | nil =>
      cases h
      exact ⟨List.prefix_rfl, by simp⟩
  | cons dir rest ih =>
      rw [List.foldlM_cons, Option.bind_eq_bind, Option.bind_eq_some_iff] at h
      obtain ⟨base, hbase, h⟩ := h
      obtain ⟨hfirst, hdir⟩ := ascendTo?_prefix hbase
      obtain ⟨habove, hrest⟩ := ih h
      refine ⟨habove.trans hfirst, ?_⟩
      simp only [List.mem_cons, forall_eq_or_imp]
      exact ⟨habove.trans hdir, hrest⟩

/-- Ascending from one directory after the other does not lead above what all
begin with. -/
theorem exists_foldlM_ascendTo? {first : Path} {rest : List Path} {start : List Path.Component}
    (hne : start ≠ []) (hfirst : start <+: first.components)
    (hrest : ∀ dir ∈ rest, start <+: dir.components) :
    ∃ above, rest.foldlM ascendTo? first = some above ∧ start <+: above.components := by
  induction rest generalizing first with
  | nil => exact ⟨first, rfl, hfirst⟩
  | cons dir rest ih =>
      simp only [List.mem_cons, forall_eq_or_imp] at hrest
      obtain ⟨base, hascend, hbase⟩ := exists_ascendTo? hne hfirst hrest.1
      obtain ⟨above, hfold, habove⟩ := ih hbase hrest.2
      refine ⟨above, ?_, habove⟩
      rw [List.foldlM_cons, hascend]
      exact hfold

/-- The common ancestor of directories begins each of them. -/
theorem commonAncestor?_prefix {dirs : List Path} {base : Path}
    (h : commonAncestor? dirs = some base) :
    ∀ dir ∈ dirs, base.components <+: dir.components := by
  cases dirs with
  | nil => cases h
  | cons first rest =>
      obtain ⟨hfold, -⟩ := Option.filter_eq_some_iff.1 h
      obtain ⟨hfirst, hrest⟩ := foldlM_ascendTo?_prefix hfold
      simp only [List.mem_cons, forall_eq_or_imp]
      exact ⟨hfirst, hrest⟩

/-- Directories that begin alike have a common ancestor, not above what they begin
with. -/
theorem exists_commonAncestor? {dirs : List Path} {start : List Path.Component}
    (hdirs : dirs ≠ []) (hne : start ≠ []) (h : ∀ dir ∈ dirs, start <+: dir.components) :
    ∃ base, commonAncestor? dirs = some base ∧ start <+: base.components := by
  obtain ⟨first, rest, rfl⟩ := List.exists_cons_of_ne_nil hdirs
  simp only [List.mem_cons, forall_eq_or_imp] at h
  obtain ⟨base, hfold, hbase⟩ := exists_foldlM_ascendTo? hne h.1 h.2
  have spelled : base.chars ≠ [] := by
    intro hnil
    have empty : base.components = [] := by
      rw [Path.components, Path.segments, hnil]
      rfl
    rw [empty] at hbase
    exact hne (List.prefix_nil.1 hbase)
  refine ⟨base, ?_, hbase⟩
  rw [commonAncestor?, hfold, Option.filter_some, if_pos (decide_eq_true spelled)]

/-! ## What all directories begin with -/

/-- `start` is the longest list that all of the lists begin with. -/
structure LongestStart {α : Type} (start : List α) (lists : List (List α)) : Prop where
  begins : ∀ l ∈ lists, start <+: l
  longest : ∀ other, (∀ l ∈ lists, other <+: l) → other <+: start

/-- Lists that occur in one place and in the other begin with the same. -/
theorem LongestStart.unique {α : Type} {start start' : List α} {lists lists' : List (List α)}
    (h : LongestStart start lists) (h' : LongestStart start' lists')
    (same : ∀ l, l ∈ lists' ↔ l ∈ lists) : start' = start := by
  have above : start' <+: start := h.longest start' fun l hl => h'.begins l ((same l).2 hl)
  have below : start <+: start' := h'.longest start fun l hl => h.begins l ((same l).1 hl)
  exact above.eq_of_length_le below.length_le

/-- What the common ancestor denotes; nothing if there is none. -/
def commonStart (dirs : List Path) : List Path.Component :=
  ((commonAncestor? dirs).map Path.components).getD []

theorem commonStart_of_commonAncestor? {dirs : List Path} {base : Path}
    (h : commonAncestor? dirs = some base) : commonStart dirs = base.components := by
  rw [commonStart, h]
  rfl

/-- There is no common ancestor if and only if the directories begin with nothing. -/
theorem commonAncestor?_eq_none_iff {dirs : List Path} :
    commonAncestor? dirs = none ↔ commonStart dirs = [] := by
  constructor
  · intro h
    rw [commonStart, h]
    rfl
  · intro hnil
    rw [Option.eq_none_iff_forall_ne_some]
    intro base h
    rw [commonStart_of_commonAncestor? h] at hnil
    cases dirs with
    | nil => cases h
    | cons first rest =>
        obtain ⟨-, spelled⟩ := Option.filter_eq_some_iff.1 h
        exact Path.components_ne_nil (by simpa using spelled) hnil

theorem map_components_commonAncestor? (dirs : List Path) :
    (commonAncestor? dirs).map Path.components =
      if commonStart dirs = [] then none else some (commonStart dirs) := by
  cases h : commonAncestor? dirs with
  | none =>
      rw [if_pos (commonAncestor?_eq_none_iff.1 h)]
      rfl
  | some base =>
      have found : commonStart dirs ≠ [] := by
        rw [ne_eq, ← commonAncestor?_eq_none_iff, h]
        simp
      rw [if_neg found, commonStart_of_commonAncestor? h]
      rfl

/-- The common ancestor leaves nothing out that all directories begin with. -/
theorem longestStart_commonStart {dirs : List Path} (hdirs : dirs ≠ []) :
    LongestStart (commonStart dirs) (dirs.map Path.components) where
  begins := by
    simp only [List.mem_map, forall_exists_index, and_imp, forall_apply_eq_imp_iff₂]
    cases h : commonAncestor? dirs with
    | none =>
        rw [commonAncestor?_eq_none_iff.1 h]
        exact fun dir _ => List.nil_prefix
    | some base =>
        rw [commonStart_of_commonAncestor? h]
        exact commonAncestor?_prefix h
  longest := by
    intro other hother
    simp only [List.mem_map, forall_exists_index, and_imp, forall_apply_eq_imp_iff₂] at hother
    by_cases hne : other = []
    · rw [hne]
      exact List.nil_prefix
    · obtain ⟨base, h, deep⟩ := exists_commonAncestor? hdirs hne hother
      rwa [commonStart_of_commonAncestor? h]

/-- **The common ancestor is the deepest one.**  What directories have in common
is the longest list of components that all of them begin with.  There is a common
ancestor if and only if that is something, and then this is what it denotes.
Neither the order of the directories nor a repetition makes a difference. -/
theorem commonAncestor?_is_deepest {dirs : List Path} (hdirs : dirs ≠ []) :
    ∃ start, LongestStart start (dirs.map Path.components) ∧
      (commonAncestor? dirs = none ↔ start = []) ∧
      (∀ base, commonAncestor? dirs = some base → base.components = start) ∧
      ∀ others, (∀ dir, dir ∈ others ↔ dir ∈ dirs) →
        (commonAncestor? others).map Path.components =
          (commonAncestor? dirs).map Path.components := by
  refine ⟨commonStart dirs, longestStart_commonStart hdirs, commonAncestor?_eq_none_iff,
    fun base h => (commonStart_of_commonAncestor? h).symm, fun others same => ?_⟩
  have hothers : others ≠ [] := by
    obtain ⟨dir, hdir⟩ := List.exists_mem_of_ne_nil dirs hdirs
    exact List.ne_nil_of_mem ((same dir).2 hdir)
  have starts : commonStart others = commonStart dirs := by
    refine (longestStart_commonStart hdirs).unique (longestStart_commonStart hothers) ?_
    intro l
    simp only [List.mem_map, same]
  rw [map_components_commonAncestor?, map_components_commonAncestor?, starts]

/-- Directories that are spelled in different ways, one of them above another one. -/
def spelledDirs : List Path :=
  [.ofString "/p/a/x", .ofString "/p//b/", .ofString "/p/./a", .ofString "/p/b"]

theorem commonAncestor?_is_deepest_spelled :
    commonAncestor? spelledDirs = some (.ofString "/p") ∧
    ∃ start, LongestStart start (spelledDirs.map Path.components) ∧
      (commonAncestor? spelledDirs = none ↔ start = []) ∧
      (∀ base, commonAncestor? spelledDirs = some base → base.components = start) ∧
      ∀ others, (∀ dir, dir ∈ others ↔ dir ∈ spelledDirs) →
        (commonAncestor? others).map Path.components =
          (commonAncestor? spelledDirs).map Path.components :=
  ⟨by cbv, commonAncestor?_is_deepest (by decide)⟩

end GroovyFindings.Linter
