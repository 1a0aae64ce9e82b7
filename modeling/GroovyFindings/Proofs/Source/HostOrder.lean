import GroovyFindings.Proofs.Source.Meaning
import Mathlib.Data.List.Nodup
import Mathlib.Data.List.Pairwise

/-!
# The host's order of files does not matter

The host may list its files in any order.  Each of the ways to mean a source
looks for the least key, and the key that is found depends on which sources there
are and not on where they stand.  The key settles the relative path; where an
absolute path is reported the key settles nothing, but then only one source can
be at it.

## Main results

* `FirstLeast.key_eq` — the least key of the elements of two lists.
* `Means.relative_eq` — what a path means in two orders.
* `fileFor?_ignores_host_order` — the files of a host in any order.
-/

namespace GroovyFindings

variable {files files' : List TrackedFile} {reported : String} {f g : TrackedFile}

/-- The least key does not depend on where the elements stand. -/
theorem FirstLeast.key_eq {α K : Type} [LinearOrder K] {key : α → K} {P : α → Prop}
    {xs ys : List α} {a b : α} (h : FirstLeast key P xs a) (h' : FirstLeast key P ys b)
    (same : ∀ c, c ∈ xs ↔ c ∈ ys) : key a = key b := by
  have hab : key a ≤ key b := h.least ((same b).2 h'.mem) h'.holds
  have hba : key b ≤ key a := h'.least ((same a).1 h.mem) h.holds
  exact le_antisymm hab hba

theorem mem_groovySources_of_perm (perm : files.Perm files') (f : TrackedFile) :
    f ∈ groovySources files ↔ f ∈ groovySources files' :=
  (perm.filter _).mem_iff

/-- Only one of the files is at a path. -/
theorem IsAt.unique (distinct : files.Pairwise fun f g => ¬ f.absolute.SameAs g.absolute)
    (hf : f ∈ files) (hg : g ∈ files) (h : IsAt reported f) (h' : IsAt reported g) : f = g := by
  have symmetric : Std.Symm fun f g : TrackedFile => ¬ f.absolute.SameAs g.absolute :=
    ⟨fun f g differ same => differ same.symm⟩
  by_contra differ
  have apart := distinct.forall hf hg differ
  exact apart (h.2.trans h'.2.symm)

/-- What a path means in one order of the files has the relative path of what it
means in another one. -/
theorem Means.relative_eq (distinct : files.Pairwise fun f g => ¬ f.absolute.SameAs g.absolute)
    (perm : files.Perm files') (h : Means files reported f) (h' : Means files' reported g) :
    f.relative = g.relative := by
  have same := mem_groovySources_of_perm perm
  cases h with
  | exact first =>
      cases h' with
      | exact first' =>
          have hf : f ∈ files := (List.mem_filter.1 first.mem).1
          have hg : g ∈ files := (List.mem_filter.1 ((same g).2 first'.mem)).1
          rw [IsAt.unique distinct hf hg first.holds first'.holds]
      | inner elsewhere _ _ | outer elsewhere _ _ _ =>
          exact absurd first.holds (elsewhere f ((same f).1 first.mem))
  | inner elsewhere _ best =>
      cases h' with
      | exact first' => exact absurd first'.holds (elsewhere g ((same g).2 first'.mem))
      | inner _ _ best' => exact relative_eq_of_shortFirst (best.key_eq best' same)
      | outer _ _ noInner _ => exact absurd best.holds (noInner f ((same f).1 best.mem))
  | outer elsewhere _ noInner best =>
      cases h' with
      | exact first' => exact absurd first'.holds (elsewhere g ((same g).2 first'.mem))
      | inner _ _ best' => exact absurd best'.holds (noInner g ((same g).2 best'.mem))
      | outer _ _ _ best' => exact relative_eq_of_longFirst (best.key_eq best' same)

theorem fileFor?_eq_none_of_perm (perm : files.Perm files') :
    fileFor? files reported = none ↔ fileFor? files' reported = none := by
  simp only [fileFor?_eq_none_iff, mem_groovySources_of_perm perm]

/-- **The order in which the host lists its files does not matter.**  Where no
two files are at one path, a reported path means a source in every order or in
none, and always one of the same relative path; the very same source, where no
two sources share theirs. -/
theorem fileFor?_ignores_host_order (reported : String)
    (distinct : files.Pairwise fun f g => ¬ f.absolute.SameAs g.absolute)
    (perm : files.Perm files') :
    (fileFor? files reported).map (·.relative) = (fileFor? files' reported).map (·.relative) ∧
    (((groovySources files).map (·.relative)).Nodup →
      fileFor? files reported = fileFor? files' reported) := by
  cases hf : fileFor? files reported with
  | none =>
      rw [(fileFor?_eq_none_of_perm perm).1 hf]
      exact ⟨rfl, fun _ => rfl⟩
  | some f =>
      obtain ⟨g, hg⟩ : ∃ g, fileFor? files' reported = some g := by
        apply Option.ne_none_iff_exists'.1
        rw [ne_eq, ← fileFor?_eq_none_of_perm perm, hf]
        simp
      have relative : f.relative = g.relative :=
        (fileFor?_eq_some_iff_means.1 hf).relative_eq distinct perm (fileFor?_eq_some_iff_means.1 hg)
      rw [hg]
      refine ⟨congrArg some relative, fun single => ?_⟩
      have memF := mem_of_fileFor?_eq_some hf
      have memG := (mem_groovySources_of_perm perm g).2 (mem_of_fileFor?_eq_some hg)
      rw [List.inj_on_of_nodup_map single memF memG relative]

/-! ## Three helpers -/

/-- Three sources whose paths end alike. -/
def helperFiles : List TrackedFile := [
  ⟨"z/long/util/Helper.groovy", .ofString "/p/z/long/util/Helper.groovy", some groovyLanguage,
    .main⟩,
  ⟨"b/util/Helper.groovy", .ofString "/p/b/util/Helper.groovy", some groovyLanguage, .main⟩,
  ⟨"a/util/Helper.groovy", .ofString "/p/a/util/Helper.groovy", some groovyLanguage, .main⟩]

/-- What their common end means is the same with the list turned around. -/
theorem fileFor?_helperFiles_reverse :
    fileFor? helperFiles "util/Helper.groovy" = fileFor? helperFiles.reverse "util/Helper.groovy" ∧
      (fileFor? helperFiles "util/Helper.groovy").map (·.relative) = some "a/util/Helper.groovy" := by
  have same := @fileFor?_ignores_host_order helperFiles helperFiles.reverse "util/Helper.groovy"
    (by decide +kernel) helperFiles.reverse_perm.symm
  exact ⟨same.2 (by decide +kernel), by decide +kernel⟩

end GroovyFindings
