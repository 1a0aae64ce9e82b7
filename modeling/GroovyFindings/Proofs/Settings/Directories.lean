import Mathlib
import GroovyFindings.Analysis.Basic
import GroovyFindings.Proofs.Path.Below
import GroovyFindings.Proofs.Settings.Precedence
import GroovyFindings.Proofs.Settings.Root
import GroovyFindings.Source.Scan

/-!
# The directories that are looked in and those that are linted

The linter is told the main directories in effect, which have been joined to the root
of the project.  The search for files joins them to the root once more.  That makes no
difference if the root is absolute, as it is if the program is started at something or
at an absolute path.  If it is started at a relative path that leads to nothing, the
root may be relative, such as two dots, and then files are looked for elsewhere.

## Main definitions

* `Effective.lookedIn` — the main directories in which files are looked for.
* `Anchored` — settings at the root, with their directories below it.

## Main results

* `Anchored.lookedIn_eq_linted`, `Anchored.sameAs_lookedIn_iff` — when they are those
  that are linted.
* `lookedIn_is_linted` — so it is for settings on a disk.
-/

namespace GroovyFindings.Settings

variable {d : Disk} {o : Options} {e : Effective}

/-- The main directories in which files are looked for. -/
def Effective.lookedIn (e : Effective) : List Path :=
  ((Scan.roots e.baseDir e.mainDirs e.testDirs).filter fun r => r.kind = .main).map (·.path)

theorem Effective.lookedIn_eq (e : Effective) : e.lookedIn = e.mainDirs.map e.baseDir.join := by
  simp [lookedIn, Scan.roots, List.filter_map, Function.comp_def]

/-- The settings in effect are at the root, and their main directories below it. -/
structure Anchored (d : Disk) (o : Options) (e : Effective) : Prop where
  root : e.baseDir = projectRoot d (startPath o)
  below : ∀ dir ∈ e.mainDirs, ∃ name, dir = e.baseDir.child name

theorem anchored_of_resolve (h : resolve d o = .ok e) : Anchored d o e := by
  obtain ⟨written, -, rfl⟩ := exists_of_resolve_eq_ok h
  refine ⟨rfl, ?_⟩
  intro dir hdir
  obtain ⟨name, -, rfl⟩ := List.mem_map.1 hdir
  exact ⟨name, rfl⟩

namespace Anchored

variable (h : Anchored d o e)

include h

theorem lookedIn_eq_linted (rooted : e.baseDir.isAbsolute = true ∨ e.baseDir.chars = []) :
    e.lookedIn = e.plan.request.sourceDirs := by
  rw [Effective.lookedIn_eq]
  refine (List.map_congr_left ?_).trans (List.map_id _)
  intro dir hdir
  obtain ⟨name, rfl⟩ := h.below dir hdir
  exact Path.join_join_self rooted

theorem sameAs_lookedIn_iff : List.Forall₂ Path.SameAs e.lookedIn e.plan.request.sourceDirs ↔
    e.baseDir.isAbsolute = true ∨ e.baseDir.undotted = [] ∨
      ∀ dir ∈ e.mainDirs, dir.isAbsolute = true := by
  have each : ∀ dir ∈ e.mainDirs, (e.baseDir.join dir).SameAs dir ↔
      e.baseDir.isAbsolute = true ∨ e.baseDir.undotted = [] ∨ dir.isAbsolute = true := by
    intro dir hdir
    obtain ⟨name, rfl⟩ := h.below dir hdir
    exact Path.sameAs_join_join_iff
  have linted : e.plan.request.sourceDirs = e.mainDirs := rfl
  rw [linted, Effective.lookedIn_eq, List.forall₂_map_left_iff, List.forall₂_same]
  constructor
  · intro same
    by_cases rooted : e.baseDir.isAbsolute = true ∨ e.baseDir.undotted = []
    · exact rooted.imp_right .inl
    · refine .inr (.inr ?_)
      intro dir hdir
      obtain absolute | dots | absolute := (each dir hdir).1 (same dir hdir)
      · exact absurd (.inl absolute) rooted
      · exact absurd (.inr dots) rooted
      · exact absolute
  · intro rooted dir hdir
    exact (each dir hdir).2 (rooted.imp_right (·.imp_right fun absolute => absolute dir hdir))

end Anchored

/-- **The directories that are looked in are those that are linted**, one by one, if the
root is absolute, if it is empty or a dot, or if the directories are absolute themselves,
and not otherwise.  The root is absolute exactly if the program is started at an absolute
path, or at a path that leads to something. -/
theorem lookedIn_is_linted (settled : resolve d o = .ok e) :
    (List.Forall₂ Path.SameAs e.lookedIn e.plan.request.sourceDirs ↔
      e.baseDir.isAbsolute = true ∨ e.baseDir.undotted = [] ∨
        ∀ dir ∈ e.mainDirs, dir.isAbsolute = true) ∧
    (e.baseDir.isAbsolute = true ∨ e.baseDir.chars = [] →
      e.lookedIn = e.plan.request.sourceDirs) ∧
    (e.baseDir.isAbsolute = true ↔
      (startPath o).isAbsolute = true ∨ ∃ s, d.canonical (startPath o) = .ok s) := by
  have anchored := anchored_of_resolve settled
  refine ⟨anchored.sameAs_lookedIn_iff, anchored.lookedIn_eq_linted, ?_⟩
  rw [anchored.root]
  exact isAbsolute_projectRoot_iff

/-- The root is found by way of a link, so it is absolute. -/
theorem lookedIn_is_linted_link : ∃ e,
    resolve nestedRepository { baseDir := some "l/." } = .ok e ∧
      e.lookedIn = e.plan.request.sourceDirs ∧
      e.lookedIn = [.ofString "/p/a/src/main/groovy"] := by
  have settled := resolve_of_root (o := { baseDir := some "l/." })
    projectRoot_nestedRepository load_nestedRepository
  refine ⟨_, settled, (lookedIn_is_linted settled).2.1 (.inl rfl), ?_⟩
  rw [Effective.lookedIn_eq]
  decide

/-- A repository, and the program started below it. -/
def belowRepository : Disk where
  entries := [([['p']], .dir), ([['p'], ".git".toList], .dir), ([['p'], ['b']], .dir)]
  cwd := [['p'], ['b']]

theorem canonical_belowRepository :
    belowRepository.canonical (.ofString "../nope") = .error .missing := by
  cbv

theorem marked_belowRepository : marked belowRepository (.ofString "../nope") = false ∧
    marked belowRepository (.ofString "..") = true := by
  cbv

theorem projectRoot_belowRepository :
    projectRoot belowRepository (.ofString "../nope") = .ofString ".." := by
  have notHere : ¬ marked belowRepository (.ofString "../nope") = true := by
    simp [marked_belowRepository.1]
  have start : searchStart belowRepository (.ofString "../nope") = .ofString "../nope" := by
    rw [searchStart, canonical_belowRepository]
  have up : (Path.ofString "../nope").parent? = some (.ofString "..") := by decide
  rw [projectRoot_eq start, nearestMarked?_of_not_marked notHere, up, Option.bind_some,
    nearestMarked?_of_marked marked_belowRepository.2, Option.getD_some]

theorem load_belowRepository : load belowRepository (.ofString "..") = .ok none := by
  cbv

/-- From a start at nothing, beside the current directory, files are looked for two
directories further up, and linted one directory further up. -/
theorem not_lookedIn_is_linted_beside : ∃ e,
    resolve belowRepository { baseDir := some "../nope" } = .ok e ∧
      ¬ List.Forall₂ Path.SameAs e.lookedIn e.plan.request.sourceDirs := by
  have settled := resolve_of_root (o := { baseDir := some "../nope" })
    projectRoot_belowRepository load_belowRepository
  refine ⟨_, settled, ?_⟩
  rw [(anchored_of_resolve settled).sameAs_lookedIn_iff]
  decide

end GroovyFindings.Settings
