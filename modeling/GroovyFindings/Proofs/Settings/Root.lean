import Mathlib
import GroovyFindings.Proofs.Disk.Canonical
import GroovyFindings.Settings.File

/-!
# The nearest root

From where the program is started the search for the root goes upward, one directory
after the other.  It comes to the nearest one that holds a settings file or a
repository, and comes back to where it began if there is none.  Both are canonical
paths, so a search that begins there goes nowhere.  A repository hides the settings
files above it: at the root, there may be no settings file.

## Main definitions

* `Marked` — a place that holds a settings file or a repository.
* `Nearest` — the nearest of a place and those above it.
* `ReadFrom` — the settings in a settings file.

## Main results

* `nearestMarked?_pathOf` — where the search comes to.
* `searchStart_pathOf` — where it begins when it begins at a canonical path.
* `load_of_first`, `load_eq_none_iff` — which settings file is read.
* `projectRoot_is_nearest` — the root of the project and the settings there.
-/

namespace GroovyFindings.Settings

open Disk (Reached pathOf)

variable {d : Disk} {place : Place}

/-! ## The search -/

/-- Something that makes a directory a root is there. -/
def Marked (d : Disk) (place : Place) : Prop :=
  ∃ name ∈ markers, d.present ((pathOf place).child name) = true

/-- The nearest of a place and those above it at which something holds. -/
structure Nearest (p : Place → Prop) (place nearest : Place) : Prop where
  above : nearest <+: place
  holds : p nearest
  not_nearer : ∀ nearer, nearest <+: nearer → nearer <+: place → p nearer → nearer = nearest

namespace Nearest

variable {p : Place → Prop} {nearest : Place} {name : List Char}

theorem self (here : p place) : Nearest p place place where
  above := List.prefix_rfl
  holds := here
  not_nearer _ above below _ := below.eq_of_length_le above.length_le

/-- What is nearest to a directory is nearest to its entries, but for those at which
it holds. -/
theorem entry (h : Nearest p place nearest) (notHere : ¬ p (place ++ [name])) :
    Nearest p (place ++ [name]) nearest where
  above := h.above.trans (List.prefix_append ..)
  holds := h.holds
  not_nearer nearer above below here := by
    obtain rfl | below := List.prefix_concat_iff.1 below
    · exact absurd here notHere
    · exact h.not_nearer nearer above below here

end Nearest

theorem marked_pathOf : marked d (pathOf place) = true ↔ Marked d place := List.any_eq_true

theorem nearestMarked?_of_marked {p : Path} (here : marked d p = true) :
    nearestMarked? d p = some p := by
  rw [nearestMarked?, if_pos here]

theorem nearestMarked?_of_not_marked {p : Path} (notHere : ¬ marked d p = true) :
    nearestMarked? d p = p.parent?.bind (nearestMarked? d) := by
  rw [nearestMarked?, if_neg notHere]
  split
  · next up =>
    rw [up]
    rfl
  · next up =>
    rw [up]
    rfl

/-- The search comes to the nearest marked place, if there is one. -/
theorem nearestMarked?_pathOf (names : ∀ x ∈ place, Path.isSilent x = false ∧ '/' ∉ x) :
    (∃ root, Nearest (Marked d) place root ∧
      nearestMarked? d (pathOf place) = some (pathOf root)) ∨
    (∀ above, above <+: place → ¬ Marked d above) ∧ nearestMarked? d (pathOf place) = none := by
  induction place using List.reverseRecOn with
  | nil =>
      by_cases here : Marked d []
      · exact .inl ⟨[], .self here, nearestMarked?_of_marked (marked_pathOf.2 here)⟩
      · refine .inr ⟨fun above starts => List.prefix_nil.1 starts ▸ here, ?_⟩
        rw [nearestMarked?_of_not_marked fun h => here (marked_pathOf.1 h),
          Disk.parent?_pathOf_nil]
        rfl
  | append_singleton dir name ih =>
      by_cases here : Marked d (dir ++ [name])
      · exact .inl ⟨_, .self here, nearestMarked?_of_marked (marked_pathOf.2 here)⟩
      have search : nearestMarked? d (pathOf (dir ++ [name])) = nearestMarked? d (pathOf dir) := by
        rw [nearestMarked?_of_not_marked fun h => here (marked_pathOf.1 h),
          Disk.parent?_pathOf names]
        rfl
      rw [search]
      obtain ⟨root, nearest, found⟩ | ⟨unmarked, found⟩ :=
        ih fun x hx => names x (List.mem_append_left _ hx)
      · exact .inl ⟨root, nearest.entry here, found⟩
      · refine .inr ⟨?_, found⟩
        intro above starts
        obtain rfl | starts := List.prefix_concat_iff.1 starts
        · exact here
        · exact unmarked above starts

/-! ## Where the search begins -/

/-- A search from a canonical path begins there, also if the path is too long to be
followed. -/
theorem searchStart_pathOf {node : Disk.Node} (reached : Reached d place node)
    (noLink : ∀ target, node ≠ .link target) : searchStart d (pathOf place) = pathOf place := by
  unfold searchStart
  split
  · next canonical => exact reached.eq_of_canonical noLink canonical
  · rfl

theorem projectRoot_eq {start s : Path} (start_eq : searchStart d start = s) :
    projectRoot d start = (nearestMarked? d s).getD s := by
  rw [projectRoot, start_eq]

theorem searchStart_of_canonical {start s : Path} (canonical : d.canonical start = .ok s) :
    searchStart d start = s := by
  rw [searchStart, canonical]

/-- Going upward, a path stays absolute or relative. -/
theorem isAbsolute_of_nearestMarked? {p root : Path} (h : nearestMarked? d p = some root) :
    root.isAbsolute = p.isAbsolute := by
  fun_induction nearestMarked? d p with
  | case1 =>
      cases h
      rfl
  | case2 p _ above up ih => rw [ih h, Path.isAbsolute_of_parent? up]
  | case3 => cases h

/-- A search that begins at something, or at an absolute path, leads to an absolute
path, and no other one does. -/
theorem isAbsolute_projectRoot_iff {start : Path} : (projectRoot d start).isAbsolute = true ↔
    start.isAbsolute = true ∨ ∃ s, d.canonical start = .ok s := by
  have same : (projectRoot d start).isAbsolute = (searchStart d start).isAbsolute := by
    rw [projectRoot_eq rfl]
    cases found : nearestMarked? d (searchStart d start) with
    | none => rfl
    | some root => exact isAbsolute_of_nearestMarked? found
  rw [same]
  cases canonical : d.canonical start with
  | error f => simp [searchStart, canonical]
  | ok s =>
      obtain ⟨place, node, -, rfl⟩ := Disk.canonical_eq_ok_iff.1 canonical
      simp [searchStart_of_canonical canonical, pathOf, Path.isAbsolute]

/-! ## The settings at the root -/

section Load

variable {root path : Path} {name : String}

/-- What is read from the settings file of that name: the settings that its text says,
or an error about it.  The name tells in which of the two formats the text is. -/
inductive ReadFrom (d : Disk) (path : Path) (name : String) : Except Error Written → Prop
  | unreadable {fault : Disk.Fault} (failed : d.readText path = .error fault) :
      ReadFrom d path name (.error (.unreadable path fault))
  | toml {text : List Char} (contents : d.readText path = .ok text)
      (isToml : name = "narcbridge.toml") :
      ReadFrom d path name ((Written.ofToml text).mapError (.toml path))
  | yaml {text : List Char} (contents : d.readText path = .ok text)
      (notToml : name ≠ "narcbridge.toml") :
      ReadFrom d path name ((Written.ofYaml text).mapError (.yaml path))

theorem readFrom_loadWith (d : Disk) (path : Path) (name : String) :
    ReadFrom d path name (loadWith d path (reader path name)) := by
  unfold loadWith
  split
  · next text contents =>
    unfold reader
    split
    · next isToml => exact .toml contents isToml
    · next notToml => exact .yaml contents notToml
  · next fault failed => exact .unreadable failed

/-- The first settings file that is there is read. -/
theorem load_of_first {before after : List String}
    (names : settingsNames = before ++ name :: after)
    (absent : ∀ x ∈ before, d.present (root.child x) = false)
    (there : d.present (root.child name) = true) :
    ∃ settings, ReadFrom d (root.child name) name settings ∧ load d root = settings.map some := by
  have first : settingsNames.find? (fun name => d.present (root.child name)) = some name := by
    rw [List.find?_eq_some_iff_append]
    exact ⟨there, before, after, names, fun x hx => by simp [absent x hx]⟩
  exact ⟨_, readFrom_loadWith d (root.child name) name, by rw [load, first]⟩

theorem load_eq_none_iff :
    load d root = .ok none ↔ ∀ name ∈ settingsNames, d.present (root.child name) = false := by
  have nothing : settingsNames.find? (fun name => d.present (root.child name)) = none ↔
      ∀ name ∈ settingsNames, d.present (root.child name) = false := by
    rw [List.find?_eq_none]
    simp only [Bool.not_eq_true]
  rw [← nothing, load]
  split
  · next name found =>
    rw [found]
    cases loadWith d (root.child name) (reader (root.child name) name) <;> simp [Except.map]
  · next absent => simp [absent]

/-- The settings at a root are those that the first settings file there says, if there
is one. -/
structure LoadsFirst (d : Disk) (root : Path) : Prop where
  first : ∀ before name after, settingsNames = before ++ name :: after →
    (∀ x ∈ before, d.present (root.child x) = false) → d.present (root.child name) = true →
      ∃ settings, ReadFrom d (root.child name) name settings ∧ load d root = settings.map some
  absent : load d root = .ok none ↔ ∀ name ∈ settingsNames, d.present (root.child name) = false

theorem loadsFirst (d : Disk) (root : Path) : LoadsFirst d root where
  first _ _ _ := load_of_first
  absent := load_eq_none_iff

end Load

/-! ## The root of a project -/

/-- The root is a place that is reached, and no link. -/
theorem exists_reached_projectRoot {start s : Path} (cwd : Reached d d.cwd .dir)
    (canonical : d.canonical start = .ok s) : ∃ root node, projectRoot d start = pathOf root ∧
      Reached d root node ∧ ∀ target, node ≠ .link target := by
  obtain ⟨place, node, rfl, reached, noLink⟩ := Disk.exists_reached cwd canonical
  rw [projectRoot_eq (searchStart_of_canonical canonical)]
  obtain ⟨root, nearest, found⟩ | ⟨-, found⟩ := nearestMarked?_pathOf reached.heard
  · rw [found, Option.getD_some]
    obtain rfl | above := reached.above nearest.above
    · exact ⟨root, node, rfl, reached, noLink⟩
    · exact ⟨root, .dir, rfl, above, by simp⟩
  · rw [found, Option.getD_none]
    exact ⟨place, node, rfl, reached, noLink⟩

/-- **The root of a project is the nearest marked directory.**  The search begins at a
path that leads to something.  It ends at the nearest of the places upward from there
that hold a settings file or a repository, or where it has begun if there is none; a
search that begins at the root ends there as well.  The settings are those of the first
settings file at the root, and there are none exactly if there is no settings file. -/
theorem projectRoot_is_nearest {start s : Path} (cwd : Reached d d.cwd .dir)
    (canonical : d.canonical start = .ok s) :
    let root := projectRoot d start
    (∃ place node, s = pathOf place ∧ Reached d place node ∧
      ((∃ nearest, Nearest (Marked d) place nearest ∧ root = pathOf nearest) ∨
        (∀ above, above <+: place → ¬ Marked d above) ∧ root = s)) ∧
    projectRoot d root = root ∧ LoadsFirst d root := by
  intro root
  have stays : searchStart d root = root := by
    obtain ⟨place, node, isRoot, reached, noLink⟩ := exists_reached_projectRoot cwd canonical
    rw [show root = pathOf place from isRoot]
    exact searchStart_pathOf reached noLink
  obtain ⟨place, node, rfl, reached, -⟩ := Disk.exists_reached cwd canonical
  have begun : root = (nearestMarked? d (pathOf place)).getD (pathOf place) :=
    projectRoot_eq (searchStart_of_canonical canonical)
  obtain ⟨nearest, isNearest, found⟩ | ⟨unmarked, found⟩ := nearestMarked?_pathOf reached.heard
  · have isRoot : root = pathOf nearest := by rw [begun, found, Option.getD_some]
    refine ⟨⟨place, node, rfl, reached, .inl ⟨nearest, isNearest, isRoot⟩⟩, ?_, loadsFirst d root⟩
    rw [projectRoot_eq stays, isRoot,
      nearestMarked?_of_marked (marked_pathOf.2 isNearest.holds), Option.getD_some]
  · have isRoot : root = pathOf place := by rw [begun, found, Option.getD_none]
    refine ⟨⟨place, node, rfl, reached, .inr ⟨unmarked, isRoot⟩⟩, ?_, loadsFirst d root⟩
    rw [projectRoot_eq stays, isRoot, found, Option.getD_none]

/-- A settings file, and below it a repository in which the program is started, by
way of a link. -/
def nestedRepository : Disk where
  entries := [([['p']], .dir), ([['p'], "narcbridge.yaml".toList], .file []),
    ([['p'], ['a']], .dir), ([['p'], ['a'], ".git".toList], .dir),
    ([['p'], ['a'], ['b']], .dir), ([['l']], .link (.ofString "p/a/b"))]
  cwd := []

theorem canonical_nestedRepository :
    nestedRepository.canonical (.ofString "l/.") = .ok (pathOf [['p'], ['a'], ['b']]) := by
  cbv

theorem marked_nestedRepository : marked nestedRepository (pathOf [['p'], ['a'], ['b']]) = false ∧
    marked nestedRepository (pathOf [['p'], ['a']]) = true := by
  cbv

theorem projectRoot_nestedRepository :
    projectRoot nestedRepository (.ofString "l/.") = pathOf [['p'], ['a']] := by
  have notHere : ¬ marked nestedRepository (pathOf [['p'], ['a'], ['b']]) = true := by
    simp [marked_nestedRepository.1]
  have up : (pathOf [['p'], ['a'], ['b']]).parent? = some (pathOf [['p'], ['a']]) := by decide
  rw [projectRoot_eq (searchStart_of_canonical canonical_nestedRepository),
    nearestMarked?_of_not_marked notHere, up, Option.bind_some,
    nearestMarked?_of_marked marked_nestedRepository.2, Option.getD_some]

theorem load_nestedRepository : load nestedRepository (pathOf [['p'], ['a']]) = .ok none := by
  rw [load_eq_none_iff]
  simp only [settingsNames, List.forall_mem_cons]
  refine ⟨?_, ?_, ?_, by simp⟩ <;> cbv

/-- The repository hides the settings file above it. -/
theorem projectRoot_is_nearest_repository :
    projectRoot nestedRepository (.ofString "l/.") = pathOf [['p'], ['a']] ∧
      projectRoot nestedRepository (pathOf [['p'], ['a']]) = pathOf [['p'], ['a']] ∧
      load nestedRepository (pathOf [['p'], ['a']]) = .ok none := by
  have settled := projectRoot_is_nearest .root canonical_nestedRepository
  rw [projectRoot_nestedRepository] at settled
  exact ⟨projectRoot_nestedRepository, settled.2.1,
    settled.2.2.absent.2 (load_eq_none_iff.1 load_nestedRepository)⟩

end GroovyFindings.Settings
