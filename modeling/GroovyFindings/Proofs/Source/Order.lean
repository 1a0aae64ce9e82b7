import GroovyFindings.Proofs.Source.Tracked
import Mathlib

/-!
# Which directory has a file, and where it stands

Several directories may hold one file.  The tracked files are those of the first
directory, then those of the second one that the first does not hold, and so on,
and in this form they are read here: a file is kept as the first directory that
holds it shows it, and stands where that directory stands; within a directory
the order of paths decides.  Neither the order in which a directory names its
files nor the order in which the directories are done with has a part in this.

## Main definitions

* `Holds`, `firstPlace` — a directory holds a path, and the first that does.
* `Precedes` — the order of the tracked files.
* `inPlace` — the findings of directories that were walked side by side.

## Main results

* `dropRepeats_append`, `assemble_cons` — the tracked files directory by directory.
* `track_eq_of_perm`, `inPlace_eq_of_perm` — what has no part in the order.
* `assemble_first_directory_wins` — the tracked files of any directories.
-/

namespace GroovyFindings

/-! ## The order of paths -/

namespace Path

theorem key_le_total (a b : List Nat) :
    (Text.lexLe Nat.ble a b || Text.lexLe Nat.ble b a) = true := by
  refine Text.lexLe_total (fun m n => ?_) a b
  rw [Bool.or_eq_true, Nat.ble_eq, Nat.ble_eq]
  exact Nat.le_total m n

theorem key_le_antisymm (a b : List Nat) (h : Text.lexLe Nat.ble a b = true)
    (h' : Text.lexLe Nat.ble b a = true) : a = b := by
  refine Text.lexLe_antisymm (fun m n hle hge => ?_) h h'
  exact Nat.le_antisymm (Nat.le_of_ble_eq_true hle) (Nat.le_of_ble_eq_true hge)

theorem key_le_trans (a b c : List Nat) (h : Text.lexLe Nat.ble a b = true)
    (h' : Text.lexLe Nat.ble b c = true) : Text.lexLe Nat.ble a c = true := by
  refine Text.lexLe_trans (fun l m n hlm hmn => ?_) (fun m n hle hge => ?_) h h'
  · rw [Nat.ble_eq] at hlm hmn ⊢
    exact Nat.le_trans hlm hmn
  · exact Nat.le_antisymm (Nat.le_of_ble_eq_true hle) (Nat.le_of_ble_eq_true hge)

theorem le_total (p q : Path) : (le p q || le q p) = true :=
  Text.lexLe_total key_le_total _ _

theorem le_trans (p q r : Path) (h : le p q = true) (h' : le q r = true) : le p r = true :=
  Text.lexLe_trans key_le_trans key_le_antisymm h h'

theorem Component.key_injective : Function.Injective Component.key := by
  have chars_eq : Function.Injective (List.map Char.toNat) :=
    List.map_injective_iff.2 fun _ _ => Char.toNat_inj.1
  intro c c' h
  cases c with
  | name chars =>
      cases c' with
      | name chars' => rw [chars_eq (List.cons.inj h).2]
      | root | here | up => cases h
  | root | here | up => cases c' <;> first | rfl | cases h

/-- Paths that come before one another have the same components. -/
theorem sameAs_of_le (p q : Path) (h : le p q = true) (h' : le q p = true) : p.SameAs q := by
  have keys : p.key = q.key := Text.lexLe_antisymm key_le_antisymm h h'
  exact List.map_injective_iff.2 Component.key_injective keys

end Path

namespace Scan

variable {suffixes : List String} {r : Root} {w : Root × List Path}
  {walks others : List (Root × List Path)} {f g : TrackedFile} {p : Path}

/-! ## Files without repetition -/

/-- What comes first keeps its place, and of the rest what has not come yet. -/
theorem dropRepeats_append (xs ys : List TrackedFile) :
    dropRepeats (xs ++ ys) = dropRepeats xs ++
      (dropRepeats ys).filter fun g => ∀ f ∈ xs, ¬ g.absolute.SameAs f.absolute := by
  induction xs with
  | nil => simp [dropRepeats]
  | cons x xs ih =>
      rw [List.cons_append, dropRepeats, ih, dropRepeats, List.filter_append, List.filter_filter,
        List.cons_append]
      congr 3
      funext g
      simp

theorem pairwise_dropRepeats (xs : List TrackedFile) :
    (dropRepeats xs).Pairwise fun f g => ¬ f.absolute.SameAs g.absolute := by
  induction xs with
  | nil => exact .nil
  | cons x xs ih =>
      rw [dropRepeats, List.pairwise_cons]
      refine ⟨fun g hg => ?_, ih.filter _⟩
      intro same
      exact of_decide_eq_true (List.mem_filter.1 hg).2 same.symm

theorem exists_mem_dropRepeats {xs : List TrackedFile} (hf : f ∈ xs) :
    ∃ g ∈ dropRepeats xs, g.absolute.SameAs f.absolute := by
  induction xs with
  | nil => cases hf
  | cons x xs ih =>
      rw [dropRepeats]
      obtain rfl | hf := List.mem_cons.1 hf
      · exact ⟨f, List.mem_cons_self .., rfl⟩
      · obtain ⟨g, hg, same⟩ := ih hf
        by_cases first : g.absolute.SameAs x.absolute
        · exact ⟨x, List.mem_cons_self .., first.symm.trans same⟩
        · exact ⟨g, List.mem_cons_of_mem _ (List.mem_filter.2 ⟨hg, decide_eq_true first⟩), same⟩

theorem dropRepeats_eq_self {xs : List TrackedFile}
    (distinct : xs.Pairwise fun f g => ¬ f.absolute.SameAs g.absolute) : dropRepeats xs = xs := by
  induction xs with
  | nil => rfl
  | cons x xs ih =>
      rw [List.pairwise_cons] at distinct
      rw [dropRepeats, ih distinct.2, List.filter_eq_self.2]
      intro g hg
      exact decide_eq_true fun same => distinct.1 g hg same.symm

/-! ## The files of one directory -/

/-- No two of the paths are the same. -/
def Distinct (paths : List Path) : Prop := paths.Pairwise fun p q => ¬ p.SameAs q

instance (paths : List Path) : Decidable (Distinct paths) :=
  inferInstanceAs (Decidable (paths.Pairwise fun p q => ¬ p.SameAs q))

theorem mem_track {paths : List Path} :
    f ∈ r.track suffixes paths ↔ ∃ p ∈ paths, r.file suffixes p = f := by
  rw [Root.track, List.mem_map]
  simp only [List.mem_mergeSort]

theorem pairwise_mergeSort (paths : List Path) :
    (paths.mergeSort Path.le).Pairwise fun p q => Path.le p q = true :=
  List.pairwise_mergeSort Path.le_trans Path.le_total paths

theorem Distinct.perm {ps qs : List Path} (h : Distinct ps) (perm : ps.Perm qs) : Distinct qs :=
  (perm.pairwise_iff fun hne same => hne same.symm).1 h

theorem Distinct.eq_of_sameAs {paths : List Path} {p q : Path} (h : Distinct paths)
    (hp : p ∈ paths) (hq : q ∈ paths) (same : p.SameAs q) : p = q := by
  have symmetric : Std.Symm fun p q : Path => ¬ p.SameAs q := ⟨fun _ _ hne same => hne same.symm⟩
  by_contra hne
  exact List.Pairwise.forall h hp hq hne same

/-- Distinct paths are tracked as they are, in the order of paths. -/
theorem dropRepeats_track {paths : List Path} (h : Distinct paths) :
    dropRepeats (r.track suffixes paths) = r.track suffixes paths := by
  apply dropRepeats_eq_self
  rw [Root.track, List.pairwise_map]
  exact h.perm (List.mergeSort_perm paths _).symm

/-- The order in which a directory names its files has no part in how they are
tracked. -/
theorem track_eq_of_perm {ps qs : List Path} (distinct : Distinct ps) (perm : ps.Perm qs) :
    r.track suffixes ps = r.track suffixes qs := by
  have sorted : ps.mergeSort Path.le = qs.mergeSort Path.le := by
    refine List.Perm.eq_of_pairwise ?_ (pairwise_mergeSort ps) (pairwise_mergeSort qs) ?_
    · intro p q hp hq hle hge
      rw [List.mem_mergeSort] at hp hq
      exact distinct.eq_of_sameAs hp (perm.mem_iff.2 hq) (Path.sameAs_of_le p q hle hge)
    · exact ((List.mergeSort_perm ps _).trans perm).trans (List.mergeSort_perm qs _).symm
  rw [Root.track, sorted, Root.track]

/-! ## The files of several directories -/

/-- The directory holds the path, however that is spelled. -/
def Holds (w : Root × List Path) (p : Path) : Prop := ∃ q ∈ w.2, p.SameAs q

instance (w : Root × List Path) (p : Path) : Decidable (Holds w p) :=
  inferInstanceAs (Decidable (∃ q ∈ w.2, p.SameAs q))

/-- The place of the first directory that holds the path. -/
def firstPlace (walks : List (Root × List Path)) (p : Path) : Nat :=
  walks.findIdx fun w => Holds w p

theorem firstPlace_of_holds (h : Holds w p) : firstPlace (w :: walks) p = 0 := by
  simp [firstPlace, List.findIdx_cons, h]

theorem firstPlace_of_not_holds (h : ¬ Holds w p) :
    firstPlace (w :: walks) p = firstPlace walks p + 1 := by
  simp [firstPlace, List.findIdx_cons, h]

theorem holds_of_mem_track (hf : f ∈ w.1.track suffixes w.2) :
    Holds w f.absolute ∧ f.absolute ∈ w.2 ∧ f = w.1.file suffixes f.absolute := by
  obtain ⟨p, hp, rfl⟩ := mem_track.1 hf
  exact ⟨⟨p, hp, rfl⟩, hp, rfl⟩

/-- The files of the first directory come first, and then those of the others that
it does not hold. -/
theorem assemble_cons (distinct : Distinct w.2) :
    assemble suffixes (w :: walks) = w.1.track suffixes w.2 ++
      (assemble suffixes walks).filter fun g => ¬ Holds w g.absolute := by
  rw [assemble, List.flatMap_cons, dropRepeats_append, dropRepeats_track distinct]
  refine congrArg _ (List.filter_congr fun g _ => decide_eq_decide.2 ?_)
  constructor
  · rintro apart ⟨p, hp, same⟩
    exact apart _ (mem_track.2 ⟨p, hp, rfl⟩) same
  · intro apart f hf same
    obtain ⟨p, hp, rfl⟩ := mem_track.1 hf
    exact apart ⟨p, hp, same⟩

/-- The order of tracked files: by the first directory that holds them, and by
their paths within it. -/
def Precedes (walks : List (Root × List Path)) (f g : TrackedFile) : Prop :=
  firstPlace walks f.absolute < firstPlace walks g.absolute ∨
    firstPlace walks f.absolute = firstPlace walks g.absolute ∧
      Path.le f.absolute g.absolute = true

section Assemble

variable (distinct : ∀ w ∈ walks, Distinct w.2)

include distinct

/-- A tracked file is kept as the first directory that holds it shows it. -/
theorem shown_of_mem_assemble (hf : f ∈ assemble suffixes walks) :
    ∃ w, walks[firstPlace walks f.absolute]? = some w ∧ f.absolute ∈ w.2 ∧
      f = w.1.file suffixes f.absolute := by
  induction walks with
  | nil => cases hf
  | cons w walks ih =>
      simp only [List.mem_cons, forall_eq_or_imp] at distinct
      rw [assemble_cons distinct.1] at hf
      obtain hf | hf := List.mem_append.1 hf
      · obtain ⟨holds, mem, shown⟩ := holds_of_mem_track hf
        exact ⟨w, by rw [firstPlace_of_holds holds]; rfl, mem, shown⟩
      · obtain ⟨hf, apart⟩ := List.mem_filter.1 hf
        obtain ⟨v, hv, mem, shown⟩ := ih distinct.2 hf
        exact ⟨v, by rw [firstPlace_of_not_holds (of_decide_eq_true apart)]; exact hv, mem, shown⟩

theorem pairwise_precedes : (assemble suffixes walks).Pairwise (Precedes walks) := by
  induction walks with
  | nil => exact .nil
  | cons w walks ih =>
      simp only [List.mem_cons, forall_eq_or_imp] at distinct
      rw [assemble_cons distinct.1, List.pairwise_append]
      refine ⟨?_, ?_, ?_⟩
      · have sorted : (w.1.track suffixes w.2).Pairwise fun f g =>
            Path.le f.absolute g.absolute = true := by
          rw [Root.track, List.pairwise_map]
          exact pairwise_mergeSort w.2
        refine sorted.imp_of_mem fun hf hg hle => .inr ⟨?_, hle⟩
        rw [firstPlace_of_holds (holds_of_mem_track hf).1,
          firstPlace_of_holds (holds_of_mem_track hg).1]
      · refine (List.Pairwise.filter _ (ih distinct.2)).imp_of_mem fun hf hg order => ?_
        have apart := of_decide_eq_true (List.mem_filter.1 hf).2
        have apart' := of_decide_eq_true (List.mem_filter.1 hg).2
        unfold Precedes at order ⊢
        rw [firstPlace_of_not_holds apart, firstPlace_of_not_holds apart']
        exact order.imp Nat.succ_lt_succ fun ⟨same, hle⟩ => ⟨congrArg _ same, hle⟩
      · intro f hf g hg
        left
        rw [firstPlace_of_holds (holds_of_mem_track hf).1,
          firstPlace_of_not_holds (of_decide_eq_true (List.mem_filter.1 hg).2)]
        exact Nat.succ_pos _

end Assemble

/-- Files of main directories stand before files of test directories, if the
directories do. -/
theorem pairwise_kind
    (h : walks.Pairwise fun w v => w.1.kind = .test → v.1.kind = .test) :
    (assemble suffixes walks).Pairwise fun f g => f.kind = .test → g.kind = .test := by
  have kind_eq : ∀ w : Root × List Path, ∀ f ∈ w.1.track suffixes w.2, f.kind = w.1.kind := by
    intro w f hf
    obtain ⟨p, -, rfl⟩ := mem_track.1 hf
    rfl
  refine List.Pairwise.sublist (dropRepeats_sublist _) (List.pairwise_flatMap.2 ⟨?_, ?_⟩)
  · intro w _
    refine List.pairwise_of_forall_mem_list fun f hf g hg htest => ?_
    rw [kind_eq w g hg, ← kind_eq w f hf, htest]
  · refine h.imp fun {w v} later f hf g hg htest => ?_
    rw [kind_eq v g hg]
    exact later (by rw [← kind_eq w f hf, htest])

theorem pairwise_roots (base : Path) (main test : List Path) :
    (roots base main test).Pairwise fun r s => r.kind = .test → s.kind = .test := by
  rw [roots, List.pairwise_append, List.pairwise_map, List.pairwise_map]
  refine ⟨List.pairwise_of_forall fun _ _ => id, List.pairwise_of_forall fun _ _ => id, ?_⟩
  intro r _ s hs _
  obtain ⟨dir, -, rfl⟩ := List.mem_map.1 hs
  rfl

/-! ## What has no part in the order -/

/-- The same directories hold the same files, in whatever order they name them. -/
def SameFindings (walks others : List (Root × List Path)) : Prop :=
  List.Forall₂ (fun w v => v.1 = w.1 ∧ w.2.Perm v.2) walks others

theorem assemble_congr (distinct : ∀ w ∈ walks, Distinct w.2) (same : SameFindings walks others) :
    assemble suffixes others = assemble suffixes walks := by
  have tracks : (others.flatMap fun v => v.1.track suffixes v.2) =
      walks.flatMap fun w => w.1.track suffixes w.2 := by
    induction same with
    | nil => rfl
    | @cons w v walks others alike _ ih =>
        simp only [List.mem_cons, forall_eq_or_imp] at distinct
        rw [List.flatMap_cons, List.flatMap_cons, ih distinct.2, alike.1,
          track_eq_of_perm distinct.1 alike.2]
  rw [assemble, tracks, assemble]

/-- The order of findings by the places of their directories. -/
def byPlace (a b : (Root × List Path) × Nat) : Bool := a.2 ≤ b.2

/-- The findings of directories that were walked side by side, each with the place
of its directory, put back in the order of the directories. -/
def inPlace (finished : List ((Root × List Path) × Nat)) : List (Root × List Path) :=
  (finished.mergeSort byPlace).map Prod.fst

/-- The order in which the directories are done with has no part in their order. -/
theorem inPlace_eq_of_perm {finished : List ((Root × List Path) × Nat)}
    (perm : finished.Perm walks.zipIdx) : inPlace finished = walks := by
  have places : walks.zipIdx.Pairwise fun a b => a.2 < b.2 := by
    rw [← List.pairwise_map, List.zipIdx_map_snd]
    exact List.pairwise_lt_range' 1
  have sorted : finished.mergeSort byPlace = walks.zipIdx := by
    refine List.Perm.eq_of_pairwise ?_ (List.pairwise_mergeSort ?_ ?_ finished)
      (places.imp fun h => decide_eq_true (Nat.le_of_lt h))
      ((List.mergeSort_perm finished byPlace).trans perm)
    · intro a b ha hb hle hge
      have place : a.2 = b.2 := Nat.le_antisymm (of_decide_eq_true hle) (of_decide_eq_true hge)
      have found := List.mem_zipIdx_iff_getElem?.1 (perm.mem_iff.1 (List.mem_mergeSort.1 ha))
      rw [place, List.mem_zipIdx_iff_getElem?.1 hb, Option.some.injEq] at found
      exact Prod.ext found.symm place
    · intro a b c hab hbc
      exact decide_eq_true (Nat.le_trans (of_decide_eq_true hab) (of_decide_eq_true hbc))
    · intro a b
      simpa [byPlace] using Nat.le_total a.2 b.2
  rw [inPlace, sorted, List.zipIdx_map_fst]

/-! ## The tracked files -/

/-- The files are tracked from the walks through the directories, each as the
first directory that holds it shows it. -/
structure TrackedFrom (suffixes : List String) (walks : List (Root × List Path))
    (files : List TrackedFile) : Prop where
  /-- No file is tracked twice. -/
  apart : files.Pairwise fun f g => ¬ f.absolute.SameAs g.absolute
  /-- Every file that a directory holds is tracked. -/
  complete : ∀ w ∈ walks, ∀ p ∈ w.2, ∃ f ∈ files, f.absolute.SameAs p
  /-- It is kept as the first directory that holds it shows it. -/
  shown : ∀ f ∈ files, ∃ w, walks[firstPlace walks f.absolute]? = some w ∧
    f.absolute ∈ w.2 ∧ f = w.1.file suffixes f.absolute
  /-- It stands where that directory stands, and there by its path. -/
  ordered : files.Pairwise (Precedes walks)
  /-- Main sources stand before test sources. -/
  mainFirst : files.Pairwise fun f g => f.kind = .test → g.kind = .test

/-- The files of a disk are those of the walks through it. -/
theorem scan_eq_assemble {d : Disk} {base : Path} {main test : List Path}
    (looked : walks.map Prod.fst = roots base main test)
    (walked : ∀ w ∈ walks, w.1.walk d = .ok w.2) :
    scan d base main test suffixes = .ok (assemble suffixes walks) := by
  have found : (walks.map Prod.fst).mapM (fun r => (r.walk d).map fun paths => (r, paths)) =
      .ok walks := by
    clear looked
    induction walks with
    | nil => rfl
    | cons w walks ih =>
        simp only [List.mem_cons, forall_eq_or_imp] at walked
        rw [List.map_cons, List.mapM_cons, walked.1, ih walked.2]
        rfl
  rw [scan, ← looked, found]
  rfl

/-- **The first directory that holds a file has it.**  Main and test directories
are walked, each of which holds some distinct files.  The tracked files are those
that some directory holds, each once, as the first one shows it, in the order of
the directories and then of the paths.  They are the same in whatever order the
directories name their files and are done with. -/
theorem assemble_first_directory_wins {base : Path} {main test : List Path}
    (looked : walks.map Prod.fst = roots base main test)
    (distinct : ∀ w ∈ walks, Distinct w.2) :
    (∀ d, (∀ w ∈ walks, w.1.walk d = .ok w.2) →
      scan d base main test suffixes = .ok (assemble suffixes walks)) ∧
    TrackedFrom suffixes walks (assemble suffixes walks) ∧
    ∀ others finished, SameFindings walks others → finished.Perm others.zipIdx →
      assemble suffixes (inPlace finished) = assemble suffixes walks := by
  refine ⟨fun d => scan_eq_assemble looked, ⟨?_, ?_, ?_, ?_, ?_⟩, ?_⟩
  · exact pairwise_dropRepeats _
  · intro w hw p hp
    have tracked : w.1.file suffixes p ∈ walks.flatMap fun w => w.1.track suffixes w.2 :=
      List.mem_flatMap.2 ⟨w, hw, mem_track.2 ⟨p, hp, rfl⟩⟩
    exact exists_mem_dropRepeats tracked
  · exact fun f => shown_of_mem_assemble distinct
  · exact pairwise_precedes distinct
  · have kinds := pairwise_roots base main test
    rw [← looked, List.pairwise_map] at kinds
    exact pairwise_kind kinds
  · intro others finished same perm
    rw [inPlace_eq_of_perm perm, assemble_congr distinct same]

/-- A directory, one inside of it, and that one again for tests. -/
def overlappingWalks : List (Root × List Path) := [
  (⟨.ofString "/p/a", .main⟩, [.ofString "/p/a/b/Y.groovy", .ofString "/p/a/b.groovy"]),
  (⟨.ofString "/p/a/b", .main⟩, [.ofString "/p/a/b/Y.groovy"]),
  (⟨.ofString "/p/a//b", .test⟩, [.ofString "/p/a//b/Y.groovy", .ofString "/p/a//b/Z.groovy"])]

/-- The outer directory has the file that all three hold. -/
theorem assemble_first_directory_wins_overlapping :
    assemble [".groovy"] overlappingWalks =
      [⟨"b/Y.groovy", .ofString "/p/a/b/Y.groovy", some "grvy", .main⟩,
        ⟨"b.groovy", .ofString "/p/a/b.groovy", some "grvy", .main⟩,
        ⟨"Z.groovy", .ofString "/p/a//b/Z.groovy", some "grvy", .test⟩] ∧
    TrackedFrom [".groovy"] overlappingWalks (assemble [".groovy"] overlappingWalks) ∧
    assemble [".groovy"] (inPlace overlappingWalks.zipIdx.reverse) =
      assemble [".groovy"] overlappingWalks := by
  have wins := @assemble_first_directory_wins [".groovy"] overlappingWalks (.ofString "/p")
    [.ofString "a", .ofString "a/b"] [.ofString "a//b"] (by decide +kernel) (by decide +kernel)
  refine ⟨by cbv, wins.2.1, wins.2.2 overlappingWalks _ ?_ (List.reverse_perm _)⟩
  exact List.forall₂_same.2 fun w _ => ⟨rfl, .refl _⟩

end Scan

end GroovyFindings
