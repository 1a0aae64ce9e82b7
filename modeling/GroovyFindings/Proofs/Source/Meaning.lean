import GroovyFindings.Proofs.Source.Found
import Mathlib.Data.Prod.Lex
import Mathlib.Data.String.Basic

/-!
# Which source a reported path means

There are three ways in which a reported path can mean a source.  An absolute
path may be the source's own; the path, normalized, may end one of the source's
two paths; or the source's relative path may end the reported one.  Each way
counts only where no source is meant in the one before it, and in each the
sources are ordered differently.

This file says so without the filters and the look-up that find the source.  A
source is meant if it is the first of those with the least key, and the key of a
way is its order: none for an absolute path, the length and then the text of the
relative path where the reported path is the shorter one, and the reversed
length and then the text where it is the longer one.

## Main definitions

* `EndsOnSegment` — a text ends with whole segments.
* `FirstLeast` — the first of the elements with the least key.
* `Means` — the source that a reported path means.
* `Qualifies` — a source that a path could mean if there were no others.

## Main results

* `fileFor?_eq_some_iff_means`, `fileFor?_eq_none_iff` — the source that is
  found, and when there is none.
* `fileFor?_finds_what_is_meant` — the two look-ups by a reported path.
-/

namespace GroovyFindings

/-! ## Whole segments at the end of a path -/

/-- The path is `ending`, or has it behind one of its slashes. -/
def EndsOnSegment (path ending : List Char) : Prop :=
  path = ending ∨ ∃ front, path = front ++ '/' :: ending

/-- A path ends with what stands behind whole segments. -/
theorem WholeSegments.endsOnSegment {front : List Char} (whole : WholeSegments front)
    (ending : List Char) : EndsOnSegment (front ++ ending) ending := by
  cases whole with
  | inl nothing => exact .inl (by rw [nothing, List.nil_append])
  | inr slash =>
      obtain ⟨above, rfl⟩ := List.getLast?_eq_some_iff.1 slash
      exact .inr ⟨above, by rw [List.append_assoc]; rfl⟩

theorem EndsOnSegment.suffix {path ending : List Char} (h : EndsOnSegment path ending) :
    ending <:+ path := by
  cases h with
  | inl same => exact same ▸ List.suffix_refl _
  | inr behind =>
      obtain ⟨front, rfl⟩ := behind
      exact ⟨front ++ ['/'], by rw [List.append_assoc]; rfl⟩

theorem hasPathSuffix_iff {path ending : List Char} :
    hasPathSuffix path ending = true ↔ EndsOnSegment (normalize path) ending := by
  unfold hasPathSuffix EndsOnSegment
  dsimp only
  rw [Bool.or_eq_true, beq_iff_eq]
  apply or_congr_right
  cases hstrip : Text.stripEnd? ending (normalize path) with
  | none =>
      simp only [Bool.false_eq_true, false_iff]
      rintro ⟨front, hfront⟩
      have cut : Text.stripEnd? ending (normalize path) = some (front ++ ['/']) :=
        Text.stripEnd?_eq_some_iff.2 (by rw [hfront, List.append_assoc]; rfl)
      rw [hstrip] at cut
      cases cut
  | some head =>
      have spelled := Text.stripEnd?_eq_some_iff.1 hstrip
      simp only [beq_iff_eq]
      constructor
      · intro slash
        obtain ⟨front, rfl⟩ := List.getLast?_eq_some_iff.1 slash
        exact ⟨front, by rw [spelled, List.append_assoc]; rfl⟩
      · rintro ⟨front, hfront⟩
        have same : head ++ ending = (front ++ ['/']) ++ ending := by
          rw [← spelled, hfront, List.append_assoc]
          rfl
        rw [List.append_cancel_right same]
        simp

/-! ## The first of the elements with the least key -/

section FirstLeast

variable {α K : Type} [LinearOrder K] {key : α → K} {P : α → Prop} {xs : List α} {a b : α}

/-- Of the elements with a property, the first one with the least key. -/
def FirstLeast (key : α → K) (P : α → Prop) (xs : List α) (a : α) : Prop :=
  ∃ before after, xs = before ++ a :: after ∧ P a ∧
    (∀ b ∈ before, P b → key a < key b) ∧ ∀ b ∈ after, P b → key a ≤ key b

theorem FirstLeast.mem (h : FirstLeast key P xs a) : a ∈ xs := by
  obtain ⟨before, after, rfl, -, -, -⟩ := h
  simp

theorem FirstLeast.holds (h : FirstLeast key P xs a) : P a := by
  obtain ⟨_, _, _, holds, -, -⟩ := h
  exact holds

theorem FirstLeast.least (h : FirstLeast key P xs a) (mem : b ∈ xs) (hb : P b) :
    key a ≤ key b := by
  obtain ⟨before, after, rfl, -, hbefore, hafter⟩ := h
  rw [List.mem_append, List.mem_cons] at mem
  obtain mem | rfl | mem := mem
  · exact le_of_lt (hbefore b mem hb)
  · exact le_refl _
  · exact hafter b mem hb

/-- The function that chooses agrees, when its order is that of the keys. -/
theorem firstLeast?_eq_some_iff_firstLeast {le : α → α → Bool}
    (hle : ∀ a b, le a b = true ↔ key a ≤ key b) {p : α → Bool} :
    firstLeast? le (xs.filter p) = some a ↔ FirstLeast key (fun b => p b = true) xs a := by
  have later : ∀ a b, le b a = false ↔ key a < key b := by
    intro a b
    rw [← Bool.not_eq_true, hle, not_le]
  have total : ∀ a b, le a b = false → le b a = true := by
    intro a b h
    exact (hle b a).2 (le_of_lt ((later b a).1 h))
  have trans : ∀ a b c, le a b = true → le b c = true → le a c = true := by
    intro a b c hab hbc
    exact (hle a c).2 (le_trans ((hle a b).1 hab) ((hle b c).1 hbc))
  rw [firstLeast?_filter_eq_some_iff total trans]
  simp only [later, hle]
  constructor
  · rintro ⟨passes, before, after, spelled, hbefore, hafter⟩
    exact ⟨before, after, spelled, passes, hbefore, hafter⟩
  · rintro ⟨before, after, spelled, passes, hbefore, hafter⟩
    exact ⟨passes, before, after, spelled, hbefore, hafter⟩

end FirstLeast

/-! ## The orders of sources -/

variable {files : List TrackedFile} {reported : String} {f g : TrackedFile}

/-- The order among sources that the reported path ends: fewer bytes of the
relative path first, and then the smaller text. -/
def shortFirst (f : TrackedFile) : ℕ ×ₗ String :=
  toLex (f.relative.utf8ByteSize, f.relative)

/-- The order among sources that end the reported path: more bytes of the
relative path first, and then the smaller text. -/
def longFirst (f : TrackedFile) : ℕᵒᵈ ×ₗ String :=
  toLex (OrderDual.toDual f.relative.utf8ByteSize, f.relative)

theorem shorter_iff_shortFirst (f g : TrackedFile) :
    shorter f g = true ↔ shortFirst f ≤ shortFirst g := by
  simp [shorter, shortFirst, Prod.Lex.toLex_le_toLex]

theorem longer_iff_longFirst (f g : TrackedFile) :
    longer f g = true ↔ longFirst f ≤ longFirst g := by
  simp [longer, longFirst, Prod.Lex.toLex_le_toLex]

theorem relative_eq_of_shortFirst (h : shortFirst f = shortFirst g) : f.relative = g.relative :=
  congrArg (fun key => (ofLex key).2) h

theorem relative_eq_of_longFirst (h : longFirst f = longFirst g) : f.relative = g.relative :=
  congrArg (fun key => (ofLex key).2) h

/-! ## Three ways to mean a source -/

/-- The reported path is absolute and the source's own. -/
def IsAt (reported : String) (f : TrackedFile) : Prop :=
  (Path.ofString reported).isAbsolute = true ∧ f.absolute.SameAs (.ofString reported)

/-- The reported path, normalized, ends the relative or the absolute path of the
source. -/
def EndsPathOf (reported : String) (f : TrackedFile) : Prop :=
  EndsOnSegment (normalize f.relative.toList) (normalize reported.toList) ∨
    EndsOnSegment (normalize f.absolute.chars) (normalize reported.toList)

/-- The relative path of the source, if there is one, ends the reported path.
What had been normalized is normalized once more here. -/
def EndedByPathOf (reported : String) (f : TrackedFile) : Prop :=
  f.relative ≠ "" ∧
    EndsOnSegment (normalize (normalize reported.toList)) (normalize f.relative.toList)

/-- The source that a reported path means. -/
inductive Means (files : List TrackedFile) (reported : String) : (f : TrackedFile) → Prop
  /-- The first source that the path is the absolute path of. -/
  | exact {f : TrackedFile}
      (first : FirstLeast (fun _ => ()) (IsAt reported) (groovySources files) f) :
      Means files reported f
  /-- The best of the sources that the path ends. -/
  | inner {f : TrackedFile} (elsewhere : ∀ g ∈ groovySources files, ¬ IsAt reported g)
      (nonempty : normalize reported.toList ≠ [])
      (best : FirstLeast shortFirst (EndsPathOf reported) (groovySources files) f) :
      Means files reported f
  /-- The best of the sources that end the path. -/
  | outer {f : TrackedFile} (elsewhere : ∀ g ∈ groovySources files, ¬ IsAt reported g)
      (nonempty : normalize reported.toList ≠ [])
      (noInner : ∀ g ∈ groovySources files, ¬ EndsPathOf reported g)
      (best : FirstLeast longFirst (EndedByPathOf reported) (groovySources files) f) :
      Means files reported f

/-- A source that the path could mean, were there no others. -/
def Qualifies (reported : String) (f : TrackedFile) : Prop :=
  IsAt reported f ∨
    normalize reported.toList ≠ [] ∧ (EndsPathOf reported f ∨ EndedByPathOf reported f)

/-! ## The functions that find the source -/

theorem endedBy_iff : endedBy f (normalize reported.toList) = true ↔ EndsPathOf reported f := by
  rw [endedBy, Bool.or_eq_true, hasPathSuffix_iff, hasPathSuffix_iff, EndsPathOf]

theorem endsIn_iff : endsIn f (normalize reported.toList) = true ↔ EndedByPathOf reported f := by
  simp [endsIn, hasPathSuffix_iff, EndedByPathOf]

theorem exactMatch?_eq_some_iff {sources : List TrackedFile} :
    exactMatch? sources (.ofString reported) = some f ↔
      FirstLeast (fun _ => ()) (IsAt reported) sources f := by
  unfold exactMatch? FirstLeast
  split
  · next absolute =>
    simp only [List.find?_eq_some_iff_append, decide_eq_true_eq, IsAt, absolute, true_and,
      lt_self_iff_false, le_refl, implies_true, and_true, Bool.not_eq_true', decide_eq_false_iff_not]
    constructor
    · rintro ⟨same, before, after, spelled, others⟩
      exact ⟨before, after, spelled, same, others⟩
    · rintro ⟨before, after, spelled, same, others⟩
      exact ⟨same, before, after, spelled, others⟩
  · next relative =>
    constructor
    · intro h
      cases h
    · rintro ⟨_, _, _, ⟨absolute, -⟩, -, -⟩
      exact absurd absolute relative

theorem exactMatch?_eq_none_iff {sources : List TrackedFile} :
    exactMatch? sources (.ofString reported) = none ↔ ∀ g ∈ sources, ¬ IsAt reported g := by
  unfold exactMatch?
  split
  · next absolute => simp [IsAt, absolute]
  · next relative => simp [IsAt, relative]

theorem firstLeast?_endedBy_eq_some_iff {sources : List TrackedFile} :
    firstLeast? shorter (sources.filter (endedBy · (normalize reported.toList))) = some f ↔
      FirstLeast shortFirst (EndsPathOf reported) sources f := by
  rw [firstLeast?_eq_some_iff_firstLeast shorter_iff_shortFirst]
  simp only [endedBy_iff, FirstLeast]

theorem firstLeast?_endsIn_eq_some_iff {sources : List TrackedFile} :
    firstLeast? longer (sources.filter (endsIn · (normalize reported.toList))) = some f ↔
      FirstLeast longFirst (EndedByPathOf reported) sources f := by
  rw [firstLeast?_eq_some_iff_firstLeast longer_iff_longFirst]
  simp only [endsIn_iff, FirstLeast]

theorem firstLeast?_endedBy_eq_none_iff {sources : List TrackedFile} :
    firstLeast? shorter (sources.filter (endedBy · (normalize reported.toList))) = none ↔
      ∀ g ∈ sources, ¬ EndsPathOf reported g := by
  simp only [firstLeast?_eq_none_iff, List.filter_eq_nil_iff, endedBy_iff]

theorem firstLeast?_endsIn_eq_none_iff {sources : List TrackedFile} :
    firstLeast? longer (sources.filter (endsIn · (normalize reported.toList))) = none ↔
      ∀ g ∈ sources, ¬ EndedByPathOf reported g := by
  simp only [firstLeast?_eq_none_iff, List.filter_eq_nil_iff, endsIn_iff]

/-- A path that is no source's own is looked up by its last segments. -/
theorem fileFor?_eq_matchSuffix? (elsewhere : ∀ g ∈ groovySources files, ¬ IsAt reported g) :
    fileFor? files reported = matchSuffix? (groovySources files) (normalize reported.toList) := by
  unfold fileFor?
  dsimp only
  rw [exactMatch?_eq_none_iff.2 elsewhere]

theorem matchSuffix?_eq_some_iff :
    matchSuffix? (groovySources files) (normalize reported.toList) = some f ↔
      normalize reported.toList ≠ [] ∧
        (FirstLeast shortFirst (EndsPathOf reported) (groovySources files) f ∨
          (∀ g ∈ groovySources files, ¬ EndsPathOf reported g) ∧
            FirstLeast longFirst (EndedByPathOf reported) (groovySources files) f) := by
  unfold matchSuffix?
  rw [← firstLeast?_endedBy_eq_some_iff, ← firstLeast?_endedBy_eq_none_iff,
    ← firstLeast?_endsIn_eq_some_iff]
  split
  · next empty => simp_all
  · next nonempty =>
    rw [and_iff_right (by simpa using nonempty)]
    split
    · next g hg => simp [hg]
    · next noInner => simp [noInner]

theorem matchSuffix?_eq_none_iff :
    matchSuffix? (groovySources files) (normalize reported.toList) = none ↔
      ∀ g ∈ groovySources files, ¬ (normalize reported.toList ≠ [] ∧
        (EndsPathOf reported g ∨ EndedByPathOf reported g)) := by
  unfold matchSuffix?
  split
  · next empty => simp_all
  · next nonempty =>
    have nonempty' : normalize reported.toList ≠ [] := by simpa using nonempty
    simp only [nonempty', ne_eq, not_false_eq_true, true_and, not_or]
    rw [forall₂_and, ← firstLeast?_endedBy_eq_none_iff, ← firstLeast?_endsIn_eq_none_iff]
    split
    · next g hg => simp [hg]
    · next noInner => simp [noInner]

/-- The source that is found is the one that is meant. -/
theorem fileFor?_eq_some_iff_means : fileFor? files reported = some f ↔ Means files reported f := by
  by_cases elsewhere : ∀ g ∈ groovySources files, ¬ IsAt reported g
  · rw [fileFor?_eq_matchSuffix? elsewhere, matchSuffix?_eq_some_iff]
    constructor
    · rintro ⟨nonempty, best | ⟨noInner, best⟩⟩
      · exact .inner elsewhere nonempty best
      · exact .outer elsewhere nonempty noInner best
    · intro h
      cases h with
      | exact first => exact absurd first.holds (elsewhere f first.mem)
      | inner _ nonempty best => exact ⟨nonempty, .inl best⟩
      | outer _ nonempty noInner best => exact ⟨nonempty, .inr ⟨noInner, best⟩⟩
  · obtain ⟨g, hg⟩ : ∃ g, exactMatch? (groovySources files) (.ofString reported) = some g := by
      rw [← exactMatch?_eq_none_iff] at elsewhere
      exact Option.ne_none_iff_exists'.1 elsewhere
    have found : fileFor? files reported = some g := by
      unfold fileFor?
      dsimp only
      rw [hg]
    rw [found]
    constructor
    · intro h
      obtain rfl := Option.some.inj h
      exact .exact (exactMatch?_eq_some_iff.1 hg)
    · intro h
      cases h with
      | exact first => rw [← hg, exactMatch?_eq_some_iff.2 first]
      | inner elsewhere' _ _ | outer elsewhere' _ _ _ => exact absurd elsewhere' elsewhere

/-- No source is found just if none qualifies. -/
theorem fileFor?_eq_none_iff :
    fileFor? files reported = none ↔ ∀ f ∈ groovySources files, ¬ Qualifies reported f := by
  simp only [Qualifies, not_or (p := IsAt reported _)]
  rw [forall₂_and, ← exactMatch?_eq_none_iff, ← matchSuffix?_eq_none_iff]
  unfold fileFor?
  dsimp only
  split
  · next g hg => simp [hg]
  · next elsewhere => simp [elsewhere]

/-- **A reported path means one source at most, and that one is found.**  It is
the first source that an absolute path is the own path of; or else the first of
the least, by the length of the relative path and then its text, among the
sources that the normalized path ends; or else, with the length reversed, among
those that end the path.  None is found just if none qualifies, and the look-up
by the last segments alone differs for absolute paths of a source only. -/
theorem fileFor?_finds_what_is_meant (files : List TrackedFile) (reported : String) :
    (∀ f, fileFor? files reported = some f ↔ Means files reported f) ∧
    (fileFor? files reported = none ↔ ∀ f ∈ groovySources files, ¬ Qualifies reported f) ∧
    ((∀ f ∈ groovySources files, ¬ IsAt reported f) →
      fileForRelative? files (some reported) = fileFor? files reported) := by
  refine ⟨fun f => fileFor?_eq_some_iff_means, fileFor?_eq_none_iff, fun elsewhere => ?_⟩
  rw [fileFor?_eq_matchSuffix? elsewhere]
  rfl

end GroovyFindings
