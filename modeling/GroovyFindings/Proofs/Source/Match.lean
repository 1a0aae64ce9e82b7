import GroovyFindings.Proofs.Text.Blank
import GroovyFindings.Source.Match

/-!
# Which of several files is meant

A reported path is normalized and then held against the ends of the files'
paths.  What is cut off before it, and what stands before an end, are whole
segments.  Among the files that a path ends the first of the best is taken; the
order of preference is linear up to files with one relative path.

## Main definitions

* `WholeSegments` — what can stand before a segment.
* `Leading` — slashes and dots, as they can stand in front of a path.
* `FirstChoice` — the file that the order of preference puts first.

## Main results

* `exists_leading_append_normalize`, `backslash_notMem_normalize`, `normalize_ne_nil`
  — what normalizing drops and leaves.
* `hasPathSuffix_of_append` — an absolute path ends with what stands behind one
  of its slashes.
* `firstLeast?_eq_some_iff`, `firstLeast?_filter_eq_some_iff` — the first of the
  least elements, and of those that pass a test.
* `fileFor?_eq_some_iff_firstChoice` — the file that a relative path means, when
  it ends some file.
-/

namespace GroovyFindings

/-! ## Whole segments -/

/-- Nothing, or a text with a slash at its end. -/
def WholeSegments (text : List Char) : Prop := text = [] ∨ text.getLast? = some '/'

theorem WholeSegments.append {xs ys : List Char} (hx : WholeSegments xs) (hy : WholeSegments ys) :
    WholeSegments (xs ++ ys) := by
  obtain rfl | hy := hy
  · rwa [List.append_nil]
  · exact .inr (by simp [hy])

/-- Slashes, and dots with a slash behind them, in any order: what can stand in
front of a path without a meaning. -/
inductive Leading : (front : List Char) → Prop
  | nil : Leading []
  | slash {front : List Char} (h : Leading front) : Leading ('/' :: front)
  | dot {front : List Char} (h : Leading front) : Leading ('.' :: '/' :: front)

theorem Leading.append {xs ys : List Char} (hx : Leading xs) (hy : Leading ys) :
    Leading (xs ++ ys) := by
  induction hx with
  | nil => exact hy
  | slash _ ih => exact .slash ih
  | dot _ ih => exact .dot ih

theorem Leading.wholeSegments {front : List Char} (h : Leading front) : WholeSegments front := by
  induction h with
  | nil => exact .inl rfl
  | slash _ ih => exact (show WholeSegments ['/'] from .inr rfl).append ih
  | dot _ ih => exact (show WholeSegments ['.', '/'] from .inr rfl).append ih

theorem leading_of_slashes {text : List Char} (h : ∀ c ∈ text, c = '/') : Leading text := by
  induction text with
  | nil => exact .nil
  | cons c text ih =>
      obtain rfl := h c List.mem_cons_self
      exact .slash (ih fun c hc => h c (List.mem_cons_of_mem _ hc))

/-- What is dropped before slashes are. -/
theorem exists_leading_append_dropDots (text : List Char) :
    ∃ front, Leading front ∧ front ++ dropDots text = text := by
  fun_induction dropDots text with
  | case1 rest ih =>
      obtain ⟨front, leading, hfront⟩ := ih
      exact ⟨'.' :: '/' :: front, .dot leading, by rw [List.cons_append, List.cons_append, hfront]⟩
  | case2 text => exact ⟨[], .nil, rfl⟩

theorem exists_slashes_append_dropWhile (text : List Char) :
    ∃ slashes, (∀ c ∈ slashes, c = '/') ∧ slashes ++ text.dropWhile (· == '/') = text := by
  refine ⟨text.takeWhile (· == '/'), fun c hc => ?_, List.takeWhile_append_dropWhile⟩
  simpa using List.all_eq_true.1 List.all_takeWhile c hc

/-- Normalizing drops nothing but what can stand in front of a path. -/
theorem exists_leading_append_normalize (path : List Char) :
    ∃ front, Leading front ∧ front ++ normalize path = Text.replaceAll '\\' '/' path := by
  obtain ⟨dots, leading, hdots⟩ := exists_leading_append_dropDots (Text.replaceAll '\\' '/' path)
  obtain ⟨slashes, hslash, hslashes⟩ :=
    exists_slashes_append_dropWhile (dropDots (Text.replaceAll '\\' '/' path))
  refine ⟨dots ++ slashes, leading.append (leading_of_slashes hslash), ?_⟩
  rw [normalize, List.append_assoc, hslashes, hdots]

/-- Normalizing cuts whole segments off at the beginning. -/
theorem exists_cut_append_normalize (path : List Char) :
    ∃ cut, cut ++ normalize path = Text.replaceAll '\\' '/' path ∧ WholeSegments cut := by
  obtain ⟨front, leading, hfront⟩ := exists_leading_append_normalize path
  exact ⟨front, hfront, leading.wholeSegments⟩

theorem head?_normalize_ne (path : List Char) : (normalize path).head? ≠ some '/' := by
  have first := List.head?_dropWhile_not (· == '/') (dropDots (Text.replaceAll '\\' '/' path))
  intro h
  rw [normalize] at h
  rw [h] at first
  simp at first

/-- A path that does not end with a slash is not cut down to nothing. -/
theorem normalize_ne_nil {path : List Char} {c : Char}
    (last : (Text.replaceAll '\\' '/' path).getLast? = some c) (hc : c ≠ '/') :
    normalize path ≠ [] := by
  intro h
  obtain ⟨cut, hcut, whole⟩ := exists_cut_append_normalize path
  rw [h, List.append_nil] at hcut
  obtain rfl | slash := whole
  · simp [← hcut] at last
  · rw [hcut, last, Option.some.injEq] at slash
    exact hc slash

theorem replaceAll_append (xs ys : List Char) :
    Text.replaceAll '\\' '/' (xs ++ ys) =
      Text.replaceAll '\\' '/' xs ++ Text.replaceAll '\\' '/' ys := by
  simp [Text.replaceAll]

theorem backslash_notMem_replaceAll (path : List Char) :
    '\\' ∉ Text.replaceAll '\\' '/' path := by
  intro h
  obtain ⟨c, -, hc⟩ := List.mem_map.1 h
  by_cases backslash : c = '\\'
  · simp [backslash] at hc
  · rw [if_neg backslash] at hc
    exact backslash hc

/-- A path without backslashes is not changed by exchanging them. -/
theorem replaceAll_eq_self {path : List Char} (h : '\\' ∉ path) :
    Text.replaceAll '\\' '/' path = path := by
  have stays : ∀ c ∈ path, (if c = '\\' then '/' else c) = c := by
    intro c hc
    have : c ≠ '\\' := fun backslash => h (backslash ▸ hc)
    rw [if_neg this]
  rw [Text.replaceAll, List.map_congr_left stays, List.map_id']

/-- Normalizing leaves no backslash. -/
theorem backslash_notMem_normalize (path : List Char) : '\\' ∉ normalize path := by
  obtain ⟨front, -, hfront⟩ := exists_leading_append_normalize path
  intro h
  exact backslash_notMem_replaceAll path (hfront ▸ List.mem_append_right front h)

theorem normalize_of_slash {path : List Char} (h : path.head? = some '/') :
    normalize path = (Text.replaceAll '\\' '/' path).dropWhile (· == '/') := by
  obtain ⟨rest, rfl⟩ := List.head?_eq_some_iff.1 h
  rfl

/-! ## Ends of paths -/

/-- An absolute path ends with what stands behind one of its slashes. -/
theorem hasPathSuffix_of_append {path before behind : List Char}
    (spelled : path = before ++ '/' :: behind) (absolute : path.head? = some '/') :
    hasPathSuffix path (normalize behind) = true := by
  obtain ⟨cut, hcut, whole⟩ := exists_cut_append_normalize behind
  obtain ⟨front, hfront, slash⟩ : ∃ front, Text.replaceAll '\\' '/' path = front ++ normalize behind ∧
      front.getLast? = some '/' := by
    refine ⟨Text.replaceAll '\\' '/' before ++ '/' :: cut, ?_, ?_⟩
    · rw [spelled, replaceAll_append, List.append_assoc, List.cons_append, hcut]
      rfl
    · obtain rfl | whole := whole <;> simp_all [List.getLast?_cons]
  have noSlash : (normalize behind).dropWhile (· == '/') = normalize behind := by
    apply Text.dropWhile_eq_self
    rintro c hc
    simpa using fun slash : c = '/' => head?_normalize_ne behind (slash ▸ hc)
  unfold hasPathSuffix
  rw [normalize_of_slash absolute, hfront, List.dropWhile_append]
  split
  · rw [noSlash]
    simp
  · next left =>
    have slash' : (front.dropWhile (· == '/')).getLast? = some '/' := by
      have nonempty : front.dropWhile (· == '/') ≠ [] := by simpa using left
      have last : (front.takeWhile (· == '/') ++ front.dropWhile (· == '/')).getLast? = some '/' := by
        rw [List.takeWhile_append_dropWhile, slash]
      rw [List.getLast?_append, List.getLast?_eq_some_getLast nonempty, Option.some_or] at last
      rw [List.getLast?_eq_some_getLast nonempty, last]
    have stripped : Text.stripEnd? (normalize behind)
        (front.dropWhile (· == '/') ++ normalize behind) = some (front.dropWhile (· == '/')) :=
      Text.stripEnd?_eq_some_iff.2 rfl
    simp [stripped, slash']

/-! ## The first of the least -/

section FirstLeast

variable {α : Type} {le : α → α → Bool} {xs before after : List α} {a : α}

theorem firstLeast?_eq_none_iff : firstLeast? le xs = none ↔ xs = [] := by
  cases xs with
  | nil => simp [firstLeast?]
  | cons x xs =>
      rw [firstLeast?]
      split <;> simp

theorem exists_firstLeast? (le : α → α → Bool) (h : xs ≠ []) : ∃ a, firstLeast? le xs = some a := by
  cases hx : firstLeast? le xs with
  | none => exact absurd (firstLeast?_eq_none_iff.1 hx) h
  | some a => exact ⟨a, rfl⟩

theorem mem_of_firstLeast?_eq_some (h : firstLeast? le xs = some a) : a ∈ xs := by
  induction xs generalizing a with
  | nil => cases h
  | cons x xs ih =>
      rw [firstLeast?] at h
      split at h
      · cases h
        simp
      · next b hb =>
        cases h
        split
        · simp
        · exact List.mem_cons_of_mem _ (ih hb)

/-- An element that all before it come after, and that comes before all behind
it, is chosen. -/
theorem firstLeast?_of_append (hbefore : ∀ b ∈ before, le b a = false)
    (hafter : ∀ b ∈ after, le a b = true) : firstLeast? le (before ++ a :: after) = some a := by
  induction before with
  | nil =>
      rw [List.nil_append, firstLeast?]
      split
      · rfl
      · next b hb => rw [if_pos (hafter b (mem_of_firstLeast?_eq_some hb))]
  | cons x before ih =>
      rw [List.cons_append, firstLeast?, ih fun b hb => hbefore b (List.mem_cons_of_mem _ hb)]
      simp [hbefore x]

/-- In a linear order no other element is chosen. -/
theorem firstLeast?_eq_some_iff (total : ∀ a b, le a b = false → le b a = true)
    (trans : ∀ a b c, le a b = true → le b c = true → le a c = true) :
    firstLeast? le xs = some a ↔ ∃ before after, xs = before ++ a :: after ∧
      (∀ b ∈ before, le b a = false) ∧ ∀ b ∈ after, le a b = true := by
  constructor
  · intro h
    induction xs generalizing a with
    | nil => cases h
    | cons x xs ih =>
        rw [firstLeast?] at h
        split at h
        · next noLeast =>
          cases h
          obtain rfl := firstLeast?_eq_none_iff.1 noLeast
          exact ⟨[], [], rfl, by simp, by simp⟩
        · next b hb =>
          obtain ⟨before, after, rfl, hbefore, hafter⟩ := ih hb
          cases h
          by_cases hx : le x b = true
          · rw [if_pos hx]
            refine ⟨[], _, rfl, by simp, fun c hc => ?_⟩
            obtain hc | hc := List.mem_append.1 hc
            · exact trans _ _ _ hx (total _ _ (hbefore c hc))
            · obtain rfl | hc := List.mem_cons.1 hc
              · exact hx
              · exact trans _ _ _ hx (hafter c hc)
          · rw [if_neg hx]
            refine ⟨x :: before, after, rfl, ?_, hafter⟩
            simpa [hx] using hbefore
  · rintro ⟨before, after, rfl, hbefore, hafter⟩
    exact firstLeast?_of_append hbefore hafter

/-- Among the elements that pass a test, what stands before the chosen one and
passes comes after it in the order, and what stands behind it does not come
before it. -/
theorem firstLeast?_filter_eq_some_iff (total : ∀ a b, le a b = false → le b a = true)
    (trans : ∀ a b c, le a b = true → le b c = true → le a c = true) {p : α → Bool} :
    firstLeast? le (xs.filter p) = some a ↔ p a = true ∧ ∃ before after,
      xs = before ++ a :: after ∧ (∀ b ∈ before, p b = true → le b a = false) ∧
      ∀ b ∈ after, p b = true → le a b = true := by
  rw [firstLeast?_eq_some_iff total trans]
  constructor
  · rintro ⟨best, others, hfilter, hbest, hothers⟩
    obtain ⟨before, rest, rfl, rfl, hrest⟩ := List.filter_eq_append_iff.1 hfilter
    obtain ⟨passed, after, rfl, fails, passes, rfl⟩ := List.filter_eq_cons_iff.1 hrest
    refine ⟨passes, before ++ passed, after, by rw [List.append_assoc], ?_, ?_⟩
    · intro b hb hpass
      obtain hb | hb := List.mem_append.1 hb
      · exact hbest b (List.mem_filter.2 ⟨hb, hpass⟩)
      · exact absurd hpass (fails b hb)
    · intro b hb hpass
      exact hothers b (List.mem_filter.2 ⟨hb, hpass⟩)
  · rintro ⟨passes, before, after, rfl, hbefore, hafter⟩
    refine ⟨before.filter p, after.filter p, ?_, ?_, ?_⟩
    · rw [List.filter_append, List.filter_cons, if_pos passes]
    · intro b hb
      exact hbefore b (List.mem_filter.1 hb).1 (List.mem_filter.1 hb).2
    · intro b hb
      exact hafter b (List.mem_filter.1 hb).1 (List.mem_filter.1 hb).2

end FirstLeast

/-! ## The order of preference -/

theorem shorter_iff {f g : TrackedFile} :
    shorter f g = true ↔ f.relative.utf8ByteSize < g.relative.utf8ByteSize ∨
      f.relative.utf8ByteSize = g.relative.utf8ByteSize ∧ f.relative ≤ g.relative := by
  simp [shorter]

theorem shorter_total (f g : TrackedFile) (h : shorter f g = false) : shorter g f = true := by
  rw [← Bool.not_eq_true, shorter_iff] at h
  rw [shorter_iff]
  obtain less | same | more :=
    Nat.lt_trichotomy f.relative.utf8ByteSize g.relative.utf8ByteSize
  · exact absurd (.inl less) h
  · refine .inr ⟨same.symm, ?_⟩
    exact (String.le_total f.relative g.relative).resolve_left fun le => h (.inr ⟨same, le⟩)
  · exact .inl more

theorem shorter_trans (f g h : TrackedFile) (hfg : shorter f g = true)
    (hgh : shorter g h = true) : shorter f h = true := by
  rw [shorter_iff] at hfg hgh ⊢
  obtain less | ⟨same, le⟩ := hfg
  · obtain less' | ⟨same', -⟩ := hgh <;> exact .inl (by omega)
  · obtain less' | ⟨same', le'⟩ := hgh
    · exact .inl (by omega)
    · exact .inr ⟨by omega, String.le_trans le le'⟩

/-- Among the sources that a normalized path ends, the file is the first of the
best: those before it in the host's order are worse, those behind it are no
better. -/
def FirstChoice (sources : List TrackedFile) (wanted : List Char) (f : TrackedFile) : Prop :=
  ∃ before after, sources = before ++ f :: after ∧
    (∀ g ∈ before, endedBy g wanted = true → shorter g f = false) ∧
    ∀ g ∈ after, endedBy g wanted = true → shorter f g = true

/-! ## The file that a relative path means -/

section Relative

variable {files : List TrackedFile} {reported : String} {f : TrackedFile}
  (relative : (Path.ofString reported).isAbsolute = false)
  (nonempty : normalize reported.toList ≠ [])
  (mem : f ∈ groovySources files) (ends : endedBy f (normalize reported.toList) = true)

include relative nonempty mem ends

theorem fileFor?_eq_firstLeast? :
    fileFor? files reported =
      firstLeast? shorter ((groovySources files).filter (endedBy · (normalize reported.toList))) ∧
    (fileFor? files reported).isSome = true := by
  have candidates : (groovySources files).filter (endedBy · (normalize reported.toList)) ≠ [] :=
    List.ne_nil_of_mem (List.mem_filter.2 ⟨mem, ends⟩)
  obtain ⟨g, hg⟩ := exists_firstLeast? shorter candidates
  have found : fileFor? files reported = .some g := by
    simp [fileFor?, exactMatch?, relative, matchSuffix?, nonempty, hg]
  exact ⟨by rw [found, hg], by rw [found]; rfl⟩

/-- A path that ends some file means a file that it ends. -/
theorem exists_fileFor?_eq_some :
    ∃ g ∈ groovySources files, fileFor? files reported = some g ∧
      endedBy g (normalize reported.toList) = true := by
  obtain ⟨heq, hsome⟩ := fileFor?_eq_firstLeast? relative nonempty mem ends
  obtain ⟨g, hg⟩ := Option.isSome_iff_exists.1 hsome
  obtain ⟨hmem, hends⟩ := List.mem_filter.1 (mem_of_firstLeast?_eq_some (heq ▸ hg))
  exact ⟨g, hmem, hg, hends⟩

/-- It means the first choice among them. -/
theorem fileFor?_eq_some_iff_firstChoice :
    fileFor? files reported = some f ↔
      FirstChoice (groovySources files) (normalize reported.toList) f := by
  rw [(fileFor?_eq_firstLeast? relative nonempty mem ends).1,
    firstLeast?_filter_eq_some_iff shorter_total shorter_trans, and_iff_right ends, FirstChoice]

end Relative

end GroovyFindings
