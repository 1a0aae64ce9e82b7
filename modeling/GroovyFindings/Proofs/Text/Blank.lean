import GroovyFindings.Text.Blank

/-!
# Cutting runs off at the ends

`dropEndWhile` does at the end what `List.dropWhile` does at the beginning,
and the two together do nothing to a text whose ends stay.

## Main results

* `exists_run_dropped`, `dropEndWhile_append_of_pos`, `dropEndWhile_eq_self` —
  what is dropped at the end.
* `cut_run_iff` — the run at the beginning, and what follows it.
* `trim_eq_iff`, `trim_eq_self` — what trimming leaves.
* `trim_kept_eq_iff` — when it does not matter that blanks have been left out.
-/

namespace GroovyFindings.Text

variable {α : Type} {p : α → Bool} {text : List α}

/-- What is dropped at the end satisfies the test. -/
theorem exists_run_dropped (p : α → Bool) (text : List α) :
    ∃ run, dropEndWhile p text ++ run = text ∧ ∀ x ∈ run, p x = true := by
  refine ⟨(text.reverse.takeWhile p).reverse, ?_, ?_⟩
  · rw [dropEndWhile, ← List.reverse_append, List.takeWhile_append_dropWhile,
      List.reverse_reverse]
  · intro x hx
    exact List.all_eq_true.1 List.all_takeWhile x (List.mem_reverse.1 hx)

/-- A run at the end is dropped. -/
theorem dropEndWhile_append_of_pos {run : List α} (h : ∀ x ∈ run, p x = true) :
    dropEndWhile p (text ++ run) = dropEndWhile p text := by
  have hrun : ∀ x ∈ run.reverse, p x = true := fun x hx => h x (List.mem_reverse.1 hx)
  rw [dropEndWhile, List.reverse_append, List.dropWhile_append_of_pos hrun]
  rfl

theorem dropWhile_eq_self (h : ∀ x, text.head? = some x → p x = false) :
    text.dropWhile p = text := by
  cases text with
  | nil => rfl
  | cons x text =>
      have hx := h x rfl
      rw [List.dropWhile_cons, if_neg (by simp [hx])]

theorem dropEndWhile_eq_self (h : ∀ x, text.getLast? = some x → p x = false) :
    dropEndWhile p text = text := by
  have hreverse : text.reverse.dropWhile p = text.reverse := by
    apply dropWhile_eq_self
    intro x hx
    apply h x
    rwa [List.head?_reverse] at hx
  rw [dropEndWhile, hreverse, List.reverse_reverse]

/-- What is left of a text begins as the text does. -/
theorem head?_dropEndWhile {x : α} (h : (dropEndWhile p text).head? = some x) :
    text.head? = some x := by
  obtain ⟨run, hrun⟩ := dropEndWhile_append p text
  rw [← hrun, List.head?_append, h]
  rfl

/-- The longest run at the beginning, and what follows it. -/
theorem cut_run_iff {run rest : List α} :
    text.takeWhile p = run ∧ text.dropWhile p = rest ↔
      text = run ++ rest ∧ (∀ x ∈ run, p x = true) ∧ ∀ x, rest.head? = some x → p x = false := by
  constructor
  · rintro ⟨rfl, rfl⟩
    refine ⟨List.takeWhile_append_dropWhile.symm, List.all_eq_true.1 List.all_takeWhile, ?_⟩
    intro x hx
    have := List.head?_dropWhile_not p text
    rw [hx] at this
    simpa using this
  · rintro ⟨rfl, inside, stop⟩
    rw [List.takeWhile_append_of_pos inside, List.dropWhile_append_of_pos inside,
      dropWhile_eq_self stop]
    refine ⟨?_, rfl⟩
    cases rest with
    | nil => exact List.append_nil run
    | cons x rest =>
        rw [List.takeWhile_cons_of_neg (by simp [stop x rfl]), List.append_nil]

/-- A text without blanks at its ends is not trimmed. -/
theorem trim_eq_self {text : List Char}
    (first : ∀ c, text.head? = some c → isBlank c = false)
    (last : ∀ c, text.getLast? = some c → isBlank c = false) : trim text = text := by
  rw [trim, dropWhile_eq_self first, dropEndWhile_eq_self last]

/-- Trimming leaves what stands between blanks and has none at its ends. -/
theorem trim_eq_iff {text core : List Char} :
    trim text = core ↔
      (∃ before behind, text = before ++ core ++ behind ∧ (∀ c ∈ before, isBlank c = true) ∧
        ∀ c ∈ behind, isBlank c = true) ∧
      (∀ c, core.head? = some c → isBlank c = false) ∧
      ∀ c, core.getLast? = some c → isBlank c = false := by
  constructor
  · rintro rfl
    obtain ⟨behind, hbehind, blank⟩ := exists_run_dropped isBlank (text.dropWhile isBlank)
    obtain ⟨htext, blank', first⟩ := cut_run_iff.1 ⟨rfl, Eq.refl (text.dropWhile isBlank)⟩
    refine ⟨⟨text.takeWhile isBlank, behind, ?_, blank', blank⟩, ?_, ?_⟩
    · rw [trim, List.append_assoc, hbehind]
      exact htext
    · exact fun c hc => first c (head?_dropEndWhile hc)
    · exact fun c hc => dropEndWhile_getLast hc
  · rintro ⟨⟨before, behind, rfl, blank, blank'⟩, first, last⟩
    rw [List.append_assoc, trim, List.dropWhile_append_of_pos blank]
    cases core with
    | nil =>
        have allBlank : behind.dropWhile isBlank = [] := by
          rw [← List.append_nil behind, List.dropWhile_append_of_pos blank']
          rfl
        rw [List.nil_append, allBlank]
        rfl
    | cons x core =>
        have first' : ∀ c, (x :: core ++ behind).head? = some c → isBlank c = false := first
        rw [dropWhile_eq_self first', dropEndWhile_append_of_pos blank', dropEndWhile_eq_self last]

/-- What is left of a text when it is trimmed had been in it. -/
theorem mem_of_mem_trim {c : Char} {text : List Char} (h : c ∈ trim text) : c ∈ text := by
  obtain ⟨run, hrun⟩ := dropEndWhile_append isBlank (text.dropWhile isBlank)
  have inner : c ∈ text.dropWhile isBlank := hrun ▸ List.mem_append_left run h
  exact (List.dropWhile_sublist _).subset inner

/-! ## Leaving blanks out -/

/-- Leaving elements out that would be dropped anyway. -/
theorem dropWhile_filter {q : α → Bool} (h : ∀ x ∈ text, q x = false → p x = true) :
    (text.filter q).dropWhile p = (text.dropWhile p).filter q := by
  induction text with
  | nil => rfl
  | cons x text ih =>
      have htail := ih fun y hy => h y (List.mem_cons_of_mem x hy)
      cases hq : q x with
      | true => cases hp : p x <;> simp [hq, hp, htail]
      | false =>
          have hp := h x List.mem_cons_self hq
          simp [hq, hp, htail]

theorem dropEndWhile_filter {q : α → Bool} (h : ∀ x ∈ text, q x = false → p x = true) :
    dropEndWhile p (text.filter q) = (dropEndWhile p text).filter q := by
  have hreverse : ∀ x ∈ text.reverse, q x = false → p x = true :=
    fun x hx => h x (List.mem_reverse.1 hx)
  rw [dropEndWhile, ← List.filter_reverse, dropWhile_filter hreverse, ← List.filter_reverse]
  rfl

theorem dropEndWhile_map {β : Type} (f : β → α) (text : List β) :
    dropEndWhile p (text.map f) = (dropEndWhile (p ∘ f) text).map f := by
  rw [dropEndWhile, ← List.map_reverse, List.dropWhile_map, ← List.map_reverse]
  rfl

/-- The characters that are marked to be kept. -/
def kept (marks : List (Char × Bool)) : List Char := (marks.filter (·.2)).map (·.1)

theorem kept_append (marks marks' : List (Char × Bool)) :
    kept (marks ++ marks') = kept marks ++ kept marks' := by
  simp [kept]

/-- What lies between the first character that is not blank and the last one. -/
def inside (marks : List (Char × Bool)) : List (Char × Bool) :=
  dropEndWhile (isBlank ∘ Prod.fst) (marks.dropWhile (isBlank ∘ Prod.fst))

/-- It does not matter that blanks are left out where a text is trimmed, and only
there. -/
theorem trim_kept_eq_iff {marks : List (Char × Bool)}
    (blank : ∀ m ∈ marks, m.2 = false → isBlank m.1 = true) :
    trim (kept marks) = trim (marks.map Prod.fst) ↔ ∀ m ∈ inside marks, m.2 = true := by
  have blank' : ∀ m ∈ marks, m.2 = false → (isBlank ∘ Prod.fst) m = true := blank
  have blankBehind : ∀ m ∈ marks.dropWhile (isBlank ∘ Prod.fst),
      m.2 = false → (isBlank ∘ Prod.fst) m = true :=
    fun m hm => blank' m ((List.dropWhile_suffix _).subset hm)
  have hkept : trim (kept marks) = ((inside marks).filter (·.2)).map Prod.fst := by
    rw [trim, kept, List.dropWhile_map, dropEndWhile_map, dropWhile_filter blank',
      dropEndWhile_filter blankBehind]
    rfl
  have hwhole : trim (marks.map Prod.fst) = (inside marks).map Prod.fst := by
    rw [trim, List.dropWhile_map, dropEndWhile_map]
    rfl
  rw [hkept, hwhole, ← List.filter_eq_self (l := inside marks)]
  constructor
  · intro h
    have hlength := congrArg List.length h
    rw [List.length_map, List.length_map] at hlength
    exact List.filter_sublist.eq_of_length hlength
  · intro h
    rw [h]

end GroovyFindings.Text
