import GroovyFindings.Proofs.Path.Components
import GroovyFindings.Text.Utf8

/-!
# The segments of a path below another one

A name that is joined to a path becomes its last segment.  What comes before
it are the segments of the path, but for the empty piece behind a slash at its
end.

## Main definitions

* `Path.baseSegments` — the segments before a joined name.

## Main results

* `Path.chars_join_of_relative`, `Path.segments_join_of_relative` — the spelling and
  the segments of a path with a relative one joined to it.
* `Path.chars_join`, `Path.segments_join`, `Path.baseSegments_join` — those of a path
  with a name joined to it.
* `Path.segments_eq_base_or`, `Path.exists_segments_of_append` — slashes at
  the end of a path add nothing but empty segments.
-/

namespace GroovyFindings

/-- The bytes of two texts. -/
theorem Utf8.byteLength_append (xs ys : List Char) :
    byteLength (xs ++ ys) = byteLength xs + byteLength ys := by
  induction xs with
  | nil => simp [byteLength]
  | cons x xs ih => simp only [List.cons_append, byteLength, ih, Nat.add_assoc]

namespace Path

variable {p : Path} {name : String}

/-! ## Slashes at the end -/

theorem splitOn_slashes {run : List Char} (h : ∀ c ∈ run, c = '/') :
    ∀ y ∈ run.splitOn '/', y = [] := by
  induction run with
  | nil => simp
  | cons c run ih =>
      obtain rfl := h c (by simp)
      rw [Text.splitOn_cons_self]
      simpa using ih fun c hc => h c (by simp [hc])

/-- Slashes at the end add nothing but empty segments. -/
theorem exists_segments_of_append {chars run : List Char} (hp : chars ++ run = p.chars)
    (h : ∀ c ∈ run, c = '/') :
    ∃ slashes, p.segments = chars.splitOn '/' ++ slashes ∧ ∀ y ∈ slashes, y = [] := by
  rw [segments, ← hp]
  cases run with
  | nil => exact ⟨[], by simp, by simp⟩
  | cons c run =>
      obtain rfl := h c (by simp)
      exact ⟨_, List.splitOn_append_cons_self _ _, splitOn_slashes fun c hc => h c (by simp [hc])⟩

/-! ## A name joined to a path -/

/-- The segments before the one of a name that is joined to the path. -/
def baseSegments (p : Path) : List (List Char) :=
  if p.chars = [] ∨ p.chars.getLast? = some '/' then p.segments.dropLast else p.segments

/-- A path has no other segments, but for the empty piece behind a slash at its
end. -/
theorem segments_eq_base_or (p : Path) :
    p.segments = p.baseSegments ∨ p.segments = p.baseSegments ++ [[]] := by
  unfold baseSegments
  split
  · next h =>
    right
    obtain h | h := h
    · simp [segments, h]
    · obtain ⟨chars, hchars⟩ := List.getLast?_eq_some_iff.1 h
      simp [segments, hchars, List.splitOn_append_cons_self]
  · exact .inl rfl

theorem exists_segments_eq_base (p : Path) :
    ∃ slashes, p.segments = p.baseSegments ++ slashes ∧ ∀ y ∈ slashes, y = [] := by
  obtain h | h := p.segments_eq_base_or
  · exact ⟨[], by simpa using h, by simp⟩
  · exact ⟨[[]], h, by simp⟩

section Relative

variable {q : Path} (relative : q.isAbsolute = false)

include relative

/-- A joined path stands behind a slash. -/
theorem chars_join_of_relative :
    (p.join q).chars =
      if p.chars = [] ∨ p.chars.getLast? = some '/' then p.chars ++ q.chars
      else p.chars ++ '/' :: q.chars := by
  rw [join, if_neg (by simp [relative])]
  split <;> rfl

theorem segments_join_of_relative : (p.join q).segments = p.baseSegments ++ q.segments := by
  rw [segments, chars_join_of_relative relative, baseSegments]
  split
  · next hends =>
    obtain hnil | hslash := hends
    · simp [segments, hnil]
    · obtain ⟨front, hfront⟩ := List.getLast?_eq_some_iff.1 hslash
      simp [segments, hfront, List.splitOn_append_cons_self]
  · simp [segments, List.splitOn_append_cons_self]

theorem isAbsolute_join_of_relative (nonempty : p.chars ≠ []) :
    (p.join q).isAbsolute = p.isAbsolute := by
  obtain ⟨c, rest, hp⟩ := List.exists_cons_of_ne_nil nonempty
  rw [isAbsolute, chars_join_of_relative relative, isAbsolute, hp]
  split <;> rfl

end Relative

/-- A path that is joined to an absolute one is absolute. -/
theorem isAbsolute_join_of_isAbsolute {q : Path} (h : p.isAbsolute = true) :
    (p.join q).isAbsolute = true := by
  cases hq : q.isAbsolute with
  | true => rw [join, if_pos hq, hq]
  | false =>
      obtain ⟨rest, hrest⟩ := List.head?_eq_some_iff.1 (beq_iff_eq.1 h)
      rw [isAbsolute_join_of_relative hq (by simp [hrest]), h]

section Join

variable {chars : List Char} (h : '/' ∉ chars)

include h

theorem isAbsolute_of_notMem : isAbsolute ⟨chars⟩ = false := by
  rw [isAbsolute, beq_eq_false_iff_ne]
  exact fun habs => h (List.mem_of_head? habs)

/-- A joined name stands behind a slash. -/
theorem chars_join :
    (p.join ⟨chars⟩).chars =
      if p.chars = [] ∨ p.chars.getLast? = some '/' then p.chars ++ chars
      else p.chars ++ '/' :: chars := chars_join_of_relative (isAbsolute_of_notMem h)

theorem isAbsolute_join : (p.join ⟨chars⟩).isAbsolute = p.isAbsolute := by
  have relative := isAbsolute_of_notMem h
  by_cases hp : p.chars = []
  · rw [isAbsolute, chars_join h, if_pos (.inl hp), isAbsolute, hp]
    exact relative
  · exact isAbsolute_join_of_relative relative hp

/-- A name that is joined to a path becomes its last segment. -/
theorem segments_join : (p.join ⟨chars⟩).segments = p.baseSegments ++ [chars] := by
  rw [segments_join_of_relative (isAbsolute_of_notMem h), segments_of_notMem h]

/-- A path with a name joined to it ends with neither nothing nor a slash. -/
theorem ends_join (hne : chars ≠ []) : ¬ ((p.join ⟨chars⟩).chars = [] ∨
    (p.join ⟨chars⟩).chars.getLast? = some '/') := by
  obtain ⟨last, hlast⟩ : ∃ c, chars.getLast? = some c :=
    ⟨_, List.getLast?_eq_some_getLast hne⟩
  have notSlash : last ≠ '/' := by
    rintro rfl
    exact h (List.mem_of_getLast? hlast)
  rw [chars_join h]
  split <;> simp [List.getLast?_cons, hlast, notSlash, hne]

/-- What is joined next stands behind the name. -/
theorem baseSegments_join (hne : chars ≠ []) :
    (p.join ⟨chars⟩).baseSegments = p.baseSegments ++ [chars] := by
  rw [baseSegments, if_neg (ends_join h hne), segments_join h]

end Join

/-- An empty name only adds a slash. -/
theorem baseSegments_join_nil : (p.join ⟨[]⟩).baseSegments = p.baseSegments := by
  have hsegments : (p.join ⟨[]⟩).segments = p.baseSegments ++ [[]] := segments_join (by simp)
  have ends : (p.join ⟨[]⟩).chars = [] ∨ (p.join ⟨[]⟩).chars.getLast? = some '/' := by
    rw [chars_join (by simp)]
    split
    · next h => simpa using h
    · simp
  rw [baseSegments, if_pos ends, hsegments, List.dropLast_concat]

theorem chars_child (h : '/' ∉ name.toList) :
    (p.child name).chars =
      if p.chars = [] ∨ p.chars.getLast? = some '/' then p.chars ++ name.toList
      else p.chars ++ '/' :: name.toList := chars_join h

theorem isAbsolute_child (h : '/' ∉ name.toList) : (p.child name).isAbsolute = p.isAbsolute :=
  isAbsolute_join h

theorem segments_child (h : '/' ∉ name.toList) :
    (p.child name).segments = p.baseSegments ++ [name.toList] := segments_join h

theorem mem_chars_child (h : '/' ∉ name.toList) {c : Char} (hc : c ≠ '/') :
    c ∈ (p.child name).chars ↔ c ∈ p.chars ∨ c ∈ name.toList := by
  rw [chars_child h]
  split <;> simp [hc]

/-- A shorter name makes a shorter path. -/
theorem byteLength_child_le {name' : String} (h : '/' ∉ name.toList) (h' : '/' ∉ name'.toList)
    (le : Utf8.byteLength name.toList ≤ Utf8.byteLength name'.toList) :
    Utf8.byteLength (p.child name).chars ≤ Utf8.byteLength (p.child name').chars := by
  rw [chars_child h, chars_child h']
  split
  · rw [Utf8.byteLength_append, Utf8.byteLength_append]
    omega
  · rw [Utf8.byteLength_append, Utf8.byteLength_append, Utf8.byteLength, Utf8.byteLength]
    omega

theorem byteLength_le_child (h : '/' ∉ name.toList) :
    Utf8.byteLength p.chars ≤ Utf8.byteLength (p.child name).chars := by
  rw [chars_child h]
  split <;> rw [Utf8.byteLength_append] <;> omega

end Path

end GroovyFindings
