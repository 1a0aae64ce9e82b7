import GroovyFindings.Path.Relative
import GroovyFindings.Proofs.Path.Child
import Mathlib.Data.List.Induction

/-!
# How a path as seen from another one is spelled

As seen from one of its beginnings a path is what follows that.  A path that
does not lie above a base ends as seen from there as it ends by itself.

## Main results

* `relativeTo?_of_components` — the path as seen from one of its beginnings.
* `segments_ofComponents` — the segments of joined components.
* `getLast?_relativeComponents?` — the last component is the same.
* `exists_chars_relativeTo?` — so is the last name in the spelling.
-/

namespace GroovyFindings.Path

/-! ## Joined components -/

/-- Joined names become the segments of a path, which does not end with a
slash. -/
theorem baseSegments_ofComponents {cs : List Component}
    (plain : ∀ c ∈ cs, c.chars ≠ [] ∧ '/' ∉ c.chars) :
    (ofComponents cs).baseSegments = cs.map Component.chars ∧
      (cs ≠ [] → ¬ ((ofComponents cs).chars = [] ∨
        (ofComponents cs).chars.getLast? = some '/')) := by
  induction cs using List.reverseRecOn with
  | nil => exact ⟨rfl, fun h => absurd rfl h⟩
  | append_singleton cs c ih =>
      have hcs : ∀ c' ∈ cs, c'.chars ≠ [] ∧ '/' ∉ c'.chars :=
        fun c' hc' => plain c' (by simp [hc'])
      obtain ⟨hc, noSlash⟩ := plain c (by simp)
      have joined : ofComponents (cs ++ [c]) = (ofComponents cs).join ⟨c.chars⟩ := by
        simp [ofComponents]
      rw [joined, baseSegments_join noSlash hc, (ih hcs).1, List.map_append]
      exact ⟨rfl, fun _ => ends_join noSlash hc⟩

theorem segments_ofComponents {cs : List Component}
    (plain : ∀ c ∈ cs, c.chars ≠ [] ∧ '/' ∉ c.chars) (hne : cs ≠ []) :
    (ofComponents cs).segments = cs.map Component.chars ∧ (ofComponents cs).chars ≠ [] ∧
      (ofComponents cs).chars.getLast? ≠ some '/' := by
  obtain ⟨hsegments, hends⟩ := baseSegments_ofComponents plain
  have ends := hends hne
  rw [baseSegments, if_neg ends] at hsegments
  exact ⟨hsegments, not_or.1 ends⟩

/-! ## As seen from a beginning -/

theorem relativeComponents?_append (base rest : List Component) :
    relativeComponents? true (base ++ rest) base = some rest := by
  induction base with
  | nil => cases rest <;> rfl
  | cons c base ih => simp [relativeComponents?, ih]

section Beginning

variable {p base : Path} {rest : List Component} (hne : base.components ≠ [])
  (h : p.components = base.components ++ rest)

include hne h

/-- As seen from one of its beginnings a path is what follows that. -/
theorem relativeTo?_of_components : p.relativeTo? base = some (ofComponents rest) := by
  have head : p.components.head? = base.components.head? := by
    obtain ⟨c, cs, hbase⟩ := List.exists_cons_of_ne_nil hne
    rw [h, hbase, List.cons_append, List.head?_cons, List.head?_cons]
  have same : p.isAbsolute = base.isAbsolute := by
    rw [Bool.eq_iff_iff, isAbsolute_iff_head?, isAbsolute_iff_head?, head]
  rw [relativeTo?, if_pos same, h, relativeComponents?_append]
  rfl

/-- What follows a beginning are names and pairs of dots. -/
theorem plain_of_components : ∀ c ∈ rest, c.chars ≠ [] ∧ '/' ∉ c.chars := by
  intro c hc
  have behind : c ∈ p.components.tail := by
    obtain ⟨c', cs, hbase⟩ := List.exists_cons_of_ne_nil hne
    rw [h, hbase, List.cons_append, List.tail_cons]
    exact List.mem_append_right _ hc
  obtain ⟨segment, noisy⟩ := chars_of_mem_named (mem_named_of_mem_tail behind)
  refine ⟨?_, Text.notMem_of_mem_splitOn segment⟩
  intro hnil
  rw [hnil] at noisy
  cases noisy

end Beginning

/-! ## The last name -/

/-- As seen from a base that it does not lie above, a path has the same last
component. -/
theorem getLast?_relativeComponents? {path base cs : List Component}
    (h : relativeComponents? true path base = some cs) (notAbove : ¬ path <+: base)
    (noDot : .here ∉ base) : cs.getLast? = path.getLast? := by
  induction path generalizing base with
  | nil => exact absurd List.nil_prefix notAbove
  | cons a path ih =>
      cases base with
      | nil =>
          cases h
          rfl
      | cons b base =>
          rw [relativeComponents?] at h
          split at h
          · next together =>
            obtain rfl : a = b := by simpa using together
            have notAbove' : ¬ path <+: base := fun hprefix =>
              notAbove (List.cons_prefix_cons.2 ⟨rfl, hprefix⟩)
            rw [ih h notAbove' fun hdot => noDot (List.mem_cons_of_mem _ hdot)]
            cases path with
            | nil => exact absurd List.nil_prefix notAbove'
            | cons a' path => simp
          · split at h
            · next hdot => exact absurd (hdot ▸ List.mem_cons_self ..) noDot
            · split at h
              · cases h
              · cases h
                rw [List.getLast?_append, List.getLast?_cons]
                rfl

/-- The spelling of a last name. -/
theorem exists_chars_ofComponents {cs : List Component} {name : List Char}
    (h : cs.getLast? = some (.name name)) (noSlash : '/' ∉ name) :
    ∃ before, (ofComponents cs).chars = before ++ name := by
  obtain ⟨front, rfl⟩ := List.getLast?_eq_some_iff.1 h
  have joined : ofComponents (front ++ [.name name]) = (ofComponents front).join ⟨name⟩ := by
    simp [ofComponents, Component.chars]
  rw [joined, chars_join noSlash]
  split
  · exact ⟨_, rfl⟩
  · exact ⟨(ofComponents front).chars ++ ['/'], by simp⟩

/-- As seen from an absolute path that it does not lie above, an absolute path
ends with its last name. -/
theorem exists_chars_relativeTo? {p base : Path} {name : List Char}
    (hp : p.isAbsolute = true) (hbase : base.isAbsolute = true)
    (notAbove : ¬ p.components <+: base.components)
    (last : p.components.getLast? = some (.name name)) (noSlash : '/' ∉ name)
    {before : List Char} (spelled : p.chars = before ++ name) :
    ∃ before, ((p.relativeTo? base).getD p).chars = before ++ name := by
  rw [relativeTo?, hp, hbase, if_pos rfl]
  have noDot : Component.here ∉ base.components := by
    rw [components_of_isAbsolute hbase, List.mem_cons, not_or]
    refine ⟨by simp, fun hdot => ?_⟩
    obtain ⟨segment, -, hsegment⟩ := List.mem_filterMap.1 hdot
    unfold Component.ofSegment? at hsegment
    split at hsegment <;> cases hsegment
  cases hcs : relativeComponents? true p.components base.components with
  | none => exact ⟨before, by simpa using spelled⟩
  | some cs =>
      have last' := (getLast?_relativeComponents? hcs notAbove noDot).trans last
      simpa using exists_chars_ofComponents last' noSlash

end GroovyFindings.Path
