import GroovyFindings.Proofs.Path.Relative

/-!
# Paths below a path

Names are joined to a path one after the other.  What the result denotes is what
the path denotes and the names behind it.  A relative path may also begin with a
dot, which says nothing about where it leads; without that dot a path denotes
its root, if it has one, and what its segments denote.

## Main definitions

* `Path.Proper` — names that an entry of a directory can have.
* `Path.below` — names joined to a path.
* `Path.undotted` — what a path denotes but for a dot in front.

## Main results

* `Path.components_join_of_relative`, `Path.undotted_below` — what joined paths and
  names denote.
* `Path.relativeTo?_below`, `Path.join_below` — what a path is as seen from
  above, and that this leads back to it.
-/

namespace GroovyFindings.Path

variable {p q : Path} {name : List Char} {names : List (List Char)}

/-- A name that an entry of a directory can have. -/
def Proper (name : List Char) : Prop := name ∉ [[], ['.'], ['.', '.']] ∧ '/' ∉ name

instance (name : List Char) : Decidable (Proper name) :=
  inferInstanceAs (Decidable (_ ∧ _))

theorem Proper.ne_nil (h : Proper name) : name ≠ [] := by
  rintro rfl
  exact h.1 (by simp)

theorem Proper.ne_dot (h : Proper name) : name ≠ ['.'] := by
  rintro rfl
  exact h.1 (by simp)

theorem Proper.ne_dots (h : Proper name) : name ≠ ['.', '.'] := by
  rintro rfl
  exact h.1 (by simp)

/-- The path of what is below another path by the given names. -/
def below (p : Path) (names : List (List Char)) : Path :=
  names.foldl (fun q name => q.join ⟨name⟩) p

/-- What a path denotes, but for the dot that a relative path may begin with. -/
def undotted (p : Path) : List Component := p.components.filter (· ≠ .here)

/-! ## Components by segments -/

/-- What stands before the components that the segments denote. -/
def front (p : Path) : List Component :=
  if p.isAbsolute then [.root] else if p.segments.head? = some ['.'] then [.here] else []

theorem components_eq (p : Path) : p.components = p.front ++ named p.segments := by
  unfold front
  by_cases absolute : p.isAbsolute = true
  · rw [if_pos absolute, components_of_isAbsolute absolute]
    rfl
  · rw [if_neg absolute]
    have noRoot : p.components.head? ≠ some .root := fun h => absolute (isAbsolute_iff_head?.2 h)
    unfold components at noRoot ⊢
    split at noRoot
    · exact absurd rfl noRoot
    · next more hsegments =>
      rw [hsegments, List.head?_cons, if_pos rfl]
      rfl
    · next noSlash noDot =>
      have head : p.segments.head? ≠ some ['.'] := by
        intro h
        obtain ⟨more, hmore⟩ := List.head?_eq_some_iff.1 h
        exact noDot more hmore
      rw [if_neg head]
      rfl

theorem here_notMem_named (xs : List (List Char)) : Component.here ∉ named xs := by
  intro h
  obtain hup | ⟨chars, hname⟩ := eq_up_or_name_of_mem_named h
  · cases hup
  · cases hname

theorem undotted_eq (p : Path) :
    p.undotted = (if p.isAbsolute then [.root] else []) ++ named p.segments := by
  have kept : (named p.segments).filter (· ≠ .here) = named p.segments := by
    rw [List.filter_eq_self]
    intro c hc
    exact decide_eq_true fun h => here_notMem_named _ (h ▸ hc)
  rw [undotted, components_eq, List.filter_append, kept, front]
  split
  · rfl
  · split <;> rfl

/-- Without a dot in front, that is all a path denotes. -/
theorem undotted_eq_components (h : .here ∉ p.components) : p.undotted = p.components := by
  rw [undotted, List.filter_eq_self]
  intro c hc
  exact decide_eq_true fun heq => h (heq ▸ hc)

theorem named_baseSegments (p : Path) : named p.baseSegments = named p.segments := by
  obtain ⟨slashes, hsegments, empty⟩ := p.exists_segments_eq_base
  have silent : named slashes = [] :=
    named_of_silent fun x hx => by rw [empty x hx]; rfl
  rw [hsegments, named_append, silent, List.append_nil]

/-! ## Joined names -/

theorem head?_baseSegments (h : p.chars ≠ []) : p.baseSegments.head? = p.segments.head? := by
  obtain hbase | hbase := p.segments_eq_base_or
  · rw [hbase]
  · cases hnil : p.baseSegments with
    | nil =>
        rw [hnil, List.nil_append] at hbase
        have joined := p.intercalate_segments
        rw [hbase] at joined
        exact absurd joined.symm (by simpa using h)
    | cons x xs => rw [hbase, hnil]; rfl

theorem components_join_of_relative (h : p.chars ≠ []) (relative : q.isAbsolute = false) :
    (p.join q).components = p.components ++ named q.segments := by
  have head : (p.join q).segments.head? = p.segments.head? := by
    obtain ⟨x, xs, hsegments⟩ := List.exists_cons_of_ne_nil (List.splitOn_ne_nil '/' p.chars)
    have first : p.segments.head? = some x := by
      rw [segments, hsegments]
      rfl
    rw [segments_join_of_relative relative, List.head?_append, head?_baseSegments h, first,
      Option.some_or]
  rw [components_eq, components_eq p, front, front, isAbsolute_join_of_relative relative h, head,
    segments_join_of_relative relative, named_append, named_baseSegments, List.append_assoc]

theorem components_join (h : p.chars ≠ []) (noSlash : '/' ∉ name) :
    (p.join ⟨name⟩).components = p.components ++ named [name] := by
  rw [components_join_of_relative h (isAbsolute_of_notMem noSlash), segments_of_notMem noSlash]

theorem join_of_empty (h : p.chars = []) : p.join q = q := by
  unfold join
  split
  · rfl
  · rw [if_pos (Or.inl h), h, List.nil_append]

/-- Joined to a path once more, a path stays what it is if that path is absolute or
empty. -/
theorem join_join_self (h : p.isAbsolute = true ∨ p.chars = []) :
    p.join (p.join q) = p.join q := by
  obtain absolute | empty := h
  · rw [join, if_pos (isAbsolute_join_of_isAbsolute absolute)]
  · rw [join_of_empty empty]

/-- Otherwise it denotes something else, unless the path is a dot or what is joined to
it is absolute. -/
theorem sameAs_join_join_iff : (p.join (p.join q)).SameAs (p.join q) ↔
    p.isAbsolute = true ∨ p.undotted = [] ∨ (p.join q).isAbsolute = true := by
  by_cases absolute : (p.join q).isAbsolute = true
  · have same : p.join (p.join q) = p.join q := by rw [join, if_pos absolute]
    simp [SameAs, same, absolute]
  have relative : p.isAbsolute = false := by
    rw [← Bool.not_eq_true]
    exact fun h => absolute (isAbsolute_join_of_isAbsolute h)
  have undotted : p.undotted = named p.segments := by
    rw [undotted_eq, relative]
    rfl
  by_cases empty : p.chars = []
  · have nothing : p.undotted = [] := by
      rw [undotted, segments, empty]
      rfl
    simp [SameAs, join_join_self (.inr empty), nothing]
  have relative' : q.isAbsolute = false := by
    rw [← Bool.not_eq_true]
    intro h
    exact absolute (by rwa [join, if_pos h])
  rw [SameAs, components_join_of_relative empty (Bool.not_eq_true _ ▸ absolute),
    components_join_of_relative empty relative', segments_join_of_relative relative', named_append,
    named_baseSegments, List.append_cancel_left_eq, List.append_left_eq_self, undotted]
  simp [relative, absolute]

theorem Proper.ofSegment?_eq (h : Proper name) :
    Component.ofSegment? name = some (.name name) := by
  unfold Component.ofSegment?
  split
  · exact absurd rfl h.ne_nil
  · exact absurd rfl h.ne_dot
  · exact absurd rfl h.ne_dots
  · rfl

theorem Proper.named_singleton (h : Proper name) : named [name] = [.name name] := by
  rw [named, List.filterMap_cons_some h.ofSegment?_eq, List.filterMap_nil]

theorem named_of_proper (h : ∀ name ∈ names, Proper name) : named names = names.map .name := by
  induction names with
  | nil => rfl
  | cons name names ih =>
      have first := h name (List.mem_cons_self ..)
      rw [named, List.filterMap_cons_some first.ofSegment?_eq, List.map_cons]
      exact congrArg _ (ih fun x hx => h x (List.mem_cons_of_mem _ hx))

theorem isAbsolute_below (h : ∀ name ∈ names, '/' ∉ name) :
    (p.below names).isAbsolute = p.isAbsolute := by
  induction names generalizing p with
  | nil => rfl
  | cons name names ih =>
      rw [below, List.foldl_cons, ← below, ih fun x hx => h x (List.mem_cons_of_mem _ hx),
        isAbsolute_join (h name (List.mem_cons_self ..))]

theorem baseSegments_below (h : ∀ name ∈ names, Proper name) :
    (p.below names).baseSegments = p.baseSegments ++ names := by
  induction names generalizing p with
  | nil => exact (List.append_nil _).symm
  | cons name names ih =>
      have first := h name (List.mem_cons_self ..)
      rw [below, List.foldl_cons, ← below, ih fun x hx => h x (List.mem_cons_of_mem _ hx),
        baseSegments_join first.2 first.ne_nil, List.append_assoc]
      rfl

/-- Names that are joined to a path become its last segments. -/
theorem segments_below (hne : names ≠ []) (h : ∀ name ∈ names, Proper name) :
    (p.below names).segments = p.baseSegments ++ names := by
  obtain ⟨before, name, rfl⟩ : ∃ before name, names = before ++ [name] :=
    ⟨_, _, (List.dropLast_concat_getLast hne).symm⟩
  have joined : p.below (before ++ [name]) = (p.below before).join ⟨name⟩ := by
    simp [below]
  rw [joined, segments_join (h name (by simp)).2,
    baseSegments_below fun x hx => h x (by simp [hx]), List.append_assoc]

theorem undotted_below (hne : names ≠ []) (h : ∀ name ∈ names, Proper name) :
    (p.below names).undotted = p.undotted ++ names.map .name := by
  rw [undotted_eq, undotted_eq, isAbsolute_below fun x hx => (h x hx).2, segments_below hne h,
    named_append, named_baseSegments, named_of_proper h, List.append_assoc]

/-! ## There and back -/

/-- A name can be joined before or after. -/
theorem join_join (hq : q.chars ≠ []) (relative : q.isAbsolute = false) (noSlash : '/' ∉ name) :
    p.join (q.join ⟨name⟩) = (p.join q).join ⟨name⟩ := by
  have relative' : (q.join ⟨name⟩).isAbsolute = false := by rw [isAbsolute_join noSlash, relative]
  have ends : ((p.join q).chars = [] ∨ (p.join q).chars.getLast? = some '/') ↔
      (q.chars = [] ∨ q.chars.getLast? = some '/') := by
    obtain ⟨c, hc⟩ : ∃ c, q.chars.getLast? = some c := ⟨_, List.getLast?_eq_some_getLast hq⟩
    rw [chars_join_of_relative relative]
    split <;> simp [hq, hc, List.getLast?_append, List.getLast?_cons]
  have chars : (p.join (q.join ⟨name⟩)).chars = ((p.join q).join ⟨name⟩).chars := by
    rw [chars_join_of_relative relative', chars_join noSlash, chars_join noSlash]
    by_cases hends : q.chars = [] ∨ q.chars.getLast? = some '/'
    · rw [if_pos hends, if_pos (ends.2 hends),
        chars_join_of_relative relative]
      split <;> simp
    · rw [if_neg hends, if_neg fun h => hends (ends.1 h),
        chars_join_of_relative relative]
      split <;> simp
  exact congrArg Path.mk chars

theorem ofComponents_names (names : List (List Char)) :
    ofComponents (names.map .name) = below ⟨[]⟩ names := by
  rw [ofComponents, List.foldl_map]
  rfl

/-- Names can be joined one after the other or all at once. -/
theorem join_below (hne : names ≠ []) (h : ∀ name ∈ names, Proper name) :
    p.join (below ⟨[]⟩ names) = p.below names := by
  induction names using List.reverseRecOn with
  | nil => exact absurd rfl hne
  | append_singleton before name ih =>
      have noSlash := (h name (by simp)).2
      have proper : ∀ x ∈ before, Proper x := fun x hx => h x (by simp [hx])
      have joined : ∀ r : Path, r.below (before ++ [name]) = (r.below before).join ⟨name⟩ := by
        intro r
        simp [below]
      rw [joined, joined]
      by_cases hbefore : before = []
      · subst hbefore
        rw [below, below, List.foldl_nil, List.foldl_nil, join_of_empty rfl]
      · have nonempty : (below ⟨[]⟩ before).chars ≠ [] := by
          intro hnil
          have hsegments := segments_below hbefore proper (p := ⟨[]⟩)
          have single : (below ⟨[]⟩ before).segments = [[]] := by rw [segments, hnil]; rfl
          rw [single] at hsegments
          have hmem : [] ∈ before := by
            have hbase : baseSegments ⟨[]⟩ = [] := rfl
            rw [hbase, List.nil_append] at hsegments
            simp [← hsegments]
          exact (proper [] hmem).ne_nil rfl
        have relative : (below ⟨[]⟩ before).isAbsolute = false :=
          isAbsolute_below fun x hx => (proper x hx).2
        rw [join_join nonempty relative noSlash, ih hbefore proper]

theorem components_below (hp : p.chars ≠ []) (h : ∀ name ∈ names, Proper name) :
    (p.below names).components = p.components ++ names.map .name := by
  induction names generalizing p with
  | nil => exact (List.append_nil _).symm
  | cons name names ih =>
      have first := h name (List.mem_cons_self ..)
      have nonempty : (p.join ⟨name⟩).chars ≠ [] := by
        rw [chars_join first.2]
        split <;> simp [hp]
      rw [below, List.foldl_cons, ← below,
        ih nonempty fun x hx => h x (List.mem_cons_of_mem _ hx), components_join hp first.2,
        first.named_singleton, List.append_assoc]
      rfl

/-- The spelling of joined names. -/
theorem chars_below (hne : names ≠ []) (h : ∀ name ∈ names, Proper name) :
    (below ⟨[]⟩ names).chars = ['/'].intercalate names := by
  rw [← intercalate_segments, segments_below hne h]
  rfl

theorem components_ne_nil (h : p.chars ≠ []) : p.components ≠ [] := by
  intro hnil
  rw [components_eq, List.append_eq_nil_iff] at hnil
  obtain ⟨hfront, hnamed⟩ := hnil
  obtain ⟨x, xs, hsegments⟩ := List.exists_cons_of_ne_nil (List.splitOn_ne_nil '/' p.chars)
  have hsegments' : p.segments = x :: xs := hsegments
  unfold front at hfront
  split at hfront
  · cases hfront
  · next relative =>
    split at hfront
    · cases hfront
    · next noDot =>
      -- a first segment that denotes nothing is empty, so that a slash comes first
      have silent : isSilent x = true := by
        rw [← ofSegment?_eq_none_iff]
        rw [named, List.filterMap_eq_nil_iff] at hnamed
        exact hnamed x (hsegments' ▸ List.mem_cons_self ..)
      rw [hsegments', List.head?_cons] at noDot
      obtain rfl : x = [] := by
        have hx : x = [] ∨ x = ['.'] := by simpa [isSilent] using silent
        exact hx.resolve_right fun hdot => noDot (congrArg some hdot)
      have joined := p.intercalate_segments
      rw [hsegments'] at joined
      cases xs with
      | nil => exact h (by simpa using joined.symm)
      | cons y ys =>
          rw [List.intercalate_cons_cons, List.nil_append, List.singleton_append] at joined
          exact relative (by rw [isAbsolute, ← joined]; rfl)

/-- As seen from where it begins, or from a single dot, a path is what its names
spell. -/
theorem relativeTo?_below (hp : p.components ≠ []) (hne : names ≠ [])
    (front : .here ∉ p.components ∨ p.components = [.here])
    (below : q.components = p.undotted ++ names.map .name) :
    q.relativeTo? p = some (Path.below ⟨[]⟩ names) := by
  rw [← ofComponents_names]
  obtain noDot | dot := front
  · rw [undotted_eq_components noDot] at below
    exact relativeTo?_of_components hp below
  · have hq : q.components = names.map .name := by
      have empty : p.undotted = [] := by rw [undotted, dot]; rfl
      rw [below, empty, List.nil_append]
    obtain ⟨name, more, rfl⟩ := List.exists_cons_of_ne_nil hne
    have relative : ∀ r : Path, r.components.head? ≠ some .root → r.isAbsolute = false := by
      intro r hr
      rw [← Bool.not_eq_true, isAbsolute_iff_head?]
      exact hr
    have same : q.isAbsolute = p.isAbsolute := by
      rw [relative q (by simp [hq]), relative p (by simp [dot])]
    have seen : relativeComponents? true ((name :: more).map .name) [.here] =
        some ((name :: more).map .name) := by
      simp [relativeComponents?]
    rw [relativeTo?, if_pos same, hq, dot, seen]
    rfl

end GroovyFindings.Path
