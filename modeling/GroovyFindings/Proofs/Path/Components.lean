import GroovyFindings.Path.Basic
import GroovyFindings.Proofs.Text.Blank

/-!
# What a path denotes, from its spelling

The components of a path are its anchor and the names between the slashes
behind it.  With the anchor told apart once, the path above another one turns
out to denote all of its components but the last.

## Main definitions

* `Path.named` — the components that segments denote.
* `Path.Anchored` — segments that can stand behind an anchor.

## Main results

* `Path.components_eq_anchor` — the components of a path are those of its anchor
  and those that its segments denote.
* `Path.components_of_parent?` — the path above lacks the last component.
* `Path.isAbsolute_iff_head?`, `Path.mem_named_of_mem_tail` — what can come first
  and behind that.
-/

namespace GroovyFindings

/-- A separator at the beginning stands behind an empty piece. -/
theorem Text.splitOn_cons_self (c : Char) (rest : List Char) :
    (c :: rest).splitOn c = [] :: rest.splitOn c := by
  simpa using List.splitOn_append_cons_self [] rest

/-- A piece between separators has none in it. -/
theorem Text.notMem_of_mem_splitOn {c : Char} {text piece : List Char}
    (h : piece ∈ text.splitOn c) : c ∉ piece := by
  induction text generalizing piece with
  | nil =>
      obtain rfl := List.mem_singleton.1 (by simpa using h)
      simp
  | cons x text ih =>
      rw [List.splitOn_cons_eq_if_modifyHead] at h
      split at h
      · obtain rfl | h := List.mem_cons.1 h
        · simp
        · exact ih h
      · next hx =>
        obtain ⟨first, others, hsplit⟩ :=
          List.exists_cons_of_ne_nil (List.splitOn_ne_nil c text)
        rw [hsplit, List.modifyHead_cons] at h
        rw [hsplit] at ih
        obtain rfl | h := List.mem_cons.1 h
        · have hfirst := ih (List.mem_cons_self ..)
          rw [List.mem_cons]
          rintro (rfl | hc)
          · simp at hx
          · exact hfirst hc
        · exact ih (List.mem_cons_of_mem _ h)

/-- A character of joined pieces is the separator or stands in a piece. -/
theorem Text.mem_of_mem_intercalate {c separator : Char} {pieces : List (List Char)}
    (h : c ∈ [separator].intercalate pieces) : c = separator ∨ ∃ piece ∈ pieces, c ∈ piece := by
  induction pieces with
  | nil => cases h
  | cons first others ih =>
      cases others with
      | nil => exact .inr ⟨first, by simp, by simpa using h⟩
      | cons second others =>
          rw [List.intercalate_cons_cons, List.mem_append, List.mem_append,
            List.mem_singleton] at h
          obtain (hfirst | rfl) | hrest := h
          · exact .inr ⟨first, by simp, hfirst⟩
          · exact .inl rfl
          · obtain rfl | ⟨piece, hpiece, hc⟩ := ih hrest
            · exact .inl rfl
            · exact .inr ⟨piece, List.mem_cons_of_mem _ hpiece, hc⟩

theorem Text.mem_intercalate {c separator : Char} {pieces : List (List Char)}
    {piece : List Char} (h : piece ∈ pieces) (hc : c ∈ piece) :
    c ∈ [separator].intercalate pieces := by
  induction pieces with
  | nil => cases h
  | cons first others ih =>
      cases others with
      | nil =>
          obtain rfl := List.mem_singleton.1 h
          simpa using hc
      | cons second others =>
          rw [List.intercalate_cons_cons, List.mem_append, List.mem_append]
          obtain rfl | h := List.mem_cons.1 h
          · exact .inl (.inl hc)
          · exact .inr (ih h)

namespace Path

/-! ## Segments and components -/

theorem intercalate_segments (p : Path) : ['/'].intercalate p.segments = p.chars :=
  List.intercalate_splitOn '/'

theorem segments_of_notMem {chars : List Char} (h : '/' ∉ chars) :
    segments ⟨chars⟩ = [chars] := List.splitOn_eq_singleton h

/-- The components that segments denote. -/
def named (segments : List (List Char)) : List Component :=
  segments.filterMap Component.ofSegment?

@[simp] theorem named_append (xs ys : List (List Char)) :
    named (xs ++ ys) = named xs ++ named ys := List.filterMap_append

theorem chars_of_ofSegment? {segment : List Char} {c : Component}
    (h : Component.ofSegment? segment = some c) : c.chars = segment := by
  unfold Component.ofSegment? at h
  split at h <;> cases h <;> rfl

/-- Segments denote names and pairs of dots. -/
theorem eq_up_or_name_of_mem_named {xs : List (List Char)} {c : Component} (h : c ∈ named xs) :
    c = .up ∨ ∃ chars, c = .name chars := by
  obtain ⟨segment, -, hsegment⟩ := List.mem_filterMap.1 h
  unfold Component.ofSegment? at hsegment
  split at hsegment <;> cases hsegment
  · exact .inl rfl
  · exact .inr ⟨_, rfl⟩

theorem ofSegment?_eq_none_iff {segment : List Char} :
    Component.ofSegment? segment = none ↔ isSilent segment = true := by
  unfold Component.ofSegment?
  split <;> simp_all [isSilent]

theorem named_of_silent {xs : List (List Char)} (h : ∀ x ∈ xs, isSilent x = true) :
    named xs = [] := by
  rw [named, List.filterMap_eq_nil_iff]
  exact fun x hx => ofSegment?_eq_none_iff.2 (h x hx)

/-- What is dropped at the end denotes nothing. -/
theorem named_dropEndWhile (xs : List (List Char)) :
    named (Text.dropEndWhile isSilent xs) = named xs := by
  obtain ⟨run, hrun, silent⟩ := Text.exists_run_dropped isSilent xs
  rw [← congrArg named hrun, named_append, named_of_silent silent, List.append_nil]

/-- The segments that denote something are the names of components. -/
theorem map_chars_named (xs : List (List Char)) :
    (named xs).map Component.chars = xs.filter (!isSilent ·) := by
  induction xs with
  | nil => rfl
  | cons x xs ih =>
      cases hx : Component.ofSegment? x with
      | none =>
          have silent := ofSegment?_eq_none_iff.1 hx
          rw [List.filter_cons_of_neg (by simp [silent]), ← ih, named, List.filterMap_cons_none hx]
          rfl
      | some c =>
          have noisy : isSilent x = false := by
            rw [← Bool.not_eq_true, ← ofSegment?_eq_none_iff, hx]
            simp
          rw [List.filter_cons_of_pos (by simp [noisy]), ← ih, named,
            List.filterMap_cons_some hx, List.map_cons, chars_of_ofSegment? hx]
          rfl

/-- What segments denote is spelled as one of them. -/
theorem chars_of_mem_named {xs : List (List Char)} {c : Component} (h : c ∈ named xs) :
    c.chars ∈ xs ∧ isSilent c.chars = false := by
  have kept : c.chars ∈ xs.filter (!isSilent ·) := map_chars_named xs ▸ List.mem_map_of_mem h
  simpa using List.mem_filter.1 kept

/-- The segments of joined segments, or one that denotes nothing. -/
theorem named_splitOn_intercalate {xs : List (List Char)} (h : ∀ x ∈ xs, '/' ∉ x) :
    named ((['/'].intercalate xs).splitOn '/') = named xs := by
  by_cases hxs : xs = []
  · subst hxs
    rfl
  · rw [List.splitOn_intercalate '/' h hxs]

/-! ## Anchors -/

/-- Segments that can stand behind an anchor. -/
inductive Anchored : (anchor : List Char) → (segments : List (List Char)) → Prop
  | root {segments} : Anchored ['/'] segments
  | here {segments} (first : ∀ s ∈ segments.head?, s = []) : Anchored ['.'] segments
  | bare {segments} (notDot : ['.'] ∉ segments.head?)
      (notSlash : [] ∈ segments.head? → segments.tail = []) : Anchored [] segments

/-- The components that an anchor denotes. -/
def anchorComponents : (anchor : List Char) → List Component
  | ['/'] => [.root]
  | ['.'] => [.here]
  | _ => []

theorem anchorComponents_cases (anchor : List Char) :
    anchorComponents anchor = [.root] ∧ anchor = ['/'] ∨ anchorComponents anchor = [.here] ∨
      anchorComponents anchor = [] := by
  unfold anchorComponents
  split <;> simp

theorem components_slash (rest : List Char) :
    components ⟨'/' :: rest⟩ = .root :: named (rest.splitOn '/') := by
  obtain ⟨x, xs, hrest⟩ := List.exists_cons_of_ne_nil (List.splitOn_ne_nil '/' rest)
  simp only [components, segments, Text.splitOn_cons_self, hrest]
  rfl

/-- An absolute path denotes the root and what its segments denote. -/
theorem components_of_isAbsolute {p : Path} (h : p.isAbsolute = true) :
    p.components = .root :: named p.segments := by
  obtain ⟨rest, hrest⟩ : ∃ rest, p.chars = '/' :: rest := by
    rw [isAbsolute, beq_iff_eq] at h
    exact List.head?_eq_some_iff.1 h
  have spelled : p = ⟨'/' :: rest⟩ := by rw [← hrest]
  rw [spelled, components_slash, segments, Text.splitOn_cons_self]
  rfl

theorem components_dot {body : List Char} (h : body = [] ∨ body.head? = some '/') :
    components ⟨'.' :: body⟩ = .here :: named (body.splitOn '/') := by
  obtain rfl | h := h
  · rfl
  · obtain ⟨rest, rfl⟩ := List.head?_eq_some_iff.1 h
    have dot : '/' ∉ ['.'] := by decide
    have hsplit : ('.' :: '/' :: rest).splitOn '/' = ['.'] :: rest.splitOn '/' :=
      List.splitOn_append_cons_self_of_not_mem dot rest
    simp only [components, segments, hsplit, Text.splitOn_cons_self]
    rfl

/-- The components of a spelled path are those of its anchor and of its
segments. -/
theorem Anchored.components_eq {anchor : List Char} {segments : List (List Char)}
    (h : Anchored anchor segments) (noSlash : ∀ x ∈ segments, '/' ∉ x) :
    components ⟨anchor ++ ['/'].intercalate segments⟩ =
      anchorComponents anchor ++ named segments := by
  cases h with
  | root => rw [List.singleton_append, components_slash, named_splitOn_intercalate noSlash]; rfl
  | here first =>
      rw [List.singleton_append, components_dot, named_splitOn_intercalate noSlash]
      · rfl
      · rcases segments with _ | ⟨x, _ | ⟨y, ys⟩⟩
        · exact .inl rfl
        · exact .inl (by simp [first x rfl])
        · exact .inr (by simp [first x rfl])
  | bare notDot notSlash =>
      rcases segments with _ | ⟨x, xs⟩
      · rfl
      · have hsplit : Path.segments ⟨['/'].intercalate (x :: xs)⟩ = x :: xs :=
          List.splitOn_intercalate '/' noSlash (by simp)
        rw [List.nil_append, components, hsplit]
        split
        · next heq =>
          cases heq
          exact absurd (notSlash rfl) (by simp)
        · next heq =>
          cases heq
          exact absurd rfl notDot
        · rfl

/-- Fewer segments can stand there as well. -/
theorem Anchored.of_prefix {anchor : List Char} {segments kept : List (List Char)}
    (h : Anchored anchor segments) (hkept : kept <+: segments) : Anchored anchor kept := by
  obtain ⟨dropped, rfl⟩ := hkept
  rcases kept with _ | ⟨x, xs⟩
  · cases h with
    | root => exact .root
    | here => exact .here (by simp)
    | bare => exact .bare (by simp) (by simp)
  · cases h with
    | root => exact .root
    | here first => exact .here first
    | bare notDot notSlash =>
        refine .bare notDot fun hx => ?_
        exact (List.append_eq_nil_iff.1 (notSlash hx)).1

/-- Every path is spelled so. -/
theorem anchored (p : Path) : Anchored p.anchor p.bodySegments := by
  obtain ⟨chars⟩ := p
  unfold bodySegments anchor
  split
  · exact .root
  · next h => exact .here (by simp [show chars = ['.'] from h])
  · next rest h =>
    exact .here (by simp [show chars = '.' :: '/' :: rest from h, Text.splitOn_cons_self])
  · next noRoot noDot noDotSlash =>
    rw [List.length_nil, List.drop_zero]
    obtain ⟨x, xs, hsplit⟩ := List.exists_cons_of_ne_nil (List.splitOn_ne_nil '/' chars)
    have spelled : ['/'].intercalate (x :: xs) = chars := by
      rw [← hsplit, List.intercalate_splitOn]
    rw [hsplit]
    constructor
    · rintro hx
      obtain rfl := Option.some.inj hx
      cases xs with
      | nil => exact noDot (by simpa using spelled.symm)
      | cons y ys => exact noDotSlash _ (by simpa using spelled.symm)
    · rintro hx
      obtain rfl := Option.some.inj hx
      cases xs with
      | nil => rfl
      | cons y ys => exact absurd spelled.symm (by simpa using noRoot _)

/-- The components of a path. -/
theorem components_eq_anchor (p : Path) :
    p.components = anchorComponents p.anchor ++ named p.bodySegments := by
  have spelled : p = ⟨p.anchor ++ ['/'].intercalate p.bodySegments⟩ := by
    rw [bodySegments, List.intercalate_splitOn, anchor_append_drop]
  have hcomponents := p.anchored.components_eq fun x hx => Text.notMem_of_mem_splitOn hx
  rwa [← spelled] at hcomponents

/-- Behind the first component there are only names and pairs of dots. -/
theorem mem_named_of_mem_tail {p : Path} {c : Component} (h : c ∈ p.components.tail) :
    c ∈ named p.bodySegments := by
  rw [components_eq_anchor] at h
  obtain ⟨hroot, -⟩ | hhere | hbare := anchorComponents_cases p.anchor
  · rwa [hroot] at h
  · rwa [hhere] at h
  · rw [hbare] at h
    exact List.mem_of_mem_tail h

/-- A path is absolute if the root comes first in it. -/
theorem isAbsolute_iff_head? {p : Path} :
    p.isAbsolute = true ↔ p.components.head? = some .root := by
  constructor
  · intro h
    rw [components_of_isAbsolute h]
    rfl
  · intro h
    rw [components_eq_anchor] at h
    obtain ⟨-, hslash⟩ | hhere | hbare := anchorComponents_cases p.anchor
    · have spelled := p.anchor_append_drop
      rw [hslash] at spelled
      rw [isAbsolute, ← spelled]
      rfl
    · rw [hhere] at h
      cases h
    · rw [hbare, List.nil_append] at h
      obtain hup | ⟨chars, hname⟩ := eq_up_or_name_of_mem_named (List.mem_of_head? h)
      · cases hup
      · cases hname

/-! ## The path above -/

/-- The segments that are left above the last name. -/
theorem exists_named_eq_kept {xs : List (List Char)} (hne : Text.dropEndWhile isSilent xs ≠ []) :
    ∃ c, named xs =
      named (Text.dropEndWhile isSilent (Text.dropEndWhile isSilent xs).dropLast) ++ [c] := by
  have last : isSilent ((Text.dropEndWhile isSilent xs).getLast hne) = false :=
    Text.dropEndWhile_getLast (List.getLast?_eq_some_getLast hne)
  cases hc : Component.ofSegment? ((Text.dropEndWhile isSilent xs).getLast hne) with
  | none => simp [ofSegment?_eq_none_iff.1 hc] at last
  | some c =>
      refine ⟨c, ?_⟩
      have single : named [(Text.dropEndWhile isSilent xs).getLast hne] = [c] := by
        simp [named, hc]
      rw [named_dropEndWhile, ← single, ← named_append, List.dropLast_concat_getLast,
        named_dropEndWhile]

/-- The path above denotes all components but the last. -/
theorem components_of_parent? {p q : Path} (h : p.parent? = some q) :
    ∃ c, p.components = q.components ++ [c] := by
  rw [components_eq_anchor p]
  unfold parent? at h
  split at h
  · next hsilent =>
    split at h
    · next hanchor =>
      cases h
      have unnamed : named p.bodySegments = [] := by rw [← named_dropEndWhile, hsilent]; rfl
      exact ⟨.here, by rw [hanchor, unnamed]; rfl⟩
    · cases h
  · next hne =>
    cases h
    obtain ⟨c, hnamed⟩ := exists_named_eq_kept hne
    obtain ⟨run, hrun⟩ := Text.dropEndWhile_append isSilent p.bodySegments
    obtain ⟨run', hrun'⟩ :=
      Text.dropEndWhile_append isSilent (Text.dropEndWhile isSilent p.bodySegments).dropLast
    have kept : Text.dropEndWhile isSilent (Text.dropEndWhile isSilent p.bodySegments).dropLast
        <+: p.bodySegments :=
      (List.IsPrefix.trans ⟨run', hrun'⟩ (List.dropLast_prefix _)).trans ⟨run, hrun⟩
    have noSlash : ∀ x ∈ p.bodySegments, '/' ∉ x := fun x hx => Text.notMem_of_mem_splitOn hx
    refine ⟨c, ?_⟩
    rw [(p.anchored.of_prefix kept).components_eq fun x hx => noSlash x (kept.subset hx), hnamed,
      List.append_assoc]

/-- Only the root and the empty path have nothing above them. -/
theorem components_of_parent?_eq_none {p : Path} (h : p.parent? = none) :
    p.components = [] ∨ p.components = [.root] := by
  rw [components_eq_anchor p]
  unfold parent? at h
  split at h
  · next hsilent =>
    have unnamed : named p.bodySegments = [] := by rw [← named_dropEndWhile, hsilent]; rfl
    rw [unnamed, List.append_nil]
    split at h
    · cases h
    · next notDot =>
      unfold anchor at notDot ⊢
      split at notDot <;> simp_all [anchorComponents]
  · cases h

/-- The path above is absolute if and only if the path is. -/
theorem isAbsolute_of_parent? {p q : Path} (h : p.parent? = some q) :
    q.isAbsolute = p.isAbsolute := by
  rw [Bool.eq_iff_iff]
  constructor
  · intro absolute
    obtain ⟨c, hc⟩ := components_of_parent? h
    obtain ⟨rest, hrest⟩ := List.head?_eq_some_iff.1 (isAbsolute_iff_head?.1 absolute)
    rw [isAbsolute_iff_head?, hc, hrest]
    rfl
  · intro absolute
    obtain ⟨rest, hrest⟩ := List.head?_eq_some_iff.1 (beq_iff_eq.1 absolute)
    have slash : p.anchor = ['/'] := by
      rw [anchor, hrest]
      rfl
    unfold parent? at h
    split at h
    · rw [slash, if_neg (by decide)] at h
      cases h
    · cases h
      rw [slash]
      rfl

end Path

end GroovyFindings
