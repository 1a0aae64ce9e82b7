import GroovyFindings.Proofs.Disk.Kind
import GroovyFindings.Proofs.Glob.Reach

/-!
# Directories that are patterns for themselves

A directory is looked through by a pattern that its path, two asterisks and one
make.  If there are no wildcards in the path, its pieces are names, and these are
followed to the directory itself.  There is one exception: a relative path that
begins with a dot loses it, and if two slashes stand behind the dot, nothing is
left to begin with.

## Main definitions

* `Path.Literal` — paths without wildcards that do not get lost.
* `Path.pieces` — their pieces.

## Main results

* `eq_of_ofChars_literal` — the pattern of such a directory.
* `mem_paths_literal`, `exists_of_mem_paths_literal` — what it finds.
-/

namespace GroovyFindings

/-- The path says as a pattern what it says as a path: it has no wildcards, and no
empty piece stands behind dots in front of it. -/
structure Path.Literal (p : Path) : Prop where
  noStar : '*' ∉ p.chars
  noQuestion : '?' ∉ p.chars
  noBracket : '[' ∉ p.chars
  gapless : p.isAbsolute = false → (p.baseSegments.dropWhile (· = ['.'])).head? ≠ some []

/-- The segments before a name that is joined to the path, behind the slash that
an absolute path begins with. -/
def Path.pieces (p : Path) : List (List Char) :=
  if p.isAbsolute then p.baseSegments.tail else p.baseSegments

namespace Path

variable {p : Path}

theorem Literal.notMem (h : p.Literal) {c : Char} (hc : c ∈ p.chars) : c ∉ ['*', '?', '['] := by
  simp only [List.mem_cons, List.not_mem_nil, or_false]
  rintro (rfl | rfl | rfl)
  · exact h.noStar hc
  · exact h.noQuestion hc
  · exact h.noBracket hc

theorem baseSegments_eq_pieces (p : Path) :
    p.baseSegments = (if p.isAbsolute then [[]] else []) ++ p.pieces := by
  unfold pieces
  by_cases absolute : p.isAbsolute = true
  · rw [if_pos absolute, if_pos absolute]
    obtain ⟨rest, hrest⟩ : ∃ rest, p.chars = '/' :: rest :=
      List.head?_eq_some_iff.1 (beq_iff_eq.1 absolute)
    have nonempty : p.chars ≠ [] := by simp [hrest]
    have head : p.baseSegments.head? = some [] := by
      rw [head?_baseSegments nonempty, segments, hrest, Text.splitOn_cons_self]
      rfl
    obtain ⟨more, hmore⟩ := List.head?_eq_some_iff.1 head
    rw [hmore]
    rfl
  · rw [if_neg absolute, if_neg absolute, List.nil_append]

theorem mem_chars_of_mem_pieces {x : List Char} (h : x ∈ p.pieces) {c : Char} (hc : c ∈ x) :
    c ∈ p.chars ∧ c ≠ '/' := by
  have hbase : x ∈ p.baseSegments := by
    rw [baseSegments_eq_pieces]
    exact List.mem_append_right _ h
  obtain ⟨slashes, hslashes, -⟩ := p.exists_segments_eq_base
  have hsegment : x ∈ p.segments := hslashes ▸ List.mem_append_left _ hbase
  refine ⟨?_, ?_⟩
  · exact p.intercalate_segments ▸ Text.mem_intercalate hsegment hc
  · rintro rfl
    exact Text.notMem_of_mem_splitOn hsegment hc

end Path

open GroovyFindings.Path (named)

namespace Glob

variable {d : Disk} {p f : Path} {names : List (List Char)}

/-! ## The pattern of a directory -/

theorem tokensFrom_plain {text : List Char} (h : ∀ c ∈ text, c ∉ ['*', '?', '[']) (position : Nat)
    (before : Option Char) : tokensFrom position before text = .ok (text.map .char) := by
  induction text generalizing position before with
  | nil => rw [tokensFrom]; rfl
  | cons c text ih =>
      have hc := h c (List.mem_cons_self ..)
      simp only [List.mem_cons, List.not_mem_nil, or_false, not_or] at hc
      rw [tokensFrom, if_neg hc.1, if_neg hc.2.1, if_neg hc.2.2,
        ih fun x hx => h x (List.mem_cons_of_mem _ hx)]
      rfl

theorem plainChars?_map (text : List Char) : plainChars? (text.map .char) = some text := by
  induction text with
  | nil => rfl
  | cons c text ih => rw [List.map_cons, plainChars?, ih]; rfl

/-- The piece that a text is. -/
theorem piece_plain {text : List Char} (h : ∀ c ∈ text, c ∉ ['*', '?', '[']) :
    (tokens text).map Piece.ofTokens = .ok (.literal text) := by
  have piece : Piece.ofTokens (text.map .char) = .literal text := by
    simp only [Piece.ofTokens, plainChars?_map]
  rw [tokens, tokensFrom_plain h]
  exact congrArg Except.ok piece

theorem piece_dirs : (tokens ['*', '*']).map Piece.ofTokens = .ok .dirs := by
  cbv

theorem piece_any : (tokens ['*']).map Piece.ofTokens = .ok (.wild [.anyName]) := by
  cbv

theorem mapM_pieces {xs : List (List Char)} (h : ∀ x ∈ xs, ∀ c ∈ x, c ∉ ['*', '?', '[']) :
    (xs ++ [['*', '*'], ['*']]).mapM (fun part => (tokens part).map Piece.ofTokens) =
      .ok (xs.map .literal ++ anyBelow) := by
  induction xs with
  | nil =>
      rw [List.nil_append, List.mapM_cons, piece_dirs, List.mapM_cons, piece_any]
      rfl
  | cons x xs ih =>
      rw [List.cons_append, List.mapM_cons, piece_plain (h x (List.mem_cons_self ..)),
        ih fun y hy => h y (List.mem_cons_of_mem _ hy)]
      rfl

/-- The pieces of the pattern. -/
theorem splitPieces_pattern (p : Path) :
    splitPieces (if p.isAbsolute then ((p.child "**").child "*").chars.drop 1
      else ((p.child "**").child "*").chars) = p.pieces ++ [['*', '*'], ['*']] := by
  have hstars : '/' ∉ "**".toList := by decide
  have hstar : '/' ∉ "*".toList := by decide
  have hsegments : ((p.child "**").child "*").chars.splitOn '/' =
      p.baseSegments ++ [['*', '*'], ['*']] := by
    have hbase : (p.child "**").baseSegments = p.baseSegments ++ ["**".toList] :=
      Path.baseSegments_join hstars (by decide)
    have hchild := Path.segments_child (p := p.child "**") hstar
    rw [hbase, List.append_assoc] at hchild
    exact hchild
  have kept : ∀ {text : List Char}, text.splitOn '/' = p.pieces ++ [['*', '*'], ['*']] →
      splitPieces text = p.pieces ++ [['*', '*'], ['*']] := by
    intro text htext
    have last : (p.pieces ++ [['*', '*'], ['*']]).getLast? ≠ some [] := by simp
    simp only [splitPieces, htext, if_neg last]
  rw [Path.baseSegments_eq_pieces] at hsegments
  by_cases absolute : p.isAbsolute = true
  · rw [if_pos absolute] at hsegments ⊢
    obtain ⟨rest, hrest⟩ : ∃ rest, ((p.child "**").child "*").chars = '/' :: rest := by
      have habs : ((p.child "**").child "*").isAbsolute = true := by
        rw [Path.isAbsolute_child hstar, Path.isAbsolute_child hstars, absolute]
      exact List.head?_eq_some_iff.1 (beq_iff_eq.1 habs)
    rw [hrest, Text.splitOn_cons_self] at hsegments
    rw [hrest, List.drop_one, List.tail_cons]
    exact kept (List.cons.inj hsegments).2
  · rw [if_neg absolute] at hsegments ⊢
    exact kept hsegments

/-- The pattern of a directory begins with the pieces of its path. -/
theorem eq_of_ofChars_literal (literal : p.Literal) {pattern : Pattern}
    (h : Pattern.ofChars ((p.child "**").child "*").chars = .ok pattern) :
    pattern = ⟨startOf p.isAbsolute, p.pieces.map .literal ++ anyBelow⟩ := by
  have sameStart : Path.isAbsolute ⟨((p.child "**").child "*").chars⟩ = p.isAbsolute := by
    show ((p.child "**").child "*").isAbsolute = p.isAbsolute
    rw [Path.isAbsolute_child (by decide), Path.isAbsolute_child (by decide)]
  have plain : ∀ x ∈ p.pieces, ∀ c ∈ x, c ∉ ['*', '?', '['] :=
    fun x hx c hc => literal.notMem (Path.mem_chars_of_mem_pieces hx hc).1
  unfold Pattern.ofChars at h
  obtain ⟨_, -, h⟩ := exists_of_bind_eq_ok h
  simp only [sameStart, splitPieces_pattern, mapM_pieces plain] at h
  cases h
  cases p.isAbsolute <;> rfl

/-! ## What is found -/

theorem gapless_of_literal (literal : p.Literal) : Gapless (startOf p.isAbsolute) p.pieces := by
  intro same
  cases absolute : p.isAbsolute with
  | true =>
      rw [absolute] at same
      exact absurd same (by decide)
  | false =>
      rw [Path.pieces, absolute]
      exact literal.gapless absolute

theorem slash_notMem_pieces : ∀ x ∈ p.pieces, '/' ∉ x :=
  fun _ hx hc => (Path.mem_chars_of_mem_pieces hx hc).2 rfl

/-- The path of the directory as the pattern spells it. -/
theorem reached_pieces (literal : p.Literal) :
    Reached p.isAbsolute p.pieces (p.pieces.foldl entry (startOf p.isAbsolute)) :=
  (reached_start p.isAbsolute).foldl slash_notMem_pieces (gapless_of_literal literal)

/-- The path of a file is made of segments that lead to it. -/
theorem leadsToFile (hne : names ≠ []) (proper : ∀ name ∈ names, Path.Proper name)
    (isFile : d.isFile (p.below names) = true) :
    LeadsToFile d p.isAbsolute (p.pieces ++ names) := by
  obtain ⟨place, content, found⟩ := Disk.resolve_of_isFile isFile
  obtain ⟨noNul, nonempty, fits⟩ := Disk.of_resolve_eq_ok found
  have absolute : (p.below names).isAbsolute = p.isAbsolute :=
    Path.isAbsolute_below fun x hx => (proper x hx).2
  have segments := Path.segments_below (p := p) hne proper
  have joined := (p.below names).intercalate_segments
  rw [Disk.resolve_eq_walk noNul nonempty fits, Disk.start, absolute] at found
  rw [segments, Path.baseSegments_eq_pieces, List.append_assoc] at found
  rw [segments, Path.baseSegments_eq_pieces, List.append_assoc] at joined
  refine ⟨?_, ?_, place, content, ?_⟩
  · intro x hx hc
    exact noNul (joined ▸ Text.mem_intercalate (List.mem_append_right _ hx) hc)
  · have bytes := Path.byteLength_intercalate (List.append_ne_nil_of_right_ne_nil
      (if p.isAbsolute then [[]] else []) (List.append_ne_nil_of_right_ne_nil p.pieces hne))
    rw [joined, Path.room_append] at bytes
    have front : Path.room (if p.isAbsolute then [[]] else []) = if p.isAbsolute then 1 else 0 := by
      cases p.isAbsolute <;> rfl
    omega
  · cases habs : p.isAbsolute with
    | true =>
        rw [habs] at found
        have slash : d.walk true Disk.maxLinks [] ([] :: (p.pieces ++ names)) =
            .ok (.found place (.file content)) := found
        rwa [Disk.walk_silent (.inl rfl)] at slash
    | false =>
        rw [habs] at found
        exact found

/-- The path of what the names lead to from the directory, as the pattern spells
it. -/
def spelled (p : Path) (names : List (List Char)) : Path :=
  names.foldl entry (p.pieces.foldl entry (startOf p.isAbsolute))

/-- That path denotes what the names lead to, without a dot in front. -/
theorem components_spelled (literal : p.Literal) (hne : names ≠ [])
    (proper : ∀ name ∈ names, Path.Proper name) :
    (spelled p names).components = (p.below names).undotted := by
  have pieces : named p.pieces = named p.segments := by
    rw [← Path.named_baseSegments, Path.baseSegments_eq_pieces, Path.named_append]
    cases p.isAbsolute <;> rfl
  rw [spelled, (reached_pieces literal).components_foldl hne proper, pieces, ← Path.undotted_eq,
    Path.undotted_below hne proper]

theorem fileName?_spelled (literal : p.Literal) (hne : names ≠ [])
    (proper : ∀ name ∈ names, Path.Proper name) : (spelled p names).fileName?.isSome = true := by
  obtain ⟨before, name, rfl⟩ : ∃ before name, names = before ++ [name] :=
    ⟨_, _, (List.dropLast_concat_getLast hne).symm⟩
  have last : (spelled p (before ++ [name])).components.getLast? = some (.name name) := by
    rw [components_spelled literal hne proper, Path.undotted_below hne proper]
    simp
  rw [Path.fileName?, last]
  rfl

/-- Every file below the directory is found. -/
theorem mem_paths_literal (literal : p.Literal) (hne : names ≠ [])
    (proper : ∀ name ∈ names, Path.Proper name) (isFile : d.isFile (p.below names) = true) :
    spelled p names ∈
        Pattern.paths d ⟨startOf p.isAbsolute, p.pieces.map .literal ++ anyBelow⟩ ∧
      d.isFile (spelled p names) = true := by
  have leads := leadsToFile hne proper isFile
  obtain ⟨down, isFile'⟩ := leads.down hne proper (reached_pieces literal)
  refine ⟨?_, isFile'⟩
  have deep : names.length ≤ Disk.maxPath + 3 := by
    have hroom := Path.length_le_room names
    have hfits := leads.fits
    rw [Path.room_append] at hfits
    omega
  have ends : ∃ y ∈ names, y ≠ [] := by
    obtain ⟨name, rest, rfl⟩ := List.exists_cons_of_ne_nil hne
    exact ⟨name, by simp, (proper name (by simp)).ne_nil⟩
  have inside := mem_below_of_down down (fileName?_spelled literal hne proper) deep
  have found := mem_below_literals (by decide) leads ends (reached_start p.isAbsolute)
    slash_notMem_pieces (gapless_of_literal literal) inside
  have depth : Disk.maxPath + (p.pieces.map Piece.literal ++ anyBelow).length + 1 =
      Disk.maxPath + 3 + p.pieces.length := by
    simp only [List.length_append, List.length_map, anyBelow, List.length_cons, List.length_nil]
    omega
  rw [Pattern.paths, depth]
  exact found

/-- What is found lies below the directory, by names of the disk. -/
theorem exists_of_mem_paths_literal
    (h : f ∈ Pattern.paths d ⟨startOf p.isAbsolute, p.pieces.map .literal ++ anyBelow⟩) :
    ∃ names, f = spelled p names ∧ names ≠ [] ∧
      ∀ name ∈ names, ∃ e ∈ d.entries, name ∈ e.1 := by
  obtain ⟨depth, hbelow⟩ := exists_of_mem_below_literals (by decide) h
  obtain ⟨names, down⟩ := down_of_mem_below hbelow
  exact ⟨names, down.eq_foldl, down.ne_nil, down.exists_entry⟩

end Glob

end GroovyFindings
