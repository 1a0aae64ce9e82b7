import GroovyFindings.Glob.Walk
import GroovyFindings.Proofs.Path.Child

/-!
# How the paths of a pattern are spelled

The paths that fit a pattern are found by joining names to the path where the
pattern begins.  So on a disk whose names have no slashes in them a path found
from the root has one slash before each name and no others, however the pattern
was spelled.

## Main definitions

* `Path.Tidy` — a path from the root with one slash before each name.
* `Disk.NamesPlain` — the names on a disk have no slashes in them.

## Main results

* `below_tidy`, `Pattern.paths_tidy` — the paths of a pattern are tidy.
-/

namespace GroovyFindings

/-! ## Tidy paths -/

/-- A path from the root with one slash before each name, and perhaps one at the
end. -/
def Path.Tidy (p : Path) : Prop :=
  ∃ names, p.baseSegments = [] :: names ∧ ∀ name ∈ names, name ≠ []

namespace Path.Tidy

variable {p : Path}

theorem root : Tidy ⟨['/']⟩ := ⟨[], rfl, by simp⟩

theorem exists_chars_eq (h : p.Tidy) : ∃ rest, p.chars = '/' :: rest := by
  obtain ⟨names, hbase, -⟩ := h
  have spelled : ['/'].intercalate p.segments = p.chars := by simp [segments]
  obtain hsegments | hsegments := p.segments_eq_base_or
  · rw [hsegments, hbase] at spelled
    cases names with
    | nil =>
        have empty : p.chars = [] := by simpa using spelled.symm
        simp [baseSegments, segments, empty] at hbase
    | cons name names => exact ⟨_, by simpa using spelled.symm⟩
  · rw [hsegments, hbase] at spelled
    cases names with
    | nil => exact ⟨_, by simpa using spelled.symm⟩
    | cons name names => exact ⟨_, by simpa using spelled.symm⟩

theorem not_sameAs_here (h : p.Tidy) : ¬ p.SameAs ⟨['.']⟩ := by
  obtain ⟨rest, hrest⟩ := h.exists_chars_eq
  have hp : p = ⟨'/' :: rest⟩ := by rw [← hrest]
  rw [SameAs, hp, components_slash]
  intro same
  have head := congrArg List.head? same
  cases head

/-- Joining names keeps a path tidy. -/
theorem join (h : p.Tidy) {name : List Char} (noSlash : '/' ∉ name) : (p.join ⟨name⟩).Tidy := by
  obtain ⟨names, hbase, hnames⟩ := h
  by_cases hname : name = []
  · subst hname
    exact ⟨names, by rw [baseSegments_join_nil, hbase], hnames⟩
  · refine ⟨names ++ [name], by rw [baseSegments_join noSlash hname, hbase]; rfl, ?_⟩
    intro x hx
    obtain hx | hx := List.mem_append.1 hx
    · exact hnames x hx
    · exact List.mem_singleton.1 hx ▸ hname

end Path.Tidy

/-- The names on the disk have no slashes in them. -/
def Disk.NamesPlain (d : Disk) : Prop := ∀ e ∈ d.entries, ∀ name ∈ e.1, '/' ∉ name

instance (d : Disk) : Decidable d.NamesPlain :=
  inferInstanceAs (Decidable (∀ e ∈ d.entries, ∀ name ∈ e.1, '/' ∉ name))

/-! ## Maps that may fail -/

section Map

variable {ε α β : Type}

theorem exists_of_map_eq_ok {e : Except ε α} {f : α → β} {y : β} (h : e.map f = .ok y) :
    ∃ x, e = .ok x ∧ f x = y := by
  cases e with
  | error e => cases h
  | ok x => exact ⟨x, rfl, by cases h; rfl⟩

theorem exists_of_bind_eq_ok {e : Except ε α} {f : α → Except ε β} {y : β}
    (h : e >>= f = .ok y) : ∃ x, e = .ok x ∧ f x = .ok y := by
  cases e with
  | error e => cases h
  | ok x => exact ⟨x, rfl, h⟩

/-- What a list is mapped to without an error comes from its elements. -/
theorem exists_of_mem_mapM {f : α → Except ε β} {xs : List α} {ys : List β}
    (h : xs.mapM f = .ok ys) : ∀ y ∈ ys, ∃ x ∈ xs, f x = .ok y := by
  induction xs generalizing ys with
  | nil =>
      cases h
      simp
  | cons x xs ih =>
      rw [List.mapM_cons] at h
      obtain ⟨y, hy, h⟩ := exists_of_bind_eq_ok h
      obtain ⟨ys, hys, h⟩ := exists_of_bind_eq_ok h
      cases h
      intro z hz
      obtain rfl | hz := List.mem_cons.1 hz
      · exact ⟨x, by simp, hy⟩
      · obtain ⟨x', hx', hz⟩ := ih hys z hz
        exact ⟨x', by simp [hx'], hz⟩

/-- Every element of a list is mapped to something, if there is no error. -/
theorem exists_mem_of_mapM {f : α → Except ε β} {xs : List α} {ys : List β}
    (h : xs.mapM f = .ok ys) : ∀ x ∈ xs, ∃ y ∈ ys, f x = .ok y := by
  induction xs generalizing ys with
  | nil => simp
  | cons x xs ih =>
      rw [List.mapM_cons] at h
      obtain ⟨y, hy, h⟩ := exists_of_bind_eq_ok h
      obtain ⟨ys, hys, h⟩ := exists_of_bind_eq_ok h
      cases h
      intro z hz
      obtain rfl | hz := List.mem_cons.1 hz
      · exact ⟨y, by simp, hy⟩
      · obtain ⟨y', hy', hz⟩ := ih hys z hz
        exact ⟨y', by simp [hy'], hz⟩

end Map

namespace Glob

variable {d : Disk} {path p : Path} {pieces : List Piece}
  {follow : List Piece → Path → List Path}

/-- A name of a piece has no slash in it. -/
def Piece.Plain : Piece → Prop
  | .literal name => '/' ∉ name
  | .dirs | .wild _ => True

/-! ## One step down -/

theorem entry_tidy (h : path.Tidy) {name : List Char} (noSlash : '/' ∉ name) :
    (entry path name).Tidy := by
  rw [entry, if_neg h.not_sameAs_here]
  exact h.join noSlash

/-- The entries of a directory are tidy paths. -/
theorem tidy_of_mem_entries (plain : d.NamesPlain) (h : path.Tidy) (hp : p ∈ entries d path) :
    p.Tidy := by
  unfold entries at hp
  split at hp
  · obtain ⟨name, hname, rfl⟩ := List.mem_map.1 hp
    obtain ⟨e, he, hlast⟩ := List.mem_filterMap.1 hname
    split at hlast
    · exact entry_tidy h (plain e he name (List.mem_of_getLast? hlast))
    · cases hlast
  · cases hp

theorem slash_notMem_acceptedDots {piece : Piece} {name : List Char}
    (h : name ∈ acceptedDots piece) : '/' ∉ name := by
  have among : name ∈ dots := by
    unfold acceptedDots at h
    split at h
    · exact (List.mem_filter.1 h).1
    · cases h
  simp only [dots, List.mem_cons, List.not_mem_nil, or_false] at among
  obtain rfl | rfl := among <;> decide

/-- What fits is the path itself, or is found below it with the pieces that are
left. -/
theorem eq_or_mem_follow_of_mem_fitting (hp : p ∈ fitting follow path pieces) :
    p = path ∨ ∃ rest, (∀ x ∈ rest, x ∈ pieces) ∧ p ∈ follow rest path := by
  cases pieces with
  | nil => cases hp
  | cons piece rest =>
      cases rest with
      | nil =>
          rw [fitting] at hp
          split at hp
          · exact .inl (List.mem_singleton.1 hp)
          · cases hp
      | cons next rest =>
          rw [fitting] at hp
          · split at hp
            · exact .inr ⟨_, fun x hx => List.mem_cons_of_mem _ hx, hp⟩
            · cases hp
          · simp

theorem eq_or_mem_follow_of_mem_visit (hp : p ∈ visit d follow pieces path) :
    p = path ∨ ∃ rest, (∀ x ∈ rest, x ∈ pieces) ∧ p ∈ follow rest path := by
  unfold visit at hp
  split at hp
  · next rest =>
    have onward : ∀ x ∈ (Piece.dirs :: rest).dropWhile (· = .dirs), x ∈ Piece.dirs :: rest :=
      fun x hx => (List.dropWhile_sublist _).subset hx
    have further : p ∈ fitting follow path ((Piece.dirs :: rest).dropWhile (· = .dirs)) →
        p = path ∨ ∃ rest', (∀ x ∈ rest', x ∈ Piece.dirs :: rest) ∧ p ∈ follow rest' path := by
      intro hfit
      obtain rfl | ⟨rest', hrest, hfollow⟩ := eq_or_mem_follow_of_mem_fitting hfit
      · exact .inl rfl
      · exact .inr ⟨rest', fun x hx => onward x (hrest x hx), hfollow⟩
    split at hp
    · obtain hp | hp := List.mem_append.1 hp
      · refine .inr ⟨_, ?_, hp⟩
        simpa using fun x hx => List.mem_cons.1 (onward x hx)
      · split at hp
        · exact .inl (List.mem_singleton.1 hp)
        · exact further hp
    · exact further hp
  · exact eq_or_mem_follow_of_mem_fitting hp

/-! ## All the way down -/

/-- The paths below a tidy path are tidy. -/
theorem below_tidy (plain : d.NamesPlain) {depth : Nat} (pieces : List Piece) (path : Path)
    (hpieces : ∀ piece ∈ pieces, piece.Plain) (h : path.Tidy) (hp : p ∈ below d depth pieces path) :
    p.Tidy := by
  induction depth generalizing pieces path with
  | zero => cases hp
  | succ depth ih =>
      cases pieces with
      | nil => cases hp
      | cons piece rest =>
          have later : ∀ x ∈ rest, x.Plain := fun x hx => hpieces x (List.mem_cons_of_mem _ hx)
          have onward : ∀ {next : Path} {paths : List Path}, next.Tidy →
              paths = [next] ∨ paths = below d depth rest next → p ∈ paths → p.Tidy := by
            rintro next _ hnext (rfl | rfl) hp
            · exact List.mem_singleton.1 hp ▸ hnext
            · exact ih _ next later hnext hp
          have around : ∀ {dotted : List Char → List Path},
              (∀ name, dotted name = [path.join ⟨name⟩] ∨
                dotted name = below d depth rest (path.join ⟨name⟩)) →
              p ∈ (entries d path).flatMap (visit d (below d depth) (piece :: rest)) ++
                (if d.isDir path then (acceptedDots piece).flatMap dotted else []) → p.Tidy := by
            intro dotted hdotted hp
            obtain hp | hp := List.mem_append.1 hp
            · obtain ⟨next, hnext, hp⟩ := List.mem_flatMap.1 hp
              have hnext := tidy_of_mem_entries plain h hnext
              obtain rfl | ⟨pieces, hsub, hp⟩ := eq_or_mem_follow_of_mem_visit hp
              · exact hnext
              · exact ih pieces next (fun x hx => hpieces x (hsub x hx)) hnext hp
            · split at hp
              · obtain ⟨name, hname, hp⟩ := List.mem_flatMap.1 hp
                exact onward (h.join (slash_notMem_acceptedDots hname)) (hdotted name) hp
              · cases hp
          cases piece with
          | literal name =>
              simp only [below] at hp
              split at hp
              · refine onward (entry_tidy h (hpieces _ (List.mem_cons_self ..))) ?_ hp
                cases rest <;> simp
              · cases hp
          | dirs => exact around (fun name => by cases rest <;> simp) hp
          | wild ts => exact around (fun name => by cases rest <;> simp) hp

/-! ## The pieces of a pattern -/

/-- Brackets stand for a range. -/
theorem bracket?_token {text after : List Char} {token : Token}
    (h : bracket? text = some (token, after)) :
    ∃ rs, token = .oneOf rs ∨ token = .noneOf rs := by
  unfold bracket? at h
  split at h
  · obtain ⟨r, -, he⟩ := Option.map_eq_some_iff.1 h
    cases he
    exact ⟨_, .inr rfl⟩
  · obtain ⟨r, -, he⟩ := Option.map_eq_some_iff.1 h
    cases he
    exact ⟨_, .inl rfl⟩

/-- A text without wildcards among its tokens is read as it is. -/
theorem eq_of_plainChars? {position : Nat} {before : Option Char} {text name : List Char}
    {ts : List Token} (h : tokensFrom position before text = .ok ts)
    (hname : plainChars? ts = some name) : name = text := by
  fun_induction tokensFrom position before text generalizing ts name with
  | case1 =>
      cases h
      cases hname
      rfl
  | case9 _ _ c rest _ _ _ ih =>
      obtain ⟨ts, hts, rfl⟩ := exists_of_map_eq_ok h
      obtain ⟨name', hname', rfl⟩ := Option.map_eq_some_iff.1 hname
      rw [ih hts hname']
  | case7 _ _ rest token after bracket =>
      obtain ⟨ts, -, rfl⟩ := exists_of_map_eq_ok h
      obtain ⟨range, rfl | rfl⟩ := bracket?_token bracket <;> cases hname
  | case2 | case3 | case6 =>
      obtain ⟨ts, -, rfl⟩ := exists_of_map_eq_ok h
      cases hname
  | case4 | case5 | case8 => cases h

/-- The pieces of a pattern have no slashes in their names. -/
theorem plain_of_tokens {part : List Char} {ts : List Token} (h : tokens part = .ok ts)
    (noSlash : '/' ∉ part) : (Piece.ofTokens ts).Plain := by
  unfold Piece.ofTokens
  split
  · next name hname =>
    rw [eq_of_plainChars? h hname]
    exact noSlash
  · split <;> trivial

theorem mem_of_mem_splitPieces {text part : List Char} (h : part ∈ splitPieces text) :
    part ∈ text.splitOn '/' := by
  dsimp only [splitPieces] at h
  split at h
  · exact (List.dropLast_sublist _).subset h
  · exact h

/-- A pattern whose text begins with a slash begins in the root. -/
theorem of_ofChars_eq_ok {text : List Char} {pattern : Pattern}
    (h : Pattern.ofChars text = .ok pattern) (absolute : text.head? = some '/') :
    pattern.start = ⟨['/']⟩ ∧ ∀ piece ∈ pattern.pieces, piece.Plain := by
  have isAbsolute : Path.isAbsolute ⟨text⟩ = true := by simpa [Path.isAbsolute] using absolute
  unfold Pattern.ofChars at h
  obtain ⟨_, -, h⟩ := exists_of_bind_eq_ok h
  obtain ⟨pieces, hpieces, h⟩ := exists_of_bind_eq_ok h
  cases h
  refine ⟨by simp [isAbsolute], ?_⟩
  intro piece hpiece
  obtain ⟨part, hpart, h⟩ := exists_of_mem_mapM hpieces piece hpiece
  obtain ⟨ts, hts, rfl⟩ := exists_of_map_eq_ok h
  exact plain_of_tokens hts (Text.notMem_of_mem_splitOn (mem_of_mem_splitPieces hpart))

/-- On a disk with plain names the paths of a pattern from the root are tidy. -/
theorem Pattern.paths_tidy (plain : d.NamesPlain) {text : List Char} {pattern : Pattern}
    (h : Pattern.ofChars text = .ok pattern) (absolute : text.head? = some '/')
    (hp : p ∈ pattern.paths d) : p.Tidy := by
  obtain ⟨hstart, hpieces⟩ := of_ofChars_eq_ok h absolute
  exact below_tidy plain _ _ hpieces (hstart ▸ Path.Tidy.root) hp

end Glob

end GroovyFindings
