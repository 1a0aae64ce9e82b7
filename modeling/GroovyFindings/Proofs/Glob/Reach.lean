import GroovyFindings.Proofs.Disk.Entry
import GroovyFindings.Proofs.Glob.Descent
import GroovyFindings.Proofs.Path.Below

/-!
# What a pattern without wildcards in front reaches

A pattern of names, then two asterisks and one, is followed name by name and
then into every directory.  The path that has been reached after some pieces is
spelled like these pieces, but for empty ones and for dots in front, so that it
leads where they lead.  Every file that can be followed to by more names is then
found, and what is found lies further down by names of the disk.

## Main definitions

* `Reached` — the path after some pieces.
* `LeadsToFile` — segments that lead to a file.
* `Down` — a path and the names on the disk that lead down to another.

## Main results

* `Reached.step`, `Reached.foldl` — one more piece, and several.
* `Reached.components_foldl` — what the path denotes behind names.
* `LeadsToFile.down` — on the way to a file there are directories.
* `mem_below_literals`, `exists_of_mem_below_literals` — names in a pattern.
* `mem_below_of_down`, `down_of_mem_below` — two asterisks and one.
-/

namespace GroovyFindings

open GroovyFindings.Path (isSilent named)

/-! ## Room for segments -/

/-- The number of bytes of segments, each with a slash. -/
def Path.room : (segments : List (List Char)) → Nat
  | [] => 0
  | segment :: rest => Utf8.byteLength segment + 1 + room rest

theorem Path.room_append (xs ys : List (List Char)) :
    room (xs ++ ys) = room xs + room ys := by
  induction xs with
  | nil => rw [List.nil_append, room, Nat.zero_add]
  | cons x xs ih => rw [List.cons_append, room, ih, room, ← Nat.add_assoc]

theorem Path.room_concat (xs : List (List Char)) (x : List Char) :
    room (xs ++ [x]) = room xs + (Utf8.byteLength x + 1) := room_append xs [x]

theorem Path.length_le_room (xs : List (List Char)) : xs.length ≤ room xs := by
  induction xs with
  | nil => exact Nat.zero_le _
  | cons x xs ih =>
      rw [List.length_cons, room]
      omega

/-- Behind the last segment there is no slash. -/
theorem Path.byteLength_intercalate {xs : List (List Char)} (h : xs ≠ []) :
    Utf8.byteLength (['/'].intercalate xs) + 1 = room xs := by
  induction xs with
  | nil => exact absurd rfl h
  | cons x xs ih =>
      cases xs with
      | nil => rw [List.intercalate_singleton, room, room, Nat.add_zero]
      | cons y ys =>
          have hrest := ih (List.cons_ne_nil y ys)
          have slash : Utf8.byteLength ['/'] = 1 := rfl
          rw [List.intercalate_cons_cons, Utf8.byteLength_append, Utf8.byteLength_append, slash]
          rw [room]
          omega

namespace Glob

variable {d : Disk} {a : Bool} {seen left : List (List Char)} {p q : Path} {x : List Char}

/-! ## The path after some pieces -/

/-- The path where a pattern begins. -/
def startOf (a : Bool) : Path := if a then ⟨['/']⟩ else ⟨['.']⟩

/-- The number of bytes before a name that is joined to the path. -/
def lead (q : Path) : Nat :=
  if q.SameAs ⟨['.']⟩ then 0
  else Utf8.byteLength q.chars + if q.chars.getLast? = some '/' then 0 else 1

/-- The path is what the pieces in `seen` lead to from the root, or from the
current directory. -/
structure Reached (a : Bool) (seen : List (List Char)) (q : Path) : Prop where
  nonempty : q.chars ≠ []
  absolute : q.isAbsolute = a
  /-- The path has the same names in it. -/
  noisy : q.segments.filter (!isSilent ·) = seen.filter (!isSilent ·)
  /-- A dot does not stand before a name. -/
  dot : q.SameAs ⟨['.']⟩ ∨ .here ∉ q.components
  noNul : (∀ x ∈ seen, '\x00' ∉ x) → '\x00' ∉ q.chars
  lead_le : lead q ≤ (if a then 1 else 0) + Path.room seen
  /-- The path is not longer than the pieces. -/
  short : Utf8.byteLength q.chars ≤ 1 ∨
    Utf8.byteLength q.chars + 1 ≤ (if a then 1 else 0) + Path.room seen

theorem reached_start (a : Bool) : Reached a [] (startOf a) := by
  cases a with
  | true =>
      exact ⟨by decide, by decide, by decide, .inr (by decide), fun _ => by decide, by decide,
        .inl (by decide)⟩
  | false =>
      exact ⟨by decide, by decide, by decide, .inl (by decide), fun _ => by decide, by decide,
        .inl (by decide)⟩

theorem byteLength_entry_le (noSlash : '/' ∉ x) :
    Utf8.byteLength (entry q x).chars ≤ lead q + Utf8.byteLength x := by
  have slash : Utf8.byteLength ('/' :: x) = 1 + Utf8.byteLength x := rfl
  unfold entry lead
  split
  · exact Nat.le_add_left _ _
  · rw [Path.chars_join noSlash]
    split
    · rw [Utf8.byteLength_append]
      omega
    · next ends =>
      rw [if_neg (not_or.1 ends).2, Utf8.byteLength_append, slash]
      omega

theorem lead_le_byteLength (q : Path) : lead q ≤ Utf8.byteLength q.chars + 1 := by
  unfold lead
  split
  · exact Nat.zero_le _
  · split <;> omega

theorem here_notMem_single (noSlash : '/' ∉ x) (hx : x ≠ ['.']) :
    .here ∉ Path.components ⟨x⟩ := by
  have noFront : Path.front ⟨x⟩ = [] := by
    rw [Path.front, Path.isAbsolute_of_notMem noSlash, Path.segments_of_notMem noSlash]
    simp [hx]
  rw [Path.components_eq, noFront, List.nil_append]
  exact Path.here_notMem_named _

/-- The path of a single piece. -/
theorem reached_single (x : List Char) (nonempty : x ≠ []) (noSlash : '/' ∉ x)
    (silent : seen.filter (!isSilent ·) = []) : Reached false (seen ++ [x]) ⟨x⟩ where
  nonempty := nonempty
  absolute := Path.isAbsolute_of_notMem noSlash
  noisy := by
    rw [Path.segments_of_notMem noSlash, List.filter_append, silent, List.nil_append]
  dot := by
    by_cases hx : x = ['.']
    · exact .inl (by rw [hx]; rfl)
    · exact .inr (here_notMem_single noSlash hx)
  noNul h := h x (by simp)
  lead_le := by
    have hlead : lead ⟨x⟩ ≤ Utf8.byteLength x + 1 := lead_le_byteLength ⟨x⟩
    rw [Path.room_concat]
    omega
  short := by
    right
    rw [Path.room_concat]
    show Utf8.byteLength x + 1 ≤ _
    omega

theorem silent_of_sameAs (h : q.SameAs ⟨['.']⟩) :
    q.isAbsolute = false ∧ q.segments.filter (!isSilent ·) = [] := by
  have hcomponents : q.components = [.here] := h
  have relative : q.isAbsolute = false := by
    rw [← Bool.not_eq_true, Path.isAbsolute_iff_head?, hcomponents]
    simp
  refine ⟨relative, ?_⟩
  have hundotted : q.undotted = [] := by rw [Path.undotted, hcomponents]; rfl
  rw [Path.undotted_eq, relative] at hundotted
  rw [← Path.map_chars_named]
  exact List.map_eq_nil_iff.2 hundotted

/-- One more piece is the last segment. -/
theorem Reached.exists_segments (h : Reached a seen q) (noSlash : '/' ∉ x) :
    ∃ front, (entry q x).segments = front ++ [x] ∧
      front.filter (!isSilent ·) = seen.filter (!isSilent ·) := by
  by_cases here : q.SameAs ⟨['.']⟩
  · have silent := h.noisy.symm.trans (silent_of_sameAs here).2
    have single : (entry q x).segments = [] ++ [x] := by
      rw [entry, if_pos here, Path.segments_of_notMem noSlash, List.nil_append]
    exact ⟨[], single, silent.symm⟩
  · obtain ⟨slashes, hslashes, empty⟩ := q.exists_segments_eq_base
    have silent : slashes.filter (!isSilent ·) = [] := by
      rw [List.filter_eq_nil_iff]
      intro y hy
      rw [empty y hy]
      decide
    refine ⟨q.baseSegments, by rw [entry, if_neg here, Path.segments_join noSlash], ?_⟩
    rw [← h.noisy, hslashes, List.filter_append, silent, List.append_nil]

/-- One more piece; where the path is a single dot the piece is not empty. -/
theorem Reached.step (h : Reached a seen q) (noSlash : '/' ∉ x)
    (gap : q.SameAs ⟨['.']⟩ → x ≠ []) : Reached a (seen ++ [x]) (entry q x) := by
  by_cases here : q.SameAs ⟨['.']⟩
  · obtain ⟨relative, silent⟩ := silent_of_sameAs here
    obtain rfl : a = false := h.absolute.symm.trans relative
    rw [entry, if_pos here]
    exact reached_single x (gap here) noSlash (h.noisy.symm.trans silent)
  · have hshort := byteLength_entry_le (q := q) noSlash
    have hlead := lead_le_byteLength (entry q x)
    have hbound := h.lead_le
    have hroom := Path.room_concat seen x
    have hdot : .here ∉ q.components := h.dot.resolve_left here
    rw [entry, if_neg here] at hshort hlead ⊢
    constructor
    · rw [Path.chars_join noSlash]
      split <;> simp [h.nonempty]
    · rw [Path.isAbsolute_join noSlash, h.absolute]
    · obtain ⟨front, hfront, same⟩ := h.exists_segments noSlash
      rw [entry, if_neg here] at hfront
      rw [hfront, List.filter_append, same, List.filter_append]
    · right
      rw [Path.components_join h.nonempty noSlash, List.mem_append, not_or]
      exact ⟨hdot, Path.here_notMem_named _⟩
    · intro hnul
      have hq := h.noNul fun y hy => hnul y (by simp [hy])
      have hx := hnul x (by simp)
      rw [Path.chars_join noSlash]
      split <;> simp [hq, hx]
    · omega
    · right
      omega

theorem Reached.byteLength_le (h : Reached a seen q)
    (fits : (if a then 1 else 0) + Path.room seen ≤ Disk.maxPath + 1) :
    Utf8.byteLength q.chars ≤ Disk.maxPath := by
  obtain hone | hle := h.short
  · exact Nat.le_trans hone (by decide)
  · omega

/-- A path is a single dot after dots only. -/
theorem Reached.eq_dot_of_sameAs (h : Reached a seen q) (noSlash : '/' ∉ x)
    (same : (entry q x).SameAs ⟨['.']⟩) : q.SameAs ⟨['.']⟩ ∧ x = ['.'] := by
  have hmem : Path.Component.here ∈ (entry q x).components := by
    have hcomponents : (entry q x).components = [.here] := same
    simp [hcomponents]
  by_cases here : q.SameAs ⟨['.']⟩
  · refine ⟨here, ?_⟩
    rw [entry, if_pos here] at hmem
    by_contra hx
    exact here_notMem_single noSlash hx hmem
  · rw [entry, if_neg here, Path.components_join h.nonempty noSlash, List.mem_append] at hmem
    obtain hmem | hmem := hmem
    · exact absurd hmem (h.dot.resolve_left here)
    · exact absurd hmem (Path.here_notMem_named _)

/-- Where the path is a single dot, no empty piece stands behind more dots. -/
def Gapless (q : Path) (xs : List (List Char)) : Prop :=
  q.SameAs ⟨['.']⟩ → (xs.dropWhile (· = ['.'])).head? ≠ some []

theorem Gapless.ne_nil {xs : List (List Char)} (gap : Gapless q (x :: xs))
    (same : q.SameAs ⟨['.']⟩) : x ≠ [] := by
  rintro rfl
  exact gap same rfl

theorem Reached.gapless {xs : List (List Char)} (h : Reached a seen q) (noSlash : '/' ∉ x)
    (gap : Gapless q (x :: xs)) : Gapless (Glob.entry q x) xs := by
  intro same
  obtain ⟨here, rfl⟩ := h.eq_dot_of_sameAs noSlash same
  exact gap here

/-- Several more pieces. -/
theorem Reached.foldl {xs : List (List Char)} (h : Reached a seen q) (noSlash : ∀ x ∈ xs, '/' ∉ x)
    (gap : Gapless q xs) : Reached a (seen ++ xs) (xs.foldl entry q) := by
  induction xs generalizing seen q with
  | nil => rwa [List.append_nil]
  | cons x xs ih =>
      have first : '/' ∉ x := noSlash x (List.mem_cons_self ..)
      have hrest := ih (h.step first gap.ne_nil) (fun y hy => noSlash y (List.mem_cons_of_mem _ hy))
        (h.gapless first gap)
      rwa [List.append_assoc] at hrest

theorem named_filter (xs : List (List Char)) : named (xs.filter (!isSilent ·)) = named xs := by
  induction xs with
  | nil => rfl
  | cons x xs ih =>
      cases silent : isSilent x with
      | true =>
          have unnamed : Path.Component.ofSegment? x = none := Path.ofSegment?_eq_none_iff.2 silent
          rw [List.filter_cons_of_neg (by simp [silent]), ih, named, named,
            List.filterMap_cons_none unnamed]
      | false =>
          unfold named at ih ⊢
          rw [List.filter_cons_of_pos (by simp [silent]), List.filterMap_cons, List.filterMap_cons,
            ih]

/-- The path denotes what the pieces denote. -/
theorem Reached.undotted_eq (h : Reached a seen q) :
    q.undotted = (if a then [.root] else []) ++ named seen := by
  rw [Path.undotted_eq, h.absolute, ← named_filter q.segments, h.noisy, named_filter]

/-- Behind a name the path does not begin with a dot. -/
theorem Reached.components_eq (h : Reached a seen q) (proper : Path.Proper x) :
    (entry q x).components = (if a then [.root] else []) ++ named seen ++ [.name x] := by
  have whole := h.step proper.2 fun _ => proper.ne_nil
  have noDot : .here ∉ (entry q x).components :=
    whole.dot.resolve_left fun same => proper.ne_dot (h.eq_dot_of_sameAs proper.2 same).2
  rw [← Path.undotted_eq_components noDot, whole.undotted_eq, Path.named_append,
    proper.named_singleton, List.append_assoc]

theorem Reached.components_foldl {names : List (List Char)} (h : Reached a seen q)
    (hne : names ≠ []) (proper : ∀ name ∈ names, Path.Proper name) :
    (names.foldl entry q).components =
      (if a then [.root] else []) ++ named seen ++ names.map .name := by
  induction names generalizing seen q with
  | nil => exact absurd rfl hne
  | cons name names ih =>
      have first := proper name (List.mem_cons_self ..)
      cases names with
      | nil => exact h.components_eq first
      | cons next names =>
          have further := h.step first.2 fun _ => first.ne_nil
          rw [List.foldl_cons, ih further (List.cons_ne_nil _ _)
            fun y hy => proper y (List.mem_cons_of_mem _ hy), Path.named_append,
            first.named_singleton]
          simp

/-! ## Segments that lead to a file -/

/-- A name that can be walked over is one that an entry of the directory has. -/
theorem mem_names_of_walk {links : Nat} {here place : Place} {node : Disk.Node} {name : List Char}
    {rest : List (List Char)} (proper : Path.Proper name)
    (h : d.walk true links here (name :: rest) = .ok (.found place node)) :
    Disk.IsName name ∧ name ∈ d.names here := by
  have noisy : ¬ (name = [] ∨ name = ['.']) := not_or.2 ⟨proper.ne_nil, proper.ne_dot⟩
  have short : ¬ Disk.maxName < Utf8.byteLength name := by
    intro long
    rw [Disk.walk, if_neg noisy, if_neg proper.ne_dots, if_pos long] at h
    cases h
  have isName := Disk.isName_of_walk noisy proper.ne_dots short
  refine ⟨isName, ?_⟩
  rw [Disk.walk_name isName] at h
  cases hnode : d.node? (here ++ [name]) with
  | none =>
      simp only [hnode] at h
      split at h <;> cases h
  | some node =>
      rw [Disk.node?, if_neg (by simp), Option.map_eq_some_iff] at hnode
      obtain ⟨e, he, -⟩ := hnode
      have hplace : e.1 = here ++ [name] := by simpa using List.find?_some he
      rw [Disk.names, List.mem_filterMap]
      exact ⟨e, List.mem_of_find?_eq_some he, by simp [hplace]⟩

/-- The segments lead to a file from the root, or from the current directory. -/
structure LeadsToFile (d : Disk) (a : Bool) (segments : List (List Char)) : Prop where
  noNul : ∀ x ∈ segments, '\x00' ∉ x
  fits : (if a then 1 else 0) + Path.room segments ≤ Disk.maxPath + 1
  found : ∃ place content, d.walk true Disk.maxLinks (if a then [] else d.cwd) segments =
    .ok (.found place (.file content))

namespace LeadsToFile

/-- Before the last name there are directories only, and the path that has been
reached leads to them. -/
theorem find_eq (h : LeadsToFile d a (seen ++ left)) (ends : ∃ y ∈ left, y ≠ [])
    (reached : Reached a seen q) :
    ∃ links there, d.Enters Disk.maxLinks (if a then [] else d.cwd) seen links there ∧
      d.find true q = .ok (there, .dir) := by
  obtain ⟨place, content, found⟩ := h.found
  obtain ⟨links, there, entered⟩ := Disk.exists_enters found (.inl ends)
  refine ⟨links, there, entered, ?_⟩
  have hfits := h.fits
  rw [Path.room_append] at hfits
  have noNul := reached.noNul fun x hx => h.noNul x (List.mem_append_left _ hx)
  have fits := reached.byteLength_le (by omega)
  have start : d.start q = if a then [] else d.cwd := by rw [Disk.start, reached.absolute]
  rw [Disk.find_eq_ok_iff, Disk.resolve_eq_walk noNul reached.nonempty fits, start,
    (entered.congr reached.noisy).walk_eq]

theorem isDir (h : LeadsToFile d a (seen ++ left)) (ends : ∃ y ∈ left, y ≠ [])
    (reached : Reached a seen q) : d.isDir q = true := by
  obtain ⟨-, there, -, found⟩ := h.find_eq ends reached
  rw [Disk.isDir, Disk.status?, found]
  rfl

/-- The next name is one of the directory that has been reached. -/
theorem lists {name : List Char} (h : LeadsToFile d a (seen ++ name :: left))
    (proper : Path.Proper name) (reached : Reached a seen q) :
    ∃ place, d.find true q = .ok (place, .dir) ∧ name ∈ d.names place := by
  have ends : ∃ y ∈ name :: left, y ≠ [] :=
    ⟨name, List.mem_cons_self .., proper.ne_nil⟩
  obtain ⟨links, there, entered, found⟩ := h.find_eq ends reached
  obtain ⟨place, content, hwalk⟩ := h.found
  rw [entered.walk_append (.inr rfl)] at hwalk
  exact ⟨there, found, (mem_names_of_walk proper hwalk).2⟩

/-- The last name is that of a file. -/
theorem isFile {name : List Char} (h : LeadsToFile d a (seen ++ [name]))
    (proper : Path.Proper name) (reached : Reached a seen q) :
    d.isFile (entry q name) = true := by
  have whole := reached.step proper.2 fun _ => proper.ne_nil
  obtain ⟨links, there, entered, -⟩ := h.find_eq ⟨name, by simp, proper.ne_nil⟩ reached
  obtain ⟨place, content, hwalk⟩ := h.found
  rw [entered.walk_append (.inr rfl)] at hwalk
  -- the spelling of the path that has been reached leads to the same directory
  obtain ⟨front, hfront, same⟩ := reached.exists_segments proper.2
  have noNul := whole.noNul h.noNul
  have fits := whole.byteLength_le h.fits
  have start : d.start (entry q name) = if a then [] else d.cwd := by
    rw [Disk.start, whole.absolute]
  have found : d.find true (entry q name) = .ok (place, .file content) := by
    rw [Disk.find_eq_ok_iff, Disk.resolve_eq_walk noNul whole.nonempty fits, start, hfront,
      (entered.congr same).walk_append (.inr rfl), hwalk]
  rw [Disk.isFile, Disk.status?, found]

end LeadsToFile

/-! ## Two asterisks and one -/

/-- The names on the disk lead down from one path to another. -/
inductive Down (d : Disk) : Path → List (List Char) → Path → Prop
  | last {q : Path} {name : List Char} {place : Place} (found : d.find true q = .ok (place, .dir))
      (mem : name ∈ d.names place) : Down d q [name] (entry q name)
  | more {q p : Path} {name : List Char} {names : List (List Char)} {place : Place}
      (found : d.find true q = .ok (place, .dir)) (mem : name ∈ d.names place)
      (further : Down d (entry q name) names p) : Down d q (name :: names) p

namespace Down

variable {names : List (List Char)}

theorem isDir (h : Down d q names p) : d.isDir q = true := by
  cases h with
  | last found | more found => rw [Disk.isDir, Disk.status?, found]; rfl

theorem eq_foldl (h : Down d q names p) : p = names.foldl entry q := by
  induction h with
  | last => rfl
  | more _ _ _ ih => exact ih

theorem ne_nil (h : Down d q names p) : names ≠ [] := by
  cases h <;> exact List.cons_ne_nil _ _

/-- All of the names are those of entries. -/
theorem exists_entry (h : Down d q names p) : ∀ name ∈ names, ∃ e ∈ d.entries, name ∈ e.1 := by
  have listed : ∀ {name : List Char} {place : Place}, name ∈ d.names place →
      ∃ e ∈ d.entries, name ∈ e.1 := by
    intro name place mem
    obtain ⟨e, he, hlast⟩ := List.mem_filterMap.1 mem
    split at hlast
    · exact ⟨e, he, List.mem_of_getLast? hlast⟩
    · cases hlast
  induction h with
  | last _ mem =>
      intro x hx
      exact List.mem_singleton.1 hx ▸ listed mem
  | more _ mem _ ih =>
      intro x hx
      obtain rfl | hx := List.mem_cons.1 hx
      · exact listed mem
      · exact ih x hx

end Down

/-- Names that lead to a file lead down to it. -/
theorem LeadsToFile.down {names : List (List Char)} (h : LeadsToFile d a (seen ++ names))
    (hne : names ≠ []) (proper : ∀ name ∈ names, Path.Proper name) (reached : Reached a seen q) :
    Down d q names (names.foldl entry q) ∧ d.isFile (names.foldl entry q) = true := by
  induction names generalizing seen q with
  | nil => exact absurd rfl hne
  | cons name names ih =>
      have first := proper name (List.mem_cons_self ..)
      obtain ⟨place, found, mem⟩ := h.lists first reached
      cases names with
      | nil => exact ⟨.last found mem, h.isFile first reached⟩
      | cons next names =>
          have further := reached.step first.2 fun _ => first.ne_nil
          rw [← List.singleton_append, ← List.append_assoc] at h
          obtain ⟨down, isFile⟩ := ih h (List.cons_ne_nil _ _)
            (fun y hy => proper y (List.mem_cons_of_mem _ hy)) further
          exact ⟨.more found mem down, isFile⟩

theorem mem_entries {place : Place} {name : List Char} (found : d.find true q = .ok (place, .dir))
    (mem : name ∈ d.names place) : entry q name ∈ entries d q := by
  rw [entries, found]
  exact List.mem_map_of_mem mem

theorem exists_of_mem_entries {next : Path} (h : next ∈ entries d q) :
    ∃ place name, d.find true q = .ok (place, .dir) ∧ name ∈ d.names place ∧
      next = entry q name := by
  unfold entries at h
  split at h
  · next place found =>
    obtain ⟨name, mem, rfl⟩ := List.mem_map.1 h
    exact ⟨place, name, found, mem, rfl⟩
  · cases h

/-- An asterisk fits every name. -/
theorem accepts_anyName (name : List Char) : accepts [.anyName] name = true := by
  induction name with
  | nil => simp [accepts]
  | cons c name ih => simp [accepts, ih]

/-- The pieces of two asterisks and one. -/
def anyBelow : List Piece := [.dirs, .wild [.anyName]]

/-- Two asterisks and one fit what one asterisk fits, and what they fit further
down. -/
theorem mem_visit_anyBelow {depth : Nat} {next : Path} :
    p ∈ visit d (below d depth) anyBelow next ↔
      (d.isDir next = true ∧ p ∈ below d depth anyBelow next) ∨
        p = next ∧ next.fileName?.isSome = true := by
  have fits : p ∈ fitting (below d depth) next [.wild [.anyName]] ↔
      p = next ∧ next.fileName?.isSome = true := by
    have any : next.fileName?.any (Piece.acceptsName (.wild [.anyName])) =
        next.fileName?.isSome := by
      cases next.fileName? with
      | none => rfl
      | some name => exact accepts_anyName name
    rw [fitting, any]
    split <;> simp_all
  have rest : anyBelow.dropWhile (· = .dirs) = [.wild [.anyName]] := by decide
  have visited : visit d (below d depth) anyBelow next =
      if d.isDir next then
        below d depth anyBelow next ++ fitting (below d depth) next [.wild [.anyName]]
      else fitting (below d depth) next [.wild [.anyName]] := by
    simp only [visit, rest]
    rfl
  rw [visited]
  split
  · next isDir => rw [List.mem_append, fits, isDir]; simp
  · next notDir => rw [fits]; simp [notDir]

theorem mem_below_anyBelow {depth : Nat} :
    p ∈ below d (depth + 1) anyBelow q ↔
      ∃ next ∈ entries d q, p ∈ visit d (below d depth) anyBelow next := by
  have noDots : acceptedDots .dirs = [] := rfl
  simp only [anyBelow, below, noDots, List.flatMap_nil, ite_self, List.append_nil,
    List.mem_flatMap]

/-- What the names lead down to is found, if there are so many directories to
enter. -/
theorem mem_below_of_down {names : List (List Char)} {depth : Nat} (h : Down d q names p)
    (named : p.fileName?.isSome = true) (deep : names.length ≤ depth) :
    p ∈ below d depth anyBelow q := by
  induction h generalizing depth with
  | last found mem =>
      cases depth with
      | zero => cases deep
      | succ depth =>
          exact mem_below_anyBelow.2
            ⟨_, mem_entries found mem, mem_visit_anyBelow.2 (.inr ⟨rfl, named⟩)⟩
  | more found mem further ih =>
      cases depth with
      | zero => cases deep
      | succ depth =>
          have inside := ih named (Nat.le_of_succ_le_succ deep)
          exact mem_below_anyBelow.2
            ⟨_, mem_entries found mem, mem_visit_anyBelow.2 (.inl ⟨further.isDir, inside⟩)⟩

theorem down_of_mem_below {depth : Nat} (h : p ∈ below d depth anyBelow q) :
    ∃ names, Down d q names p := by
  induction depth generalizing q with
  | zero => cases h
  | succ depth ih =>
      obtain ⟨next, hnext, hvisit⟩ := mem_below_anyBelow.1 h
      obtain ⟨place, name, found, mem, rfl⟩ := exists_of_mem_entries hnext
      obtain ⟨-, inside⟩ | ⟨rfl, -⟩ := mem_visit_anyBelow.1 hvisit
      · obtain ⟨names, further⟩ := ih inside
        exact ⟨name :: names, .more found mem further⟩
      · exact ⟨[name], .last found mem⟩

/-! ## Names in a pattern -/

theorem below_literal {depth : Nat} {name : List Char} {pieces : List Piece} (hne : pieces ≠ []) :
    below d (depth + 1) (.literal name :: pieces) q =
      if exists? d q name then below d depth pieces (entry q name) else [] := by
  cases pieces with
  | nil => exact absurd rfl hne
  | cons piece pieces => rfl

/-- What is found behind names is found from where they lead. -/
theorem exists_of_mem_below_literals {depth : Nat} {xs : List (List Char)} {pieces : List Piece}
    (hne : pieces ≠ []) (h : p ∈ below d depth (xs.map .literal ++ pieces) q) :
    ∃ depth', p ∈ below d depth' pieces (xs.foldl entry q) := by
  induction xs generalizing depth q with
  | nil => exact ⟨depth, h⟩
  | cons x xs ih =>
      cases depth with
      | zero => cases h
      | succ depth =>
          have more : xs.map Piece.literal ++ pieces ≠ [] := by simp [hne]
          rw [List.map_cons, List.cons_append, below_literal more] at h
          split at h
          · exact ih h
          · cases h

/-- On the way to a file all names are there. -/
theorem mem_below_literals {depth : Nat} {xs : List (List Char)} {pieces : List Piece}
    (hne : pieces ≠ []) (leads : LeadsToFile d a (seen ++ (xs ++ left)))
    (ends : ∃ y ∈ left, y ≠ []) (reached : Reached a seen q) (noSlash : ∀ x ∈ xs, '/' ∉ x)
    (gap : Gapless q xs) (h : p ∈ below d depth pieces (xs.foldl entry q)) :
    p ∈ below d (depth + xs.length) (xs.map .literal ++ pieces) q := by
  induction xs generalizing seen q with
  | nil => exact h
  | cons x xs ih =>
      have first : '/' ∉ x := noSlash x (List.mem_cons_self ..)
      have reached' := reached.step first gap.ne_nil
      have leads' : LeadsToFile d a (seen ++ [x] ++ (xs ++ left)) := by
        rwa [List.append_assoc]
      obtain ⟨y, hy, hyne⟩ := ends
      have there : exists? d q x = true := by
        have isDir := leads.isDir ⟨y, by simp [hy], hyne⟩ reached
        have isDir' := leads'.isDir ⟨y, by simp [hy], hyne⟩ reached'
        have present : d.present (entry q x) = true := by
          rw [Disk.isDir, beq_iff_eq] at isDir'
          rw [Disk.present, isDir']
          rfl
        rw [exists?]
        split
        · exact isDir
        · rw [present, Bool.true_or]
      have more : xs.map Piece.literal ++ pieces ≠ [] := by simp [hne]
      rw [List.map_cons, List.cons_append, List.length_cons, ← Nat.add_assoc, below_literal more,
        if_pos there]
      exact ih leads' reached' (fun y hy => noSlash y (List.mem_cons_of_mem _ hy))
        (reached.gapless first gap) h

end Glob

end GroovyFindings
