import GroovyFindings.Text.Affix
import GroovyFindings.Text.Order

/-!
# Paths

A path is kept as it is spelled, because that is how it is printed, and is
compared by the components it denotes, because that is how a file system
reads it. Repeated and trailing slashes do not count, nor does a single
dot unless a relative path begins with it; two dots do.

## Main definitions

* `Path` — a path as it is spelled.
* `Path.Component`, `Path.components` — what it denotes.
* `Path.SameAs`, `Path.le` — equality and order by components.
* `Path.join`, `Path.parent?`, `Path.fileName?` — a path below another one,
  the path above, the last name.
-/

namespace GroovyFindings

/-- A path as it is spelled. -/
structure Path where
  chars : List Char
deriving DecidableEq, Repr, Inhabited

namespace Path

/-- The path spelled by a string. -/
def ofString (s : String) : Path := ⟨s.toList⟩

/-- The spelling of a path. -/
def text (p : Path) : String := String.ofList p.chars

@[simp] theorem text_ofString (s : String) : (ofString s).text = s := by
  simp [ofString, text]

@[simp] theorem ofString_text (p : Path) : ofString p.text = p := by
  simp [ofString, text]

/-! ## Components -/

/-- What a path is made of. -/
inductive Component where
  /-- The beginning of an absolute path. -/
  | root
  /-- The dot that a relative path begins with. -/
  | here
  /-- Two dots. -/
  | up
  /-- The name of an entry. -/
  | name (chars : List Char)
deriving DecidableEq, Repr

/-- How a component is spelled. -/
def Component.chars : Component → List Char
  | .root => ['/']
  | .here => ['.']
  | .up => ['.', '.']
  | .name chars => chars

/-- A path that begins with a slash. -/
def isAbsolute (p : Path) : Bool := p.chars.head? == some '/'

/-- The pieces between slashes. -/
def segments (p : Path) : List (List Char) := p.chars.splitOn '/'

/-- The component of a piece between slashes. No piece and a single dot
denote nothing. -/
def Component.ofSegment? : (segment : List Char) → Option Component
  | [] => none
  | ['.'] => none
  | ['.', '.'] => some .up
  | segment => some (.name segment)

/-- What a path denotes. -/
def components (p : Path) : List Component :=
  let inner := p.segments.filterMap Component.ofSegment?
  match p.segments with
  | [] :: _ :: _ => .root :: inner
  | ['.'] :: _ => .here :: inner
  | _ => inner

/-- Equality by components. -/
def SameAs (p q : Path) : Prop := p.components = q.components

instance (p q : Path) : Decidable (p.SameAs q) :=
  inferInstanceAs (Decidable (p.components = q.components))

/-- The components of one path begin those of another. -/
def startsWith (p start : Path) : Bool := start.components.isPrefixOf p.components

/-- The place of a component in the order: the root, the dot, the two dots,
and the names by their characters. -/
def Component.key : Component → List Nat
  | .root => [0]
  | .here => [1]
  | .up => [2]
  | .name chars => 3 :: chars.map Char.toNat

/-- The place of a path in the order. -/
def key (p : Path) : List (List Nat) := p.components.map Component.key

/-- The order by components. -/
def le (p q : Path) : Bool := Text.lexLe (Text.lexLe Nat.ble) p.key q.key

/-! ## Moving down and up -/

/-- The path `q` as seen from `p`. -/
def join (p q : Path) : Path :=
  if q.isAbsolute then q
  else if p.chars = [] ∨ p.chars.getLast? = some '/' then ⟨p.chars ++ q.chars⟩
  else ⟨p.chars ++ '/' :: q.chars⟩

/-- `join` with a path given as a string. -/
def child (p : Path) (name : String) : Path := p.join (ofString name)

/-- The path with the given components. -/
def ofComponents (cs : List Component) : Path :=
  cs.foldl (fun p c => p.join ⟨c.chars⟩) ⟨[]⟩

/-- What comes before the segments proper: the slash of an absolute path,
or the dot that a relative one begins with. -/
def anchor (p : Path) : List Char :=
  match p.chars with
  | '/' :: _ => ['/']
  | ['.'] => ['.']
  | '.' :: '/' :: _ => ['.']
  | _ => []

/-- The segments behind the anchor. -/
def bodySegments (p : Path) : List (List Char) :=
  (p.chars.drop p.anchor.length).splitOn '/'

/-- A segment that denotes nothing. -/
def isSilent (segment : List Char) : Bool := segment.isEmpty || segment == ['.']

/-- The path above, which keeps its spelling. There is none above the root
and above the empty path. -/
def parent? (p : Path) : Option Path :=
  match Text.dropEndWhile isSilent p.bodySegments with
  | [] => if p.anchor = ['.'] then some ⟨[]⟩ else none
  | segs =>
      some ⟨p.anchor ++
        ['/'].intercalate (Text.dropEndWhile isSilent segs.dropLast)⟩

/-- The last component, when it is a name. -/
def fileName? (p : Path) : Option (List Char) :=
  match p.components.getLast? with
  | some (.name chars) => some chars
  | _ => none

/-! ## The path above is shorter -/

theorem anchor_append_drop (p : Path) :
    p.anchor ++ p.chars.drop p.anchor.length = p.chars := by
  unfold anchor
  split <;> simp_all

private theorem intercalate_append (sep : List Char) {as bs : List (List Char)}
    (ha : as ≠ []) (hb : bs ≠ []) :
    sep.intercalate (as ++ bs) = sep.intercalate as ++ sep ++ sep.intercalate bs := by
  induction as with
  | nil => exact absurd rfl ha
  | cons a as ih =>
      cases as with
      | nil => simp [List.intercalate_cons_of_ne_nil hb]
      | cons a' as =>
          simp only [List.cons_append, List.intercalate_cons_cons] at ih ⊢
          rw [ih (by simp)]
          simp

private theorem length_le_intercalate (sep : List Char) {xs : List (List Char)}
    {x : List Char} (h : x ∈ xs) : x.length ≤ (sep.intercalate xs).length := by
  induction xs with
  | nil => simp at h
  | cons a as ih =>
      rcases List.mem_cons.1 h with rfl | h
      · cases as with
        | nil => simp
        | cons a' as => simp only [List.intercalate_cons_cons, List.length_append]; omega
      · cases as with
        | nil => simp at h
        | cons a' as =>
            have := ih h
            simp only [List.intercalate_cons_cons, List.length_append]
            omega

theorem length_lt_of_parent? {p q : Path} (h : p.parent? = some q) :
    q.chars.length < p.chars.length := by
  have whole := congrArg List.length p.anchor_append_drop
  have body : ['/'].intercalate p.bodySegments = p.chars.drop p.anchor.length := by
    simp [bodySegments]
  rw [List.length_append] at whole
  unfold parent? at h
  split at h
  · next hsegs =>
    split at h
    · next ha =>
      cases h
      simp only [ha, List.length_singleton, List.length_nil] at whole ⊢
      omega
    · exact absurd h (by simp)
  · next segs hne =>
    obtain ⟨run, hrun⟩ := Text.dropEndWhile_append isSilent p.bodySegments
    have hlast := List.dropLast_concat_getLast hne
    have heard := Text.dropEndWhile_getLast (List.getLast?_eq_some_getLast hne)
    generalize Text.dropEndWhile isSilent p.bodySegments = segs at *
    obtain ⟨run', hrun'⟩ := Text.dropEndWhile_append isSilent segs.dropLast
    cases h
    generalize Text.dropEndWhile isSilent segs.dropLast = kept at *
    generalize segs.getLast hne = last at *
    rw [← hrun, ← hlast, ← hrun', List.append_assoc, List.append_assoc] at body
    have hmem : last.length ≤ (['/'].intercalate (run' ++ ([last] ++ run))).length :=
      length_le_intercalate _ (by simp)
    rw [← body] at whole
    simp only [List.length_append]
    cases hk : kept with
    | nil =>
        have : last ≠ [] := by rintro rfl; simp [isSilent] at heard
        have := List.length_pos_iff.2 this
        simp only [hk, List.nil_append] at whole
        simp only [List.intercalate_nil, List.length_nil]
        omega
    | cons a as =>
        rw [hk, intercalate_append _ (by simp) (by simp)] at whole
        simp only [List.length_append, List.length_singleton] at whole
        omega

end Path

end GroovyFindings
