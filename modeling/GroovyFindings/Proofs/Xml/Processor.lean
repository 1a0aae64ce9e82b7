import GroovyFindings.Proofs.Xml.Outline

/-!
# A strict reader of documents

This is a reader that goes by XML 1.0 to the letter, for documents that consist of
elements: a document that has text, comments or a document type in it is not read.
It looks at characters, and it changes two things that a lenient reader leaves
alone.  Every line end is read as a line feed, whichever way it was written; and in
the value of an attribute, white space that stands there literally is read as a
blank, while a reference stands for its character, whatever that is.

It reads from the front, so what it has left to read gets shorter with every tag and
every attribute.

## Main definitions

* `isAllowed` — the characters of a document.
* `lineEnds` — a text with its line ends told.
* `normalizedFrom?` — what an attribute value says.
* `mark?`, `marks?` — the tags of a document.
* `nest?` — the elements that tags stand for.
* `processed?` — the root of a document.

## Main results

* `attribute?_length_lt`, `mark?_length_le` — something has been read of the text.
* `attributes?_step`, `marks?_step` — what is read first, and what is left then.
-/

namespace GroovyFindings.Xml

/-! ## Characters -/

/-- The characters that a document may consist of. -/
def isAllowed (c : Char) : Bool :=
  c == '\t' || c == '\n' || c == '\r' || (0x20 ≤ c.toNat && c.toNat ≤ 0xD7FF) ||
    (0xE000 ≤ c.toNat && c.toNat ≤ 0xFFFD) || 0x10000 ≤ c.toNat

/-- The character lies in one of the ranges. -/
def inRanges (ranges : List (Nat × Nat)) (c : Char) : Bool :=
  ranges.any fun r => r.1 ≤ c.toNat && c.toNat ≤ r.2

/-- The characters that a name begins with. -/
def isNameStart (c : Char) : Bool :=
  c.isAlpha || c == ':' || c == '_' ||
    inRanges [(0xC0, 0xD6), (0xD8, 0xF6), (0xF8, 0x2FF), (0x370, 0x37D), (0x37F, 0x1FFF),
      (0x200C, 0x200D), (0x2070, 0x218F), (0x2C00, 0x2FEF), (0x3001, 0xD7FF),
      (0xF900, 0xFDCF), (0xFDF0, 0xFFFD), (0x10000, 0xEFFFF)] c

/-- The characters that a name goes on with. -/
def isNameChar (c : Char) : Bool :=
  isNameStart c || c.isDigit || c == '-' || c == '.' ||
    inRanges [(0xB7, 0xB7), (0x300, 0x36F), (0x203F, 0x2040)] c

/-! ## Line ends -/

/-- `lineEnds` where a carriage return may stand before the text: then a line feed
at its beginning belongs to that line end. -/
def lineEndsFrom (behindReturn : Bool) : (text : List Char) → List Char
  | [] => []
  | c :: rest =>
      if c = '\r' then '\n' :: lineEndsFrom true rest
      else if c = '\n' ∧ behindReturn = true then lineEndsFrom false rest
      else c :: lineEndsFrom false rest

/-- A text with every line end, be it a line feed, a carriage return or both, as a
line feed. -/
def lineEnds (text : List Char) : List Char := lineEndsFrom false text

/-! ## Values -/

/-- The value of a digit. -/
def digit? (base : Nat) (c : Char) : Option Nat :=
  let value :=
    if c.isDigit then c.toNat - 0x30
    else if 0x61 ≤ c.toNat ∧ c.toNat ≤ 0x66 then c.toNat - 0x61 + 10
    else if 0x41 ≤ c.toNat ∧ c.toNat ≤ 0x46 then c.toNat - 0x41 + 10
    else base
  if value < base then some value else none

/-- The number that digits denote, of which there is one at least. -/
def number? (base : Nat) (digits : List Char) : Option Nat :=
  if digits = [] then none
  else digits.foldlM (fun n c => (digit? base c).map (base * n + ·)) 0

/-- The character that stands for a reference: one by number, if a document may have
it, or one of the five that have names. -/
def reference? (name : List Char) : Option Char :=
  match name with
  | '#' :: 'x' :: digits => (number? 16 digits).bind ofNumber?
  | '#' :: digits => (number? 10 digits).bind ofNumber?
  | _ => named? name
where
  ofNumber? (n : Nat) : Option Char :=
    if n.isValidChar && isAllowed (Char.ofNat n) then some (Char.ofNat n) else none

/-- What white space in a value is read as. -/
def blankFor (c : Char) : Char := if c.isWhitespace then ' ' else c

/-- What is read of a value: white space as blanks, and references as their
characters.  Inside of a reference, `name` is what has been read of it, the last
character first. -/
def normalizedFrom? (name : Option (List Char)) : (raw : List Char) → Option (List Char)
  | [] => if name = none then some [] else none
  | c :: rest =>
      match name with
      | none =>
          if c = '&' then normalizedFrom? (some []) rest
          else (normalizedFrom? none rest).map (blankFor c :: ·)
      | some name =>
          if c = ';' then
            (reference? name.reverse).bind fun r => (normalizedFrom? none rest).map (r :: ·)
          else normalizedFrom? (some (c :: name)) rest

/-! ## Tags -/

/-- The name that a text begins with, and what follows it. -/
def name? : (text : List Char) → Option (List Char × List Char)
  | [] => none
  | c :: rest =>
      if isNameStart c then
        some (c :: rest.takeWhile isNameChar, rest.dropWhile isNameChar)
      else none

/-- The value between quotes that a text begins with, and what follows it. -/
def quoted? : (text : List Char) → Option (List Char × List Char)
  | [] => none
  | quote :: rest =>
      if quote = '"' ∨ quote = '\'' then
        match rest.dropWhile (· != quote) with
        | [] => none
        | _ :: after =>
            let raw := rest.takeWhile (· != quote)
            if '<' ∈ raw then none else (normalizedFrom? none raw).map (·, after)
      else none

/-- The attribute that a text begins with, and what follows it. -/
def attribute? (text : List Char) : Option (Property × List Char) :=
  match name? text with
  | none => none
  | some (name, rest) =>
      match rest.dropWhile Char.isWhitespace with
      | '=' :: value =>
          (quoted? (value.dropWhile Char.isWhitespace)).map fun p => (⟨name, p.1⟩, p.2)
      | _ => none

theorem name?_length_lt {text name rest : List Char} (h : name? text = some (name, rest)) :
    rest.length < text.length := by
  cases text with
  | nil => cases h
  | cons c text =>
      simp only [name?] at h
      split at h
      · obtain ⟨-, rfl⟩ := by simpa using h
        have hle := (List.dropWhile_suffix isNameChar (l := text)).length_le
        simp only [List.length_cons]
        omega
      · cases h

theorem quoted?_length_lt {text value rest : List Char}
    (h : quoted? text = some (value, rest)) : rest.length < text.length := by
  cases text with
  | nil => cases h
  | cons quote text =>
      simp only [quoted?] at h
      split at h
      · split at h
        · cases h
        · next b after hafter =>
            have hle := (List.dropWhile_suffix (· != quote) (l := text)).length_le
            rw [hafter] at hle
            split at h
            · cases h
            · obtain ⟨_, -, hpair⟩ := Option.map_eq_some_iff.1 h
              obtain ⟨-, rfl⟩ := Prod.mk.inj hpair
              simp only [List.length_cons] at hle ⊢
              omega
      · cases h

theorem attribute?_length_lt {text rest : List Char} {a : Property}
    (h : attribute? text = some (a, rest)) : rest.length < text.length := by
  unfold attribute? at h
  split at h
  · cases h
  · next name behind hname =>
      have hlt := name?_length_lt hname
      have hle := (List.dropWhile_suffix Char.isWhitespace (l := behind)).length_le
      split at h
      · next value hvalue =>
          rw [hvalue] at hle
          obtain ⟨p, hquoted, hpair⟩ := Option.map_eq_some_iff.1 h
          obtain ⟨-, rfl⟩ := Prod.mk.inj hpair
          have hlt' := quoted?_length_lt hquoted
          have hle' := (List.dropWhile_suffix Char.isWhitespace (l := value)).length_le
          simp only [List.length_cons] at hle
          omega
      · cases h

/-- The attributes that a text begins with, each behind white space, and what
follows them. -/
def attributes? (text : List Char) : Option (List Property × List Char) :=
  let rest := text.dropWhile Char.isWhitespace
  if rest.length = text.length ∨ rest.head? = some '>' ∨ rest.head? = some '/' then
    some ([], rest)
  else
    match _h : attribute? rest with
    | none => none
    | some (a, after) => (attributes? after).map fun p => (a :: p.1, p.2)
termination_by text.length
decreasing_by
  have hlt : after.length < (text.dropWhile Char.isWhitespace).length := attribute?_length_lt _h
  have hle := (List.dropWhile_suffix Char.isWhitespace (l := text)).length_le
  omega

/-- One attribute is read behind white space if the tag does not end there. -/
theorem attributes?_step {text rest after : List Char} {a : Property}
    (hrest : text.dropWhile Char.isWhitespace = rest) (space : rest.length ≠ text.length)
    (hclose : rest.head? ≠ some '>') (hslash : rest.head? ≠ some '/')
    (h : attribute? rest = some (a, after)) :
    attributes? text = (attributes? after).map fun p => (a :: p.1, p.2) := by
  subst hrest
  rw [attributes?, if_neg (by simp [space, hclose, hslash])]
  split
  · next hnone =>
      rw [h] at hnone
      cases hnone
  · next b behind hsome =>
      rw [h] at hsome
      obtain ⟨rfl, rfl⟩ := by simpa using hsome
      rfl

/-- The tag that ends where the text begins, and what follows it. -/
def ended? (name : List Char) (attributes : List Property) :
    (text : List Char) → Option (Mark × List Char)
  | '>' :: after => some (.start name attributes, after)
  | '/' :: '>' :: after => some (.empty name attributes, after)
  | _ => none

/-- The tag behind an opening bracket, and what follows it. -/
def mark? (text : List Char) : Option (Mark × List Char) :=
  match text with
  | '/' :: text =>
      match name? text with
      | none => none
      | some (name, rest) =>
          match rest.dropWhile Char.isWhitespace with
          | '>' :: after => some (.close name, after)
          | _ => none
  | _ =>
      match name? text with
      | none => none
      | some (name, rest) =>
          match attributes? rest with
          | none => none
          | some (attributes, rest) =>
              if (attributes.map (·.name)).Nodup then ended? name attributes rest else none

theorem attributes?_length_le {text rest : List Char} {attributes : List Property}
    (h : attributes? text = some (attributes, rest)) : rest.length ≤ text.length := by
  have hle := (List.dropWhile_suffix Char.isWhitespace (l := text)).length_le
  induction hn : text.length using Nat.strongRecOn generalizing text attributes with
  | _ n ih =>
      rw [attributes?] at h
      split at h
      · obtain ⟨-, rfl⟩ := by simpa using h
        omega
      · split at h
        · cases h
        · next a after hattribute =>
            have hlt := attribute?_length_lt hattribute
            obtain ⟨p, hmore, hpair⟩ := Option.map_eq_some_iff.1 h
            obtain ⟨-, rfl⟩ := Prod.mk.inj hpair
            have hle' := (List.dropWhile_suffix Char.isWhitespace (l := after)).length_le
            have := ih after.length (by omega) hmore hle' rfl
            omega

theorem ended?_length_le {text name rest : List Char} {attributes : List Property} {m : Mark}
    (h : ended? name attributes text = some (m, rest)) : rest.length ≤ text.length := by
  unfold ended? at h
  split at h
  · obtain ⟨-, rfl⟩ := by simpa using h
    simp only [List.length_cons]
    omega
  · obtain ⟨-, rfl⟩ := by simpa using h
    simp only [List.length_cons]
    omega
  · cases h

theorem mark?_length_le {text rest : List Char} {m : Mark} (h : mark? text = some (m, rest)) :
    rest.length ≤ text.length := by
  unfold mark? at h
  split at h
  · next text =>
      split at h
      · cases h
      · next name behind hname =>
          have hlt := name?_length_lt hname
          have hle := (List.dropWhile_suffix Char.isWhitespace (l := behind)).length_le
          split at h
          · next after hafter =>
              rw [hafter] at hle
              obtain ⟨-, rfl⟩ := by simpa using h
              simp only [List.length_cons] at hle ⊢
              omega
          · cases h
  · split at h
    · cases h
    · next name behind hname =>
        have hlt := name?_length_lt hname
        split at h
        · cases h
        · next attributes left hattributes =>
            have hle := attributes?_length_le hattributes
            split at h
            · have hle' := ended?_length_le h
              omega
            · cases h

/-- The tags that a text consists of, with nothing but white space between them. -/
def marks? (text : List Char) : Option (List Mark) :=
  match _hrest : text.dropWhile Char.isWhitespace with
  | [] => some []
  | c :: rest =>
      if c = '<' then
        match _hmark : mark? rest with
        | none => none
        | some (m, after) => (marks? after).map (m :: ·)
      else none
termination_by text.length
decreasing_by
  have hle := (List.dropWhile_suffix Char.isWhitespace (l := text)).length_le
  have hlt := mark?_length_le _hmark
  rw [_hrest, List.length_cons] at hle
  omega

/-- One tag is read behind white space. -/
theorem marks?_step {text rest after : List Char} {m : Mark}
    (hrest : text.dropWhile Char.isWhitespace = '<' :: rest)
    (h : mark? rest = some (m, after)) : marks? text = (marks? after).map (m :: ·) := by
  rw [marks?]
  split
  · next hnil =>
      rw [hrest] at hnil
      cases hnil
  · next c behind hcons =>
      rw [hrest] at hcons
      obtain ⟨rfl, rfl⟩ := List.cons.inj hcons
      rw [if_pos rfl]
      split
      · next hnone =>
          rw [h] at hnone
          cases hnone
      · next b left hsome =>
          rw [h] at hsome
          obtain ⟨rfl, rfl⟩ := by simpa using hsome
          rfl

/-! ## Elements -/

/-- The element that a start tag begins. -/
def Element.ofTag (name : List Char) (attributes : List Property) (children : List Element) :
    Element where
  name := String.ofList name
  attributes := attributes.map fun a => (Utf8.encode a.name, String.ofList a.value)
  children := children

/-- An element whose end tag has not been read. -/
structure Unclosed where
  name : List Char
  attributes : List Property
  /-- The elements before it in the one around it, the last one first. -/
  before : List Element

/-- The elements that tags stand for, where `around` are open, innermost first, and
the elements `before` stand before the tags, the last one first. -/
def nest? (around : List Unclosed) (before : List Element) :
    (marks : List Mark) → Option (List Element)
  | [] => if around.isEmpty then some before.reverse else none
  | .declaration :: _ => none
  | .empty name attributes :: rest =>
      nest? around (.ofTag name attributes [] :: before) rest
  | .start name attributes :: rest => nest? (⟨name, attributes, before⟩ :: around) [] rest
  | .close name :: rest =>
      match around with
      | [] => none
      | u :: outer =>
          if u.name = name then
            nest? outer (.ofTag u.name u.attributes before.reverse :: u.before) rest
          else none

/-- The root of a text whose line ends have been told; it may begin with a
declaration. -/
def root? (text : List Char) : Option Element :=
  match marks? ((Text.stripStart? Mark.declaration.chars text).getD text) with
  | none => none
  | some marks =>
      match nest? [] [] marks with
      | some [e] => some e
      | _ => none

/-- The root of a document that consists of elements. -/
def processed? (text : List Char) : Option Element :=
  if text.all isAllowed then root? (lineEnds text) else none

end GroovyFindings.Xml
