import GroovyFindings.Proofs.Xml.LineEnds

/-!
# What a strict reader makes of written documents

A document that was written from tags is read as these tags, and tags that spell
elements as these elements.  Only the values of the attributes are not what they were:
an escaped value has its white space in it literally, so a line end of two characters
is read as one blank, and so is every other tab, line feed and carriage return.

## Main definitions

* `flattened` — a value as it is read.

## Main results

* `marks?_following` — the tags that were written are read.
* `Spells.nest?_append` — and they stand for the elements that they spell.
* `Spells.processed?_outline` — a document is read as the element that it spells, with
  its values flattened.
* `flattened_eq_iff` — a value is read as it was exactly if there is no white space in
  it but blanks.
-/

namespace GroovyFindings.Xml

/-! ## Tags -/

theorem named?_eq_reference? {name : List Char} {c : Char}
    (hletters : name.all Char.isAlpha = true) (h : named? name = some c) :
    reference? name = some c := by
  unfold reference?
  split
  · exact absurd hletters (by simp)
  · exact absurd hletters (by simp)
  · exact h

/-- A reference is read to its end. -/
theorem normalizedFrom?_name {name : List Char} (h : ';' ∉ name) (read rest : List Char) :
    normalizedFrom? (some read) (name ++ ';' :: rest) =
      (reference? (read.reverse ++ name)).bind fun r =>
        (normalizedFrom? none rest).map (r :: ·) := by
  induction name generalizing read with
  | nil => rw [List.nil_append, normalizedFrom?, if_pos rfl, List.append_nil]
  | cons c name ih =>
      have hc : c ≠ ';' := fun heq => h (heq ▸ List.mem_cons_self)
      have hname : ';' ∉ name := fun hmem => h (List.mem_cons_of_mem c hmem)
      rw [List.cons_append, normalizedFrom?, if_neg hc, ih hname, List.reverse_cons,
        List.append_assoc, List.singleton_append]

/-- A reference is read as its character, be it white space or not. -/
theorem normalizedFrom?_reference {name : List Char} {c : Char} (hname : ';' ∉ name)
    (h : reference? name = some c) (rest : List Char) :
    normalizedFrom? none ('&' :: (name ++ ';' :: rest)) =
      (normalizedFrom? none rest).map (c :: ·) := by
  rw [normalizedFrom?, if_pos rfl, normalizedFrom?_name hname, List.reverse_nil,
    List.nil_append, h]
  rfl

example : normalizedFrom? none ['a', '&', '#', '1', '0', ';', 'b'] = some ['a', '\n', 'b'] := by
  decide

theorem normalizedFrom?_escapeChar (c : Char) (rest : List Char) :
    normalizedFrom? none (escapeChar c ++ rest) =
      (normalizedFrom? none rest).map (blankFor c :: ·) := by
  rcases escapeChar_eq_or c with hsame | ⟨hspecial, name, hname, hletters, hnamed⟩
  · have hc : c ≠ '&' := by
      rintro rfl
      exact absurd hsame (by decide)
    rw [hsame, List.singleton_append, normalizedFrom?, if_neg hc]
  · have hblank : blankFor c = c := by
      simp only [List.mem_cons, List.not_mem_nil, or_false] at hspecial
      rcases hspecial with rfl | rfl | rfl | rfl | rfl <;> decide
    have hend : ';' ∉ name := by
      intro hmem
      exact absurd (List.all_eq_true.1 hletters _ hmem) (by decide)
    rw [hname, List.cons_append, List.append_assoc, List.singleton_append,
      normalizedFrom?_reference hend (named?_eq_reference? hletters hnamed), hblank]

/-- An escaped value is read with blanks for its white space. -/
theorem normalizedFrom?_escape (text : List Char) :
    normalizedFrom? none (escape text) = some (text.map blankFor) := by
  induction text with
  | nil => rfl
  | cons c text ih =>
      rw [escape, List.flatMap_cons, normalizedFrom?_escapeChar, ← escape, ih]
      rfl

/-- An escaped value between quotes ends where it was written to end. -/
theorem quoted?_escape (text rest : List Char) :
    quoted? ('"' :: (escape text ++ '"' :: rest)) = some (text.map blankFor, rest) := by
  have hplain : ∀ c ∈ escape text, (c != '"') = true := by
    intro c hc
    rw [bne_iff_ne]
    rintro rfl
    exact not_mem_escape (by decide) text hc
  have hbracket : '<' ∉ escape text := not_mem_escape (by decide) text
  have hbehind : (escape text ++ '"' :: rest).dropWhile (· != '"') = '"' :: rest := by
    rw [List.dropWhile_append_of_pos hplain]
    rfl
  have hraw : (escape text ++ '"' :: rest).takeWhile (· != '"') = escape text := by
    rw [List.takeWhile_append_of_pos hplain]
    simp
  rw [quoted?, if_pos (.inl rfl), hbehind]
  simp only [hraw, if_neg hbracket, normalizedFrom?_escape, Option.map_some]

theorem attribute?_chars {a : Property} (h : IsName a.name) (rest : List Char) :
    attribute? (a.name ++ '=' :: '"' :: (escape a.value ++ '"' :: rest)) =
      some (a.mapValue (List.map blankFor), rest) := by
  have hname := h.name?_append (c := '=') (by decide) ('"' :: (escape a.value ++ '"' :: rest))
  have hequals : ¬Char.isWhitespace '=' = true := by decide
  have hquote : ¬Char.isWhitespace '"' = true := by decide
  rw [attribute?, hname]
  simp only [List.dropWhile_cons_of_neg hequals, List.dropWhile_cons_of_neg hquote,
    quoted?_escape]
  rfl

/-- A name is neither blank nor the end of a tag. -/
theorem IsName.head {name : List Char} (h : IsName name) (rest : List Char) :
    ∃ c tail, name ++ rest = c :: tail ∧ c.isWhitespace = false ∧ c ≠ '>' ∧ c ≠ '/' := by
  obtain ⟨c, tail, rfl, hc, -⟩ := h.exists_cons
  refine ⟨c, tail ++ rest, rfl, ?_, ?_, ?_⟩
  · rw [← Bool.not_eq_true]
    intro hspace
    simp only [Char.isWhitespace, Bool.or_eq_true, decide_eq_true_eq] at hspace
    rcases hspace with ((rfl | rfl) | rfl) | rfl <;> exact absurd hc (by decide)
  · rintro rfl
    exact absurd hc (by decide)
  · rintro rfl
    exact absurd hc (by decide)

theorem IsName.append_ne_slash {name : List Char} (h : IsName name) (rest text : List Char) :
    name ++ rest ≠ '/' :: text := by
  intro heq
  obtain ⟨c, tail, hhead, -, -, hslash⟩ := h.head rest
  exact hslash (List.cons.inj (hhead.symm.trans heq)).1

theorem attributes?_chars {attributes : List Property} (h : ∀ a ∈ attributes, IsName a.name)
    {c : Char} (hc : c = '>' ∨ c = '/') (rest : List Char) :
    attributes? (attributes.flatMap Property.chars ++ c :: rest) =
      some (attributes.map (Property.mapValue (List.map blankFor)), c :: rest) := by
  induction attributes with
  | nil =>
      have hspace : ¬c.isWhitespace = true := by
        rcases hc with rfl | rfl <;> decide
      rw [List.flatMap_nil, List.nil_append, attributes?, List.dropWhile_cons_of_neg hspace,
        if_pos (.inl rfl)]
      rfl
  | cons a attributes ih =>
      have hname := h a List.mem_cons_self
      have htail := ih fun b hb => h b (List.mem_cons_of_mem a hb)
      let value := '=' :: '"' :: (escape a.value ++
        '"' :: (attributes.flatMap Property.chars ++ c :: rest))
      have hchars : (a :: attributes).flatMap Property.chars ++ c :: rest =
          ' ' :: (a.name ++ value) := by
        rw [List.flatMap_cons, List.append_assoc, Property.chars_append]
      obtain ⟨d, tail, hhead, hspace, hclose, hslash⟩ := hname.head value
      have hbehind : (' ' :: (a.name ++ value)).dropWhile Char.isWhitespace =
          a.name ++ value := by
        have hd : ¬d.isWhitespace = true := by simp [hspace]
        rw [hhead, List.dropWhile_cons_of_pos (by decide), List.dropWhile_cons_of_neg hd]
      have hspaces : (a.name ++ value).length ≠ (' ' :: (a.name ++ value)).length := by simp
      have hends : (a.name ++ value).head? ≠ some '>' ∧ (a.name ++ value).head? ≠ some '/' := by
        rw [hhead]
        simp [hclose, hslash]
      rw [hchars, attributes?_step hbehind hspaces hends.1 hends.2 (attribute?_chars hname _),
        htail]
      rfl

/-- The name of a tag is read up to its attributes, or to its end. -/
theorem Named.name?_append {name : List Char} {attributes : List Property}
    (h : Named name attributes) {c : Char} (hc : c = '>' ∨ c = '/') (rest : List Char) :
    name? (name ++ (attributes.flatMap Property.chars ++ c :: rest)) =
      some (name, attributes.flatMap Property.chars ++ c :: rest) := by
  cases attributes with
  | nil =>
      have hstop : isNameChar c = false := by
        rcases hc with rfl | rfl <;> decide
      exact h.isName.name?_append hstop rest
  | cons a attributes =>
      rw [List.flatMap_cons, List.append_assoc, Property.chars_append]
      exact h.isName.name?_append (by decide) _

/-- A tag is read up to its end. -/
theorem Named.mark?_append {name : List Char} {attributes : List Property}
    (h : Named name attributes) {c : Char} (hc : c = '>' ∨ c = '/') (rest : List Char) :
    mark? (name ++ (attributes.flatMap Property.chars ++ c :: rest)) =
      ended? name (attributes.map (Property.mapValue (List.map blankFor))) (c :: rest) := by
  have hattributes := attributes?_chars h.isNames hc rest
  have hname := h.name?_append hc rest
  have distinct := (h.map (List.map blankFor)).distinct
  rw [mark?]
  · simp only [hname, hattributes, if_pos distinct]
  · exact h.isName.append_ne_slash _

/-- Tags are read as they were written, but for the white space in their values. -/
theorem mark?_chars {m : Mark} (h : m.Readable) : ∃ tail, m.chars = '<' :: tail ∧
    ∀ rest, mark? (tail ++ rest) = some (m.mapValues (List.map blankFor), rest) := by
  cases h with
  | @start name attributes named =>
      refine ⟨_, Mark.chars_start name attributes, ?_⟩
      intro rest
      rw [List.append_assoc, List.append_assoc, List.singleton_append,
        named.mark?_append (.inl rfl)]
      rfl
  | @empty name attributes named =>
      refine ⟨_, Mark.chars_empty name attributes, ?_⟩
      intro rest
      rw [List.append_assoc, List.append_assoc, List.cons_append, List.singleton_append,
        named.mark?_append (.inr rfl)]
      rfl
  | @close name isName =>
      refine ⟨_, Mark.chars_close name, ?_⟩
      intro rest
      have hname := isName.name?_append (c := '>') (by decide) rest
      have hclose : ¬Char.isWhitespace '>' = true := by decide
      rw [List.cons_append, List.append_assoc, List.singleton_append, mark?]
      simp only [hname, List.dropWhile_cons_of_neg hclose]
      rfl

/-- The tags that were written are read. -/
theorem marks?_following {marks : List Mark} (h : ∀ m ∈ marks, m.Readable) (depth : Nat) :
    marks? (following depth marks) =
      some (marks.map (Mark.mapValues (List.map blankFor))) := by
  induction marks generalizing depth with
  | nil =>
      rw [marks?]
      rfl
  | cons m marks ih =>
      have hrest := ih (fun m' hm' => h m' (List.mem_cons_of_mem m hm')) (m.inner depth)
      obtain ⟨tail, hchars, hread⟩ := mark?_chars (h m List.mem_cons_self)
      have hblank : ∀ c ∈ indent (m.outer depth), c.isWhitespace = true := by
        intro c hc
        rcases List.mem_cons.1 hc with rfl | hc
        · decide
        · obtain rfl := List.eq_of_mem_replicate hc
          decide
      have hbracket : ¬Char.isWhitespace '<' = true := by decide
      have hbehind : (following depth (m :: marks)).dropWhile Char.isWhitespace =
          '<' :: (tail ++ following (m.inner depth) marks) := by
        rw [following_cons, List.dropWhile_append_of_pos hblank, hchars, List.cons_append,
          List.dropWhile_cons_of_neg hbracket]
      rw [marks?_step hbehind (hread _), hrest]
      rfl

/-! ## Elements -/

theorem Element.ofTag_properties (name : String) (attributes : List (String × String))
    (children : List Element) :
    Element.ofTag name.toList (properties attributes) children =
      ⟨name, attributesRead attributes, children⟩ := by
  simp [Element.ofTag, properties, attributesRead, Utf8.ofString]

namespace Spells

variable {marks : List Mark} {elements : List Element}

/-- Tags that spell elements put these behind the elements before them, and leave open
what was open. -/
theorem nest?_append (h : Spells marks elements) (around : List Unclosed)
    (before : List Element) (rest : List Mark) :
    nest? around before (marks ++ rest) = nest? around (elements.reverse ++ before) rest := by
  induction h generalizing around before rest with
  | nil => rfl
  | empty legible more ih =>
      rw [List.cons_append, nest?, ih, Element.ofTag_properties, List.reverse_cons,
        List.append_assoc, List.singleton_append]
  | element legible inside more ihInside ihMore =>
      rw [List.cons_append, List.append_assoc, List.cons_append, nest?, ihInside, nest?,
        if_pos rfl, ihMore, List.append_nil, List.reverse_reverse, Element.ofTag_properties,
        List.reverse_cons, List.append_assoc, List.singleton_append]

/-- Tags that spell elements stand for these. -/
theorem nest?_eq (h : Spells marks elements) : nest? [] [] marks = some elements := by
  have hnest := h.nest?_append [] [] []
  rw [List.append_nil, List.append_nil] at hnest
  rw [hnest, nest?, List.reverse_reverse]
  rfl

end Spells

/-! ## Values -/

/-- A value as it is read: its line ends are told first, and white space is read as
blanks then. -/
def flattened (value : List Char) : List Char := (lineEnds value).map blankFor

/-- White space that is not read as itself. -/
def isChanged (c : Char) : Bool := c == '\t' || c == '\n' || c == '\r'

theorem blankFor_eq_iff (c : Char) : blankFor c = c ↔ isChanged c = false := by
  unfold blankFor
  split
  · next hspace =>
      simp only [Char.isWhitespace, Bool.or_eq_true, decide_eq_true_eq] at hspace
      rcases hspace with ((rfl | rfl) | rfl) | rfl <;> decide
  · next hink =>
      simp only [Char.isWhitespace, Bool.or_eq_true, decide_eq_true_eq, not_or] at hink
      obtain ⟨⟨⟨-, htab⟩, hreturn⟩, hfeed⟩ := hink
      simp [isChanged, htab, hreturn, hfeed]

theorem isChanged_blankFor (c : Char) : isChanged (blankFor c) = false := by
  apply (blankFor_eq_iff (blankFor c)).1
  unfold blankFor
  split
  · decide
  · rfl

/-- A value is read as it was exactly if there is no white space in it but blanks. -/
theorem flattened_eq_iff (value : List Char) :
    flattened value = value ↔ ∀ c ∈ value, isChanged c = false := by
  constructor
  · intro h c hc
    rw [← h] at hc
    obtain ⟨d, -, rfl⟩ := List.mem_map.1 hc
    exact isChanged_blankFor d
  · intro h
    have hreturn : '\r' ∉ value := by
      intro hmem
      exact absurd (h _ hmem) (by decide)
    have hends : lineEnds value = value := by
      have happend := lineEnds_append hreturn []
      rwa [List.append_nil, show lineEnds [] = [] from rfl, List.append_nil] at happend
    rw [flattened, hends]
    refine (List.map_congr_left ?_).trans (List.map_id value)
    intro c hc
    exact (blankFor_eq_iff c).2 (h c hc)

/-! ## Documents -/

namespace Spells

variable {marks : List Mark} {e : Element}

/-- A document is read as the element that it spells, but for the values: these are
flattened. -/
theorem processed?_outline (h : Spells marks [e])
    (allowed : ∀ m ∈ marks, ∀ a ∈ m.attributes, ∀ c ∈ a.value, isAllowed c = true) :
    processed? (outline (.declaration :: marks)) = some (e.mapValues flattened) := by
  have hall : (outline (.declaration :: marks)).all isAllowed = true := by
    rw [List.all_eq_true, outline_declaration, List.forall_mem_append]
    exact ⟨isAllowed_declaration, isAllowed_following h.readable allowed 0⟩
  have hends : lineEnds (outline (.declaration :: marks)) =
      Mark.declaration.chars ++ following 0 (marks.map (Mark.mapValues lineEnds)) := by
    rw [outline_declaration, lineEnds_append return_not_mem_declaration,
      lineEnds_following h.readable]
  have hstart : Text.stripStart? Mark.declaration.chars
      (lineEnds (outline (.declaration :: marks))) =
        some (following 0 (marks.map (Mark.mapValues lineEnds))) :=
    Text.stripStart?_eq_some_iff.2 hends
  have hreadable : ∀ m ∈ marks.map (Mark.mapValues lineEnds), m.Readable := by
    intro m hm
    obtain ⟨m', hm', rfl⟩ := List.mem_map.1 hm
    exact (h.readable m' hm').map lineEnds
  have hmarks : marks? (following 0 (marks.map (Mark.mapValues lineEnds))) =
      some (marks.map (Mark.mapValues flattened)) := by
    rw [marks?_following hreadable, List.map_map]
    congr 2
    funext m
    exact m.mapValues_mapValues lineEnds (List.map blankFor)
  have hnest : nest? [] [] (marks.map (Mark.mapValues flattened)) = some [e.mapValues flattened] :=
    h.map.nest?_eq
  rw [processed?, if_pos hall, root?, hstart, Option.getD_some, hmarks]
  simp only [hnest]

end Spells

end GroovyFindings.Xml
