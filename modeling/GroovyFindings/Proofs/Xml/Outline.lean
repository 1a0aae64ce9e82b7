import GroovyFindings.Proofs.Xml.Element
import GroovyFindings.Proofs.Xml.Name
import GroovyFindings.Xml.Outline

/-!
# Documents that were written

A document is written one tag a line.  When the tags spell elements, reading
the document gives these elements back, whatever the values of the attributes
are: an escaped value has no quote in it that could end it and no bracket that
could end the tag, and the indentation between the lines is blank.

## Main definitions

* `Legible` — names that a tag can be written with.
* `Spells` — the tags that are written for elements.

## Main results

* `Spells.exists_content` — tags that spell elements are read as them, however
  far they are indented.
* `Spells.exists_isOf` — so is a document that consists of them.
-/

namespace GroovyFindings.Xml

/-! ## Tags -/

/-- A name of letters and colons, with one character at least. -/
def Qualified (key : String) : Prop :=
  key.toList ≠ [] ∧ key.toList.all (fun c => c.isAlpha || c == ':') = true

instance (key : String) : Decidable (Qualified key) :=
  inferInstanceAs (Decidable (_ ∧ _))

theorem Qualified.ofString_ne_nil {key : String} (h : Qualified key) :
    Utf8.ofString key ≠ [] := by
  obtain ⟨c, text, htext⟩ := List.exists_cons_of_ne_nil h.1
  have hbytes : String.utf8EncodeChar c ≠ [] := String.utf8EncodeChar_ne_nil
  simp [Utf8.ofString, Utf8.encode, htext, hbytes]

theorem Qualified.not_mem_ofString {key : String} (h : Qualified key) {b : UInt8}
    (low : b.toNat ≤ 0x7F)
    (other : ((Char.ofNat b.toNat).isAlpha || Char.ofNat b.toNat == ':') = false) :
    b ∉ Utf8.ofString key := by
  apply not_mem_encode low
  intro c hc hvalue
  have hname := List.all_eq_true.1 h.2 c hc
  rw [← hvalue, Char.ofNat_toNat, hname] at other
  cases other

/-- Neither blanks nor the bytes that a tag is not read over stand in such a
name. -/
theorem Qualified.key_plain {key : String} (h : Qualified key) :
    ∀ b ∈ Utf8.ofString key, isInk b = true ∧ isMark b = false := by
  intro b hb
  constructor
  · by_contra hspace
    simp only [isInk, isSpace, Bool.not_eq_true', Bool.not_eq_false, Bool.or_eq_true,
      beq_iff_eq] at hspace
    rcases hspace with ((rfl | rfl) | rfl) | rfl <;>
      exact h.not_mem_ofString (by decide) (by decide) hb
  · by_contra hmark
    simp only [isMark, Bool.not_eq_false, Bool.or_eq_true, beq_iff_eq] at hmark
    rcases hmark with ((rfl | rfl) | rfl) | rfl <;>
      exact h.not_mem_ofString (by decide) (by decide) hb

/-- The names in a tag can be read as they are written. -/
structure Legible (name : String) (attributes : List (String × String)) : Prop where
  lettered : Lettered name
  qualified : ∀ a ∈ attributes, Qualified a.1
  distinct : (attributes.map (·.1)).Nodup

/-- Attributes as they are handed to the writer. -/
def properties (attributes : List (String × String)) : List Property :=
  attributes.map fun a => ⟨a.1.toList, a.2.toList⟩

/-- Attributes as they are read. -/
def attributesRead (attributes : List (String × String)) : List (List UInt8 × String) :=
  attributes.map fun a => (Utf8.ofString a.1, a.2)

section Bytes

variable (text : List Char)

@[simp] theorem encode_nil : Utf8.encode [] = [] := rfl

@[simp] theorem encode_blank : Utf8.encode (' ' :: text) = 0x20 :: Utf8.encode text := rfl

@[simp] theorem encode_quote : Utf8.encode ('"' :: text) = 0x22 :: Utf8.encode text := rfl

@[simp] theorem encode_slash : Utf8.encode ('/' :: text) = 0x2F :: Utf8.encode text := rfl

@[simp] theorem encode_opening : Utf8.encode ('<' :: text) = 0x3C :: Utf8.encode text := rfl

@[simp] theorem encode_equals : Utf8.encode ('=' :: text) = 0x3D :: Utf8.encode text := rfl

@[simp] theorem encode_question : Utf8.encode ('?' :: text) = 0x3F :: Utf8.encode text := rfl

@[simp] theorem encode_closing : Utf8.encode ('>' :: text) = 0x3E :: Utf8.encode text := rfl

end Bytes

private theorem exists_writtenAttributes {attributes : List (String × String)}
    (h : ∀ a ∈ attributes, Qualified a.1) :
    ∃ written : List WrittenAttribute,
      Utf8.encode ((properties attributes).flatMap Property.chars) =
        written.flatMap (·.bytes) ∧
      written.map (·.key) = attributes.map (fun a => Utf8.ofString a.1) ∧
      values? (written.map fun a => (a.key, a.raw)) = some (attributesRead attributes) := by
  induction attributes with
  | nil => exact ⟨[], rfl, rfl, rfl⟩
  | cons a attributes ih =>
      obtain ⟨written, hbytes, hkeys, hvalues⟩ :=
        ih fun a' ha' => h a' (List.mem_cons_of_mem a ha')
      have hkey := h a List.mem_cons_self
      let first : WrittenAttribute :=
        .ofValue (Utf8.ofString a.1) a.2.toList hkey.ofString_ne_nil hkey.key_plain
      have hfirst : Utf8.encode (Property.chars ⟨a.1.toList, a.2.toList⟩) = first.bytes := by
        simp [Property.chars, Utf8.encode_append, first, WrittenAttribute.ofValue,
          WrittenAttribute.bytes, Utf8.ofString]
      refine ⟨first :: written, ?_, ?_, ?_⟩
      · rw [properties, List.map_cons, List.flatMap_cons, Utf8.encode_append, hfirst,
          List.flatMap_cons]
        exact congrArg (first.bytes ++ ·) hbytes
      · rw [List.map_cons, hkeys]
        rfl
      · have hvalue : value? first.raw = some a.2 := by
          show value? (Utf8.encode (escape a.2.toList)) = some a.2
          rw [value?_encode_escape, String.ofList_toList]
        simp only [List.map_cons, values?, hvalue, hvalues]
        rfl

/-- A tag is written as one whose attributes are read back. -/
theorem Legible.exists_writtenTag {name : String} {attributes : List (String × String)}
    (h : Legible name attributes) :
    ∃ tag : WrittenTag,
      Utf8.encode (name.toList ++ (properties attributes).flatMap Property.chars) =
        tag.content (Utf8.ofString name) ∧
      (Tag.ofContent (tag.content (Utf8.ofString name))).attributes? =
        some (attributesRead attributes) := by
  obtain ⟨written, hbytes, hkeys, hvalues⟩ := exists_writtenAttributes h.qualified
  have distinct : (written.map (·.key)).Nodup := by
    have hstrings : attributes.map (fun a => Utf8.ofString a.1) =
        (attributes.map (·.1)).map Utf8.ofString := by
      rw [List.map_map]
      rfl
    rw [hkeys, hstrings]
    exact h.distinct.map fun _ _ => Utf8.ofString_injective
  refine ⟨⟨written, [], distinct, Blank.nil⟩, ?_, ?_⟩
  · rw [Utf8.encode_append, hbytes, WrittenTag.content, WrittenTag.rest, List.append_nil]
    rfl
  · rw [WrittenTag.attributes?_ofContent _ h.lettered.tagName]
    exact hvalues

/-! ## Lines -/

/-- The lines of a document behind others. -/
def following (depth : Nat) (marks : List Mark) : List Char :=
  (outlineLines depth marks).flatMap ('\n' :: ·)

private theorem intercalate_cons (line : List Char) (lines : List (List Char)) :
    ['\n'].intercalate (line :: lines) = line ++ lines.flatMap ('\n' :: ·) := by
  induction lines generalizing line with
  | nil => simp [List.intercalate]
  | cons next lines ih =>
      rw [List.flatMap_cons, List.cons_append, ← ih next]
      simp [List.intercalate]

theorem outline_declaration (marks : List Mark) :
    outline (.declaration :: marks) = Mark.declaration.chars ++ following 0 marks := by
  simp only [outline, outlineLines, intercalate_cons, Nat.mul_zero, List.replicate_zero,
    List.nil_append, following]

/-- What stands before a tag. -/
def indent (depth : Nat) : List Char := '\n' :: List.replicate (2 * depth) ' '

theorem following_start (depth : Nat) (name : List Char) (attributes : List Property)
    (marks : List Mark) :
    following depth (.start name attributes :: marks) =
      indent depth ++ (Mark.chars (.start name attributes) ++ following (depth + 1) marks) := by
  simp [following, outlineLines, indent]

theorem following_empty (depth : Nat) (name : List Char) (attributes : List Property)
    (marks : List Mark) :
    following depth (.empty name attributes :: marks) =
      indent depth ++ (Mark.chars (.empty name attributes) ++ following depth marks) := by
  simp [following, outlineLines, indent]

theorem following_close (depth : Nat) (name : List Char) (marks : List Mark) :
    following (depth + 1) (.close name :: marks) =
      indent depth ++ (Mark.chars (.close name) ++ following depth marks) := by
  simp [following, outlineLines, indent]

theorem blank_indent (depth : Nat) : Blank (Utf8.encode (indent depth)) := by
  intro b hb
  obtain ⟨c, hc, hmem⟩ := List.mem_flatMap.1 hb
  rcases List.mem_cons.1 hc with rfl | hc
  · obtain rfl := List.mem_singleton.1 (show b ∈ [0x0A] from hmem)
    decide
  · obtain rfl := List.eq_of_mem_replicate hc
    obtain rfl := List.mem_singleton.1 (show b ∈ [0x20] from hmem)
    decide

/-! ## Elements -/

/-- The tags are those of the elements, which may also have been written with a
self-closing tag if there is nothing in them. -/
inductive Spells : (marks : List Mark) → (elements : List Element) → Prop where
  | nil : Spells [] []
  | empty {name : String} {attributes : List (String × String)} {marks : List Mark}
      {elements : List Element} (legible : Legible name attributes)
      (rest : Spells marks elements) :
      Spells (.empty name.toList (properties attributes) :: marks)
        (⟨name, attributesRead attributes, []⟩ :: elements)
  | element {name : String} {attributes : List (String × String)} {inner marks : List Mark}
      {children elements : List Element} (legible : Legible name attributes)
      (inside : Spells inner children) (rest : Spells marks elements) :
      Spells (.start name.toList (properties attributes) ::
          (inner ++ .close name.toList :: marks))
        (⟨name, attributesRead attributes, children⟩ :: elements)

namespace Spells

variable {marks : List Mark} {elements : List Element}

/-- Behind elements as many tags are open as before them. -/
theorem following_append (h : Spells marks elements) (depth : Nat) (more : List Mark) :
    following depth (marks ++ more) = following depth marks ++ following depth more := by
  induction h generalizing depth more with
  | nil => rfl
  | empty legible rest ih =>
      rw [List.cons_append, following_empty, following_empty, ih]
      simp only [List.append_assoc]
  | element legible inside rest ihInside ihRest =>
      rw [List.cons_append, List.append_assoc, List.cons_append, following_start,
        following_start, ihInside, ihInside, following_close, following_close, ihRest]
      simp only [List.append_assoc]

end Spells

/-- Blanks before a stretch make no difference. -/
theorem Stretch.blank_append {opened opened' : List (List UInt8)} {lead bytes : List UInt8}
    {events : List Event} (h : Stretch opened bytes events opened') (hbytes : bytes ≠ [])
    (blank : Blank lead) : Stretch opened (lead ++ bytes) events opened' := by
  cases h with
  | nil => exact absurd rfl hbytes
  | @markup _ _ _ text m bytes token event events plain complete taken rest =>
      have htext : textEvents (lead ++ text) = textEvents text := by
        rw [textEvents, List.dropWhile_append_of_pos blank]
        rfl
      have hplain : 0x3C ∉ lead ++ text := by
        intro hmem
        rcases List.mem_append.1 hmem with hlead | hmem
        · exact absurd (blank _ hlead) (by decide)
        · exact plain hmem
      rw [← List.append_assoc, ← htext]
      exact .markup hplain complete taken rest

theorem encode_empty (name : List Char) (attributes : List Property) :
    Utf8.encode (Mark.chars (.empty name attributes)) =
      0x3C :: (Utf8.encode (name ++ attributes.flatMap Property.chars) ++ [0x2F, 0x3E]) := by
  show Utf8.encode ('<' :: name ++ attributes.flatMap Property.chars ++ ['/', '>']) = _
  simp [Utf8.encode_append]

theorem encode_start (name : List Char) (attributes : List Property) :
    Utf8.encode (Mark.chars (.start name attributes)) =
      0x3C :: (Utf8.encode (name ++ attributes.flatMap Property.chars) ++ [0x3E]) := by
  show Utf8.encode ('<' :: name ++ attributes.flatMap Property.chars ++ ['>']) = _
  simp [Utf8.encode_append]

theorem encode_close (name : String) :
    Utf8.encode (Mark.chars (.close name.toList)) = endTagOf (Utf8.ofString name) := by
  show Utf8.encode ('<' :: '/' :: name.toList ++ ['>']) = _
  simp [Utf8.encode_append, endTagOf, Utf8.ofString]

/-- A self-closing tag as it is written. -/
theorem Stretch.selfClosing (tag : WrittenTag) {name : List UInt8} (hname : TagName name) :
    Stretch [] (0x3C :: (tag.content name ++ [0x2F, 0x3E]))
      [.empty (Tag.ofContent (tag.content name))] [] := by
  let content := tag.content name ++ [0x2F]
  have hquotes : Token.quoteAfter none content = some none := by
    rw [Token.quoteAfter_append, tag.quoteAfter_content hname]
    decide
  have hhead : content.head? ∉ [some 0x21, some 0x2F, some 0x3F] := by
    have hfirst := hname.first
    cases name with
    | nil => simp at hfirst
    | cons b name =>
        intro hmem
        exact hfirst (List.mem_cons_of_mem none hmem)
  have taken : Event.ofToken [] (.tag content) =
      .ok (some (.empty (Tag.ofContent (tag.content name))), []) := by
    have hlast : content.getLast? = some 0x2F := List.getLast?_concat
    have hinit : content.dropLast = tag.content name := List.dropLast_concat
    rw [Event.ofToken, if_pos hlast, hinit]
  have hempty : (0x3C : UInt8) ∉ [] := by simp
  have hwhole := Stretch.markup hempty (.tag hhead hquotes) taken .nil
  have hbytes : [] ++ 0x3C :: (content ++ [0x3E] ++ []) =
      0x3C :: (tag.content name ++ [0x2F, 0x3E]) := by
    simp [content]
  rwa [hbytes] at hwhole

/-- What stands in the declaration. -/
def declarationText : List Char := "xml version=\"1.0\" encoding=\"UTF-8\"?".toList

theorem encode_declaration : Utf8.encode Mark.declaration.chars =
    0x3C :: 0x3F :: (Utf8.encode declarationText ++ [0x3E]) := by
  have hchars : Mark.declaration.chars = '<' :: '?' :: (declarationText ++ ['>']) := rfl
  rw [hchars, encode_opening, encode_question, Utf8.encode_append]
  rfl

/-- The declaration yields nothing. -/
theorem stretch_declaration : Stretch [] (Utf8.encode Mark.declaration.chars) [] [] := by
  have hclosed : 0x3E ∉ Utf8.encode declarationText := by
    apply not_mem_encode (by decide)
    intro c hc hvalue
    obtain rfl : c = '>' := Char.toNat_inj.1 hvalue
    exact absurd hc (by decide)
  have hmarks : Token.ofInstruction (Utf8.encode declarationText) = .ok .skipped := by
    decide
  have hempty : (0x3C : UInt8) ∉ [] := by simp
  have hend : Stretch [] [] [] [] := .nil
  have hread := Stretch.markup hempty (.instruction hclosed hmarks) rfl hend
  rwa [List.nil_append, List.append_nil, ← encode_declaration] at hread

namespace Spells

variable {marks : List Mark} {elements : List Element}

/-- Tags that spell elements are read as these, however far they are
indented. -/
theorem exists_content (h : Spells marks elements) (depth : Nat) :
    ∃ content : Content,
      Stretch [] (Utf8.encode (following depth marks)) content.events [] ∧
      content.elements? = some elements := by
  induction h generalizing depth with
  | nil => exact ⟨.nil, .nil, rfl⟩
  | @empty name attributes marks elements legible rest ih =>
      obtain ⟨content, hread, hcontent⟩ := ih depth
      obtain ⟨tag, hbytes, hattributes⟩ := legible.exists_writtenTag
      have htag := (Stretch.selfClosing tag legible.lettered.tagName).blank_append
        (List.cons_ne_nil _ _) (blank_indent depth)
      refine ⟨.empty (Tag.ofContent (tag.content (Utf8.ofString name))) content, ?_, ?_⟩
      · rw [following_empty, Utf8.encode_append, Utf8.encode_append, encode_empty, hbytes,
          ← List.append_assoc]
        exact htag.append hread
      · rw [Content.elements?_empty hattributes hcontent, legible.lettered.localName_ofContent]
  | @element name attributes inner marks children elements legible inside rest ihInside
      ihRest =>
      obtain ⟨content, hread, hcontent⟩ := ihRest depth
      obtain ⟨body, hbody, hchildren⟩ := ihInside (depth + 1)
      obtain ⟨tag, hbytes, hattributes⟩ := legible.exists_writtenTag
      have hname := legible.lettered.tagName
      -- the text before the end tag is the indentation of its line
      have hplain : 0x3C ∉ Utf8.encode (indent depth) := by
        intro hmem
        exact absurd (blank_indent depth _ hmem) (by decide)
      have hsilent : textEvents (Utf8.encode (indent depth)) = [] := by
        have hinked : Inked [] := by simp [Inked]
        have hblank := textEvents_append (blank_indent depth) hinked Blank.nil
        rwa [List.append_nil, List.append_nil, if_pos rfl] at hblank
      have helement := (Stretch.element (tag.opens hname) hbody hplain).blank_append
        (List.cons_ne_nil _ _) (blank_indent depth)
      rw [hsilent, List.nil_append] at helement
      refine ⟨.element (Tag.ofContent (tag.content (Utf8.ofString name))) body content,
        ?_, ?_⟩
      · have hlines : Utf8.encode (following depth
              (.start name.toList (properties attributes) ::
                (inner ++ .close name.toList :: marks))) =
            Utf8.encode (indent depth) ++
              elementOf (tag.content (Utf8.ofString name))
                (Utf8.encode (following (depth + 1) inner) ++ Utf8.encode (indent depth))
                (Utf8.ofString name) ++
              Utf8.encode (following depth marks) := by
          rw [following_start, inside.following_append, following_close]
          simp only [Utf8.encode_append, encode_start, encode_close, hbytes, elementOf,
            List.append_assoc, List.cons_append, List.nil_append]
        have hevents : (Content.element (Tag.ofContent (tag.content (Utf8.ofString name)))
              body content).events =
            .start (Tag.ofContent (tag.content (Utf8.ofString name))) ::
              (body.events ++ [.close]) ++ content.events := by
          simp [Content.events]
        rw [hlines, hevents]
        exact helement.append hread
      · rw [Content.elements?_element hattributes hchildren hcontent,
          legible.lettered.localName_ofContent]

private theorem withoutMark_bracket (bytes : List UInt8) :
    withoutMark (0x3C :: bytes) = 0x3C :: bytes := rfl

/-- A document of tags that spell elements is read as these. -/
theorem exists_isOf (h : Spells marks elements) :
    ∃ content : Content,
      content.IsOf (Utf8.encode (outline (.declaration :: marks))) ∧
      content.elements? = some elements := by
  obtain ⟨content, hread, hcontent⟩ := h.exists_content 0
  refine ⟨content, ?_, hcontent⟩
  have hdocument : Utf8.encode (outline (.declaration :: marks)) =
      Utf8.encode Mark.declaration.chars ++ Utf8.encode (following 0 marks) := by
    rw [outline_declaration, Utf8.encode_append]
  have hmark : withoutMark (Utf8.encode (outline (.declaration :: marks))) =
      Utf8.encode (outline (.declaration :: marks)) := by
    rw [hdocument, encode_declaration]
    exact withoutMark_bracket _
  have hend : eventsFrom none [] [] = ([], none) := eventsFrom_of_end rfl
  have hstretch := stretch_declaration.append hread
  rw [Content.IsOf, events, hmark, hdocument, ← List.append_nil (_ ++ _),
    hstretch.eventsFrom_append, hend]
  simp only [List.nil_append, List.append_nil]

end Spells

end GroovyFindings.Xml
