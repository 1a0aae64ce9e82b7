import GroovyFindings.Proofs.Xml.Processor

/-!
# Characters and line ends of written documents

A document that was written from tags has no characters in it but those of the values
and some that every document may have.  It has two kinds of line ends: those of its
lines, which are line feeds, and those that stand in the values.  Escaping leaves the
latter as they are, since no character of a line end is escaped and no reference begins
with a line feed.

## Main definitions

* `Property.mapValue`, `Mark.mapValues`, `Element.mapValues` — the same with other
  values.
* `IsName` — a text that is a name.
* `Mark.Readable` — tags that a strict reader reads.

## Main results

* `Spells.map` — whatever is done to the values, tags spell the same elements.
* `Spells.readable` — tags that spell elements are readable.
* `lineEndsFrom_escape` — the line ends of an escaped value.
* `lineEnds_following` — the line ends of a document are those of its lines and of its
  values.
* `isAllowed_following` — the characters of a document.
-/

namespace GroovyFindings.Xml

/-! ## Other values -/

/-- The attribute with its value changed. -/
def Property.mapValue (f : List Char → List Char) (a : Property) : Property :=
  ⟨a.name, f a.value⟩

/-- The attributes of a tag. -/
def Mark.attributes : Mark → List Property
  | .declaration | .close _ => []
  | .start _ attributes | .empty _ attributes => attributes

/-- The tag with the values of its attributes changed. -/
def Mark.mapValues (f : List Char → List Char) : Mark → Mark
  | .declaration => .declaration
  | .start name attributes => .start name (attributes.map (Property.mapValue f))
  | .empty name attributes => .empty name (attributes.map (Property.mapValue f))
  | .close name => .close name

/-- The element with the values of all attributes in it changed. -/
def Element.mapValues (f : List Char → List Char) : Element → Element
  | ⟨name, attributes, children⟩ =>
      ⟨name, attributes.map fun a => (a.1, String.ofList (f a.2.toList)),
        children.map (mapValues f)⟩

section Values

variable (f g : List Char → List Char)

theorem Mark.mapValues_mapValues (m : Mark) :
    (m.mapValues f).mapValues g = m.mapValues (g ∘ f) := by
  cases m with
  | declaration => rfl
  | start name attributes => simp [mapValues, Property.mapValue]
  | empty name attributes => simp [mapValues, Property.mapValue]
  | close name => rfl

theorem properties_map (attributes : List (String × String)) :
    (properties attributes).map (Property.mapValue f) =
      properties (attributes.map fun a => (a.1, String.ofList (f a.2.toList))) := by
  simp [properties, Property.mapValue]

theorem attributesRead_map (attributes : List (String × String)) :
    (attributesRead attributes).map (fun a => (a.1, String.ofList (f a.2.toList))) =
      attributesRead (attributes.map fun a => (a.1, String.ofList (f a.2.toList))) := by
  simp [attributesRead]

variable {f}

theorem Legible.map {name : String} {attributes : List (String × String)}
    (h : Legible name attributes) :
    Legible name (attributes.map fun a => (a.1, String.ofList (f a.2.toList))) where
  lettered := h.lettered
  qualified := by
    intro a ha
    obtain ⟨a', ha', rfl⟩ := List.mem_map.1 ha
    exact h.qualified a' ha'
  distinct := by
    rw [List.map_map]
    exact h.distinct

/-- Whatever is done to the values, the tags spell the same elements. -/
theorem Spells.map {marks : List Mark} {elements : List Element} (h : Spells marks elements) :
    Spells (marks.map (Mark.mapValues f)) (elements.map (Element.mapValues f)) := by
  induction h with
  | nil => exact .nil
  | empty legible rest ih =>
      rw [List.map_cons, List.map_cons, Mark.mapValues, Element.mapValues, properties_map,
        attributesRead_map]
      exact .empty legible.map ih
  | element legible inside rest ihInside ihRest =>
      rw [List.map_cons, List.map_cons, List.map_append, List.map_cons, Mark.mapValues,
        Mark.mapValues, Element.mapValues, properties_map, attributesRead_map]
      exact .element legible.map ihInside ihRest

end Values

/-! ## Names -/

/-- The text is a name. -/
def IsName (name : List Char) : Prop := name? name = some (name, [])

theorem isNameChar_of_isNameStart {c : Char} (h : isNameStart c = true) :
    isNameChar c = true := by
  simp [isNameChar, h]

theorem IsName.of_forall {name : List Char} (hne : name ≠ [])
    (h : ∀ c ∈ name, isNameStart c = true) : IsName name := by
  obtain ⟨c, rest, rfl⟩ := List.exists_cons_of_ne_nil hne
  have hrest : ∀ d ∈ rest, isNameChar d = true := fun d hd =>
    isNameChar_of_isNameStart (h d (List.mem_cons_of_mem c hd))
  rw [IsName, name?, if_pos (h c List.mem_cons_self), List.takeWhile_eq_self_iff.2 hrest,
    List.dropWhile_eq_nil_iff.2 hrest]

theorem Lettered.isName {name : String} (h : Lettered name) : IsName name.toList := by
  apply IsName.of_forall h.1
  intro c hc
  have hletter := List.all_eq_true.1 h.2 c hc
  simp [isNameStart, hletter]

theorem Qualified.isName {key : String} (h : Qualified key) : IsName key.toList := by
  apply IsName.of_forall h.1
  intro c hc
  have hletter := List.all_eq_true.1 h.2 c hc
  simp only [isNameStart, hletter, Bool.true_or]

namespace IsName

variable {name : List Char}

theorem exists_cons (h : IsName name) : ∃ c rest, name = c :: rest ∧ isNameStart c = true ∧
    ∀ d ∈ rest, isNameChar d = true := by
  cases name with
  | nil => cases h
  | cons c rest =>
      rw [IsName, name?] at h
      split at h
      · next hc =>
          have hrest : ∀ d ∈ rest, isNameChar d = true := by simpa using h
          exact ⟨c, rest, rfl, hc, hrest⟩
      · cases h

theorem isNameChar_of_mem (h : IsName name) : ∀ c ∈ name, isNameChar c = true := by
  obtain ⟨c, rest, rfl, hc, hrest⟩ := h.exists_cons
  intro d hd
  rcases List.mem_cons.1 hd with rfl | hd
  · exact isNameChar_of_isNameStart hc
  · exact hrest d hd

theorem not_mem (h : IsName name) {c : Char} (hc : isNameChar c = false) : c ∉ name := by
  intro hmem
  rw [h.isNameChar_of_mem c hmem] at hc
  cases hc

/-- A name is read up to a character that is none of a name. -/
theorem name?_append (h : IsName name) {c : Char} (hc : isNameChar c = false)
    (rest : List Char) : name? (name ++ c :: rest) = some (name, c :: rest) := by
  obtain ⟨d, tail, rfl, hd, htail⟩ := h.exists_cons
  have hstop : ¬isNameChar c = true := by simp [hc]
  rw [List.cons_append, name?, if_pos hd, List.takeWhile_append_of_pos htail,
    List.dropWhile_append_of_pos htail, List.takeWhile_cons_of_neg hstop,
    List.dropWhile_cons_of_neg hstop, List.append_nil]

end IsName

section Ranges

variable {c : Char}

theorem toNat_of_isAlpha (h : c.isAlpha = true) : 0x41 ≤ c.toNat ∧ c.toNat ≤ 0x7A := by
  have hcases : (c.isUpper || c.isLower) = true := h
  rcases Bool.or_eq_true_iff.1 hcases with hupper | hlower
  · have hrange : 0x41 ≤ c.val ∧ c.val ≤ 0x5A := of_decide_eq_true hupper
    exact ⟨hrange.1, Nat.le_trans hrange.2 (by decide)⟩
  · have hrange : (decide (0x61 ≤ c.val) && decide (c.val ≤ 0x7A)) = true := hlower
    rw [Bool.and_eq_true, decide_eq_true_iff, decide_eq_true_iff] at hrange
    exact ⟨Nat.le_trans (by decide) hrange.1, hrange.2⟩

/-- Names are written in characters that documents have. -/
theorem isAllowed_of_isNameChar (h : isNameChar c = true) : isAllowed c = true := by
  simp only [isNameChar, isNameStart, inRanges, List.any_cons, List.any_nil, Bool.or_eq_true,
    Bool.and_eq_true, decide_eq_true_eq, beq_iff_eq, ← Char.toNat_inj, Char.reduceToNat,
    Char.isDigit_iff_toNat, Bool.false_eq_true, or_false] at h
  simp only [isAllowed, Bool.or_eq_true, Bool.and_eq_true, decide_eq_true_eq]
  by_cases hletter : c.isAlpha = true
  · have hrange := toNat_of_isAlpha hletter
    omega
  · simp only [hletter, Bool.false_eq_true, false_or] at h
    omega

end Ranges

/-! ## Line ends -/

/-- Only behind a carriage return a line feed is no line end of its own. -/
theorem lineEndsFrom_cons {behindReturn : Bool} {c : Char} (hreturn : c ≠ '\r')
    (hfeed : c = '\n' → behindReturn = false) (rest : List Char) :
    lineEndsFrom behindReturn (c :: rest) = c :: lineEnds rest := by
  have hends : ¬(c = '\n' ∧ behindReturn = true) := by
    rintro ⟨rfl, htrue⟩
    rw [hfeed rfl] at htrue
    cases htrue
  rw [lineEndsFrom, if_neg hreturn, if_neg hends, lineEnds]

theorem lineEnds_append {text : List Char} (h : '\r' ∉ text) (rest : List Char) :
    lineEnds (text ++ rest) = text ++ lineEnds rest := by
  induction text with
  | nil => rfl
  | cons c text ih =>
      have hc : c ≠ '\r' := fun heq => h (heq ▸ List.mem_cons_self)
      have htext : '\r' ∉ text := fun hmem => h (List.mem_cons_of_mem c hmem)
      rw [List.cons_append, lineEnds, lineEndsFrom_cons hc (fun _ => rfl), ih htext,
        List.cons_append]

/-- A character that is escaped is a reference then. -/
theorem escapeChar_eq_or (c : Char) : escapeChar c = [c] ∨
    c ∈ ['<', '>', '&', '\'', '"'] ∧
      ∃ name, escapeChar c = '&' :: (name ++ [';']) ∧ name.all Char.isAlpha = true ∧
        named? name = some c := by
  unfold escapeChar
  split
  · next h => exact .inr ⟨by simp [h], ['l', 't'], rfl, rfl, h ▸ rfl⟩
  split
  · next h => exact .inr ⟨by simp [h], ['g', 't'], rfl, rfl, h ▸ rfl⟩
  split
  · next h => exact .inr ⟨by simp [h], ['a', 'm', 'p'], rfl, rfl, h ▸ rfl⟩
  split
  · next h => exact .inr ⟨by simp [h], ['a', 'p', 'o', 's'], rfl, rfl, h ▸ rfl⟩
  split
  · next h => exact .inr ⟨by simp [h], ['q', 'u', 'o', 't'], rfl, rfl, h ▸ rfl⟩
  · exact .inl rfl

theorem lineEndsFrom_escapeChar {behindReturn : Bool} {c : Char} (hreturn : c ≠ '\r')
    (hfeed : c = '\n' → behindReturn = false) (rest : List Char) :
    lineEndsFrom behindReturn (escapeChar c ++ rest) = escapeChar c ++ lineEnds rest := by
  rcases escapeChar_eq_or c with hsame | ⟨-, name, hname, hletters, -⟩
  · rw [hsame]
    exact lineEndsFrom_cons hreturn hfeed rest
  · have hplain : '\r' ∉ name ++ [';'] := by
      intro hmem
      rcases List.mem_append.1 hmem with hmem | hmem
      · exact absurd (List.all_eq_true.1 hletters _ hmem) (by decide)
      · exact absurd hmem (by decide)
    rw [hname, List.cons_append, lineEndsFrom_cons (by decide) (fun h => absurd h (by decide)),
      lineEnds_append hplain, List.cons_append]

/-- Escaping leaves the line ends of a value where they are. -/
theorem lineEndsFrom_escape (behindReturn : Bool) (text rest : List Char) :
    lineEndsFrom behindReturn (escape text ++ '"' :: rest) =
      escape (lineEndsFrom behindReturn text) ++ '"' :: lineEnds rest := by
  induction text generalizing behindReturn with
  | nil => exact lineEndsFrom_cons (by decide) (fun h => absurd h (by decide)) rest
  | cons c text ih =>
      have hsplit : escape (c :: text) ++ '"' :: rest =
          escapeChar c ++ (escape text ++ '"' :: rest) := by
        rw [escape, List.flatMap_cons, List.append_assoc, escape]
      rw [hsplit, lineEndsFrom]
      by_cases hreturn : c = '\r'
      · subst hreturn
        have hsame : escapeChar '\r' = ['\r'] := by decide
        rw [if_pos rfl, hsame, List.singleton_append, lineEndsFrom, if_pos rfl, ih]
        rfl
      · rw [if_neg hreturn]
        by_cases hfeed : c = '\n' ∧ behindReturn = true
        · obtain ⟨rfl, rfl⟩ := hfeed
          have hsame : escapeChar '\n' = ['\n'] := by decide
          rw [if_pos ⟨rfl, rfl⟩, hsame, List.singleton_append, lineEndsFrom,
            if_neg hreturn, if_pos ⟨rfl, rfl⟩, ih]
        · have hfirst : c = '\n' → behindReturn = false := by
            intro hc
            cases behindReturn with
            | false => rfl
            | true => exact absurd ⟨hc, rfl⟩ hfeed
          rw [if_neg hfeed, lineEndsFrom_escapeChar hreturn hfirst, lineEnds, ih, escape,
            escape, List.flatMap_cons, List.append_assoc]

theorem Property.chars_append (a : Property) (rest : List Char) :
    a.chars ++ rest = ' ' :: (a.name ++ '=' :: '"' :: (escape a.value ++ '"' :: rest)) := by
  simp [Property.chars]

theorem lineEnds_property {a : Property} (h : IsName a.name) (rest : List Char) :
    lineEnds (a.chars ++ rest) = (a.mapValue lineEnds).chars ++ lineEnds rest := by
  have hname : '\r' ∉ ' ' :: (a.name ++ ['=', '"']) := by
    have hmem := h.not_mem (c := '\r') (by decide)
    simp [hmem]
  have hsplit : a.chars ++ rest =
      ' ' :: (a.name ++ ['=', '"']) ++ (escape a.value ++ '"' :: rest) := by
    simp [Property.chars]
  have hvalue : lineEnds (escape a.value ++ '"' :: rest) =
      escape (lineEnds a.value) ++ '"' :: lineEnds rest := lineEndsFrom_escape false _ _
  rw [hsplit, lineEnds_append hname, hvalue]
  simp [Property.chars, Property.mapValue]

theorem lineEnds_properties {attributes : List Property}
    (h : ∀ a ∈ attributes, IsName a.name) (rest : List Char) :
    lineEnds (attributes.flatMap Property.chars ++ rest) =
      (attributes.map (Property.mapValue lineEnds)).flatMap Property.chars ++
        lineEnds rest := by
  induction attributes with
  | nil => rfl
  | cons a attributes ih =>
      have htail := ih fun b hb => h b (List.mem_cons_of_mem a hb)
      rw [List.flatMap_cons, List.append_assoc, lineEnds_property (h a List.mem_cons_self),
        htail, List.map_cons, List.flatMap_cons, List.append_assoc]

/-! ## Tags -/

/-- The names in a tag are names, and no attribute is named twice. -/
structure Named (name : List Char) (attributes : List Property) : Prop where
  isName : IsName name
  isNames : ∀ a ∈ attributes, IsName a.name
  distinct : (attributes.map (·.name)).Nodup

/-- The tag is one that a strict reader reads. -/
inductive Mark.Readable : (m : Mark) → Prop where
  | start {name : List Char} {attributes : List Property} (named : Named name attributes) :
      Readable (.start name attributes)
  | empty {name : List Char} {attributes : List Property} (named : Named name attributes) :
      Readable (.empty name attributes)
  | close {name : List Char} (isName : IsName name) : Readable (.close name)

theorem Named.map {name : List Char} {attributes : List Property} (h : Named name attributes)
    (f : List Char → List Char) : Named name (attributes.map (Property.mapValue f)) where
  isName := h.isName
  isNames := by
    intro a ha
    obtain ⟨b, hb, rfl⟩ := List.mem_map.1 ha
    exact h.isNames b hb
  distinct := by
    rw [List.map_map]
    exact h.distinct

theorem Mark.Readable.map {m : Mark} (h : m.Readable) (f : List Char → List Char) :
    (m.mapValues f).Readable := by
  cases h with
  | start named => exact .start (named.map f)
  | empty named => exact .empty (named.map f)
  | close isName => exact .close isName

theorem Legible.named {name : String} {attributes : List (String × String)}
    (h : Legible name attributes) : Named name.toList (properties attributes) where
  isName := h.lettered.isName
  isNames := by
    intro a ha
    obtain ⟨b, hb, rfl⟩ := List.mem_map.1 ha
    exact (h.qualified b hb).isName
  distinct := by
    have hnames : (properties attributes).map (·.name) =
        (attributes.map (·.1)).map String.toList := by
      simp [properties]
    rw [hnames]
    exact h.distinct.map fun _ _ => String.toList_injective

theorem Spells.readable {marks : List Mark} {elements : List Element}
    (h : Spells marks elements) : ∀ m ∈ marks, m.Readable := by
  induction h with
  | nil => simp
  | empty legible rest ih =>
      intro m hm
      rcases List.mem_cons.1 hm with rfl | hm
      · exact .empty legible.named
      · exact ih m hm
  | element legible inside rest ihInside ihRest =>
      intro m hm
      rcases List.mem_cons.1 hm with rfl | hm
      · exact .start legible.named
      rcases List.mem_append.1 hm with hm | hm
      · exact ihInside m hm
      rcases List.mem_cons.1 hm with rfl | hm
      · exact .close legible.lettered.isName
      · exact ihRest m hm

/-- The name in a tag stands behind its opening bracket. -/
theorem IsName.lineEnds_opening {name : List Char} (h : IsName name) (rest : List Char) :
    lineEnds ('<' :: (name ++ rest)) = '<' :: (name ++ lineEnds rest) := by
  have hname := h.not_mem (c := '\r') (by decide)
  have hplain : '\r' ∉ '<' :: name := by simp [hname]
  rw [← List.cons_append, lineEnds_append hplain, List.cons_append]

section Chars

variable (name : List Char) (attributes : List Property)

theorem Mark.chars_start : Mark.chars (.start name attributes) =
    '<' :: (name ++ (attributes.flatMap Property.chars ++ ['>'])) := by
  show '<' :: name ++ attributes.flatMap Property.chars ++ ['>'] = _
  simp only [List.cons_append, List.append_assoc]

theorem Mark.chars_empty : Mark.chars (.empty name attributes) =
    '<' :: (name ++ (attributes.flatMap Property.chars ++ ['/', '>'])) := by
  show '<' :: name ++ attributes.flatMap Property.chars ++ ['/', '>'] = _
  simp only [List.cons_append, List.append_assoc]

theorem Mark.chars_close : Mark.chars (.close name) = '<' :: '/' :: (name ++ ['>']) := rfl

end Chars

theorem lineEnds_mark {m : Mark} (h : m.Readable) (rest : List Char) :
    lineEnds (m.chars ++ rest) = (m.mapValues lineEnds).chars ++ lineEnds rest := by
  cases h with
  | @start name attributes named =>
      have hplain : '\r' ∉ ['>'] := by decide
      have hends := lineEnds_append hplain rest
      rw [Mark.mapValues, Mark.chars_start, Mark.chars_start]
      simp only [List.cons_append, List.append_assoc, List.nil_append] at hends ⊢
      rw [named.isName.lineEnds_opening, lineEnds_properties named.isNames, hends]
  | @empty name attributes named =>
      have hplain : '\r' ∉ ['/', '>'] := by decide
      have hends := lineEnds_append hplain rest
      rw [Mark.mapValues, Mark.chars_empty, Mark.chars_empty]
      simp only [List.cons_append, List.append_assoc, List.nil_append] at hends ⊢
      rw [named.isName.lineEnds_opening, lineEnds_properties named.isNames, hends]
  | @close name isName =>
      have hname := isName.not_mem (c := '\r') (by decide)
      have hplain : '\r' ∉ Mark.chars (.close name) := by simp [Mark.chars_close, hname]
      rw [Mark.mapValues, lineEnds_append hplain]

/-! ## Lines -/

/-- How many elements are open where the tag begins. -/
def Mark.outer (depth : Nat) : Mark → Nat
  | .close _ => depth - 1
  | .declaration | .start _ _ | .empty _ _ => depth

/-- How many elements are open behind the tag. -/
def Mark.inner (depth : Nat) : Mark → Nat
  | .close _ => depth - 1
  | .start _ _ => depth + 1
  | .declaration | .empty _ _ => depth

theorem following_cons (depth : Nat) (m : Mark) (marks : List Mark) :
    following depth (m :: marks) =
      indent (m.outer depth) ++ (m.chars ++ following (m.inner depth) marks) := by
  cases m <;> simp [following, outlineLines, indent, Mark.outer, Mark.inner]

/-- The lines of a document end where they ended, and the values in them have line
ends of their own. -/
theorem lineEnds_following {marks : List Mark} (h : ∀ m ∈ marks, m.Readable) (depth : Nat) :
    lineEnds (following depth marks) = following depth (marks.map (Mark.mapValues lineEnds)) := by
  induction marks generalizing depth with
  | nil => rfl
  | cons m marks ih =>
      have hplain : '\r' ∉ indent (m.outer depth) := by
        intro hmem
        rcases List.mem_cons.1 hmem with hfeed | hblank
        · exact absurd hfeed (by decide)
        · exact absurd (List.eq_of_mem_replicate hblank) (by decide)
      have houter : (m.mapValues lineEnds).outer depth = m.outer depth := by cases m <;> rfl
      have hinner : (m.mapValues lineEnds).inner depth = m.inner depth := by cases m <;> rfl
      rw [following_cons, lineEnds_append hplain, lineEnds_mark (h m List.mem_cons_self),
        ih fun m' hm' => h m' (List.mem_cons_of_mem m hm'), List.map_cons, following_cons,
        houter, hinner]

/-! ## Characters -/

/-- Escaping makes use of characters that documents have. -/
theorem isAllowed_escape {text : List Char} (h : ∀ c ∈ text, isAllowed c = true) :
    ∀ c ∈ escape text, isAllowed c = true := by
  intro c hc
  obtain ⟨d, hd, hmem⟩ := List.mem_flatMap.1 hc
  rcases escapeChar_eq_or d with hsame | ⟨-, name, hname, hletters, -⟩
  · rw [hsame, List.mem_singleton] at hmem
    exact hmem ▸ h d hd
  · rw [hname] at hmem
    rcases List.mem_cons.1 hmem with rfl | hmem
    · decide
    rcases List.mem_append.1 hmem with hmem | hmem
    · have hletter := List.all_eq_true.1 hletters c hmem
      have hstart : isNameStart c = true := by simp [isNameStart, hletter]
      exact isAllowed_of_isNameChar (isNameChar_of_isNameStart hstart)
    · obtain rfl := List.mem_singleton.1 hmem
      decide

theorem IsName.isAllowed {name : List Char} (h : IsName name) :
    ∀ c ∈ name, isAllowed c = true := fun c hc =>
  isAllowed_of_isNameChar (h.isNameChar_of_mem c hc)

theorem isAllowed_properties {attributes : List Property}
    (isNames : ∀ a ∈ attributes, IsName a.name)
    (allowed : ∀ a ∈ attributes, ∀ c ∈ a.value, isAllowed c = true) :
    ∀ c ∈ attributes.flatMap Property.chars, isAllowed c = true := by
  intro c hc
  obtain ⟨a, ha, hmem⟩ := List.mem_flatMap.1 hc
  have hname := (isNames a ha).isAllowed
  have hvalue := isAllowed_escape (allowed a ha)
  have hchars : ∀ c ∈ a.chars, isAllowed c = true := by
    simp only [Property.chars, List.cons_append, List.forall_mem_append,
      List.forall_mem_cons, List.not_mem_nil, IsEmpty.forall_iff, implies_true, and_true]
    exact ⟨by decide, ⟨hname, by decide, by decide, hvalue⟩, by decide⟩
  exact hchars c hmem

theorem isAllowed_mark {m : Mark} (h : m.Readable)
    (allowed : ∀ a ∈ m.attributes, ∀ c ∈ a.value, isAllowed c = true) :
    ∀ c ∈ m.chars, isAllowed c = true := by
  cases h with
  | @start name attributes named =>
      have hattributes := isAllowed_properties named.isNames allowed
      simp only [Mark.chars_start, List.forall_mem_append, List.forall_mem_cons,
        List.not_mem_nil, IsEmpty.forall_iff, implies_true, and_true]
      exact ⟨by decide, named.isName.isAllowed, hattributes, by decide⟩
  | @empty name attributes named =>
      have hattributes := isAllowed_properties named.isNames allowed
      simp only [Mark.chars_empty, List.forall_mem_append, List.forall_mem_cons,
        List.not_mem_nil, IsEmpty.forall_iff, implies_true, and_true]
      exact ⟨by decide, named.isName.isAllowed, hattributes, by decide⟩
  | @close name isName =>
      simp only [Mark.chars_close, List.forall_mem_append, List.forall_mem_cons,
        List.not_mem_nil, IsEmpty.forall_iff, implies_true, and_true]
      exact ⟨by decide, by decide, isName.isAllowed, by decide⟩

theorem isAllowed_following {marks : List Mark} (h : ∀ m ∈ marks, m.Readable)
    (allowed : ∀ m ∈ marks, ∀ a ∈ m.attributes, ∀ c ∈ a.value, isAllowed c = true)
    (depth : Nat) : ∀ c ∈ following depth marks, isAllowed c = true := by
  induction marks generalizing depth with
  | nil => intro c hc; cases hc
  | cons m marks ih =>
      have hrest := ih (fun m' hm' => h m' (List.mem_cons_of_mem m hm'))
        (fun m' hm' => allowed m' (List.mem_cons_of_mem m hm')) (m.inner depth)
      have hmark := isAllowed_mark (h m List.mem_cons_self) (allowed m List.mem_cons_self)
      have hindent : ∀ c ∈ List.replicate (2 * m.outer depth) ' ', isAllowed c = true := by
        intro c hc
        obtain rfl := List.eq_of_mem_replicate hc
        decide
      simp only [following_cons, indent, List.forall_mem_append, List.forall_mem_cons]
      exact ⟨⟨by decide, hindent⟩, hmark, hrest⟩

/-- What a declaration consists of. -/
theorem chars_declaration : Mark.declaration.chars = '<' :: '?' :: (declarationText ++ ['>']) := rfl

theorem isAllowed_declaration : ∀ c ∈ Mark.declaration.chars, isAllowed c = true := by
  have hall : ('<' :: '?' :: (declarationText ++ ['>'])).all isAllowed = true := by decide
  rw [chars_declaration]
  exact List.all_eq_true.1 hall

theorem return_not_mem_declaration : '\r' ∉ Mark.declaration.chars := by
  rw [chars_declaration]
  decide

end GroovyFindings.Xml
