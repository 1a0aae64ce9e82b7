import GroovyFindings.Proofs.Report.Passage
import GroovyFindings.Proofs.Report.Walk
import GroovyFindings.Proofs.Xml.Text

/-!
# Character data

Character data is text and literal sections in any mix.  The reader of a report
takes every text between two pieces of markup by itself and drops the blanks at
both its ends; of a literal section it keeps everything.  So what it hears is the
character data without some of its blanks.  `CharacterData.marks` says which: it is
the character data, character by character, each with whether it is heard.

## Main definitions

* `Section`, `CharacterData` — character data, as it is written.
* `CharacterData.chars` — what it says.
* `CharacterData.marks`, `CharacterData.heard` — what of it the reader hears.

## Main results

* `Token.complete_cdata` — a literal section ends at its end mark.
* `CharacterData.stretch` — how character data is read.
* `run_characterData` — what is heard of it.
* `CharacterData.trim_heard_eq_iff` — when that makes no difference.
-/

namespace GroovyFindings.Xml.Token

/-! ## Literal sections -/

/-- What `done` ends first, by all the places where a closing bracket stands. -/
theorem endsFirst_of_splits {done : List UInt8 → Bool} {read content : List UInt8}
    (ends : done (content.reverse ++ read) = true)
    (first : ∀ before after, content = before ++ 0x3E :: after →
      done (before.reverse ++ read) = false) :
    EndsFirst done read content := by
  induction content generalizing read with
  | nil => exact ends
  | cons b content ih =>
      constructor
      · rintro ⟨rfl, hdone⟩
        have hnot := first [] content rfl
        rw [List.reverse_nil, List.nil_append, hdone] at hnot
        cases hnot
      · apply ih
        · simpa using ends
        · rintro before after rfl
          simpa using first (b :: before) after rfl

/-- The mark that begins a literal section, behind its exclamation mark. -/
def cdataMark : List UInt8 := [0x5B, 0x43, 0x44, 0x41, 0x54, 0x41, 0x5B]

/-- Where two brackets and a closing one stand in the section or behind it, they
stand in it. -/
private theorem infix_of_append {literal before after : List UInt8}
    (h : literal ++ [0x5D, 0x5D] = before ++ 0x5D :: 0x5D :: 0x3E :: after) :
    [0x5D, 0x5D, 0x3E] <:+: literal := by
  have hsplit : literal ++ [0x5D, 0x5D] = (before ++ [0x5D, 0x5D]) ++ 0x3E :: after := by
    rw [h]
    simp
  rcases List.append_eq_append_iff.1 hsplit with ⟨more, -, hmore⟩ | ⟨more, rfl, hmore⟩
  · have hmem : (0x3E : UInt8) ∈ [0x5D, 0x5D] := by
      rw [hmore]
      simp
    simp at hmem
  · cases more with
    | nil => simp at hmore
    | cons b more =>
        obtain ⟨rfl, -⟩ := List.cons.inj hmore
        exact ⟨before, more, by simp⟩

/-- A literal section does not have its end mark in it. -/
theorem complete_cdata {literal : List UInt8} (unclosed : ¬[0x5D, 0x5D, 0x3E] <:+: literal) :
    Complete (.cdata literal) (0x21 :: (cdataMark ++ literal ++ [0x5D, 0x5D, 0x3E])) := by
  have marks : ofCdata (cdataMark ++ literal ++ [0x5D, 0x5D]) = .ok (.cdata literal) := by
    have hdrop : ((cdataMark ++ literal ++ [0x5D, 0x5D]).drop 7).dropLast.dropLast = literal := by
      have hlast : literal ++ [0x5D, 0x5D] = literal ++ [0x5D] ++ [0x5D] := by simp
      rw [List.append_assoc, List.drop_append_of_le_length (by decide)]
      show (literal ++ [0x5D, 0x5D]).dropLast.dropLast = literal
      rw [hlast, List.dropLast_concat, List.dropLast_concat]
    rw [ofCdata, hdrop]
    rfl
  have first : EndsFirst cdataDone [] (cdataMark ++ literal ++ [0x5D, 0x5D]) := by
    apply endsFirst_of_splits
    · simp [cdataDone]
    · intro before after hsplit
      rw [List.append_nil]
      by_contra hdone
      rw [Bool.not_eq_false, cdataDone, List.isPrefixOf_iff_prefix] at hdone
      obtain ⟨read, hread⟩ := hdone
      obtain rfl : before = read.reverse ++ [0x5D, 0x5D] := by
        rw [← List.reverse_reverse before, ← hread]
        simp
      have hends : cdataMark ++ (literal ++ [0x5D, 0x5D]) =
          read.reverse ++ 0x5D :: 0x5D :: 0x3E :: after := by
        simpa using hsplit
      -- the two brackets do not stand in the mark that begins the section
      rcases List.append_eq_append_iff.1 hends with ⟨more, -, hmore⟩ | ⟨more, hmark, hmore⟩
      · exact unclosed (infix_of_append hmore)
      · cases more with
        | nil =>
            have hstart : literal ++ [0x5D, 0x5D] = [] ++ 0x5D :: 0x5D :: 0x3E :: after :=
              hmore.symm
            exact unclosed (infix_of_append hstart)
        | cons b more =>
            obtain ⟨rfl, -⟩ := List.cons.inj hmore
            have hmem : (0x5D : UInt8) ∈ cdataMark := by
              rw [hmark]
              simp
            revert hmem
            decide
  have complete : Complete (.cdata literal)
      (0x21 :: (cdataMark ++ literal ++ [0x5D, 0x5D] ++ [0x3E])) := Complete.cdata first marks
  rwa [List.append_assoc (cdataMark ++ literal)] at complete

end GroovyFindings.Xml.Token

namespace GroovyFindings.Report

open GroovyFindings.Xml (Stretch Token Readable inkOf blanksBefore blanksBehind textEvents)

variable {s s' : State} {items : List Item}

/-! ## Texts -/

/-- The characters of a text, each with whether it is heard: the blanks at the ends
are not. -/
def marksOf (text : List UInt8) : List (Char × Bool) :=
  (charsOf (blanksBefore text)).map (·, false) ++ (charsOf (inkOf text)).map (·, true) ++
    (charsOf (blanksBehind text)).map (·, false)

theorem kept_marksOf (text : List UInt8) : Text.kept (marksOf text) = charsOf (inkOf text) := by
  simp [Text.kept, marksOf, List.filter_map, Function.comp_def]

/-- Of text that can be read, the marks are the characters, and what is not heard
are blanks. -/
theorem marksOf_of_readable {text : List UInt8} (readable : Readable text) :
    (marksOf text).map Prod.fst = charsOf text ∧
      ∀ m ∈ marksOf text, m.2 = false → Text.isBlank m.1 = true := by
  obtain ⟨before, hbefore, blankBefore⟩ :=
    Xml.exists_textOf_of_space (Xml.blank_blanksBefore text)
  obtain ⟨behind, hbehind, blankBehind⟩ :=
    Xml.exists_textOf_of_space (Xml.blank_blanksBehind text)
  have hcore : ∃ core, Xml.textOf (inkOf text) = .ok core := by
    rw [← Xml.blanks_ink_blanks text] at readable
    exact (Xml.readable_append_iff (Xml.blank_blanksBefore text) (Xml.inked_inkOf text)
      (Xml.blank_blanksBehind text)).1 readable
  obtain ⟨core, hcore⟩ := hcore
  have hmarks : marksOf text =
      before.map (·, false) ++ core.map (·, true) ++ behind.map (·, false) := by
    rw [marksOf, charsOf_of_ok hbefore, charsOf_of_ok hcore, charsOf_of_ok hbehind]
  have hwhole : charsOf text = before ++ core ++ behind := by
    apply charsOf_of_ok
    have hread := Xml.textOf_append (Xml.textOf_append hbefore hcore) hbehind
    rwa [Xml.blanks_ink_blanks] at hread
  rw [hmarks, hwhole]
  constructor
  · simp [Function.comp_def]
  · intro m hm hunheard
    simp only [List.mem_append, List.mem_map] at hm
    rcases hm with (⟨c, hc, rfl⟩ | ⟨c, -, rfl⟩) | ⟨c, hc, rfl⟩
    · exact blankBefore c hc
    · cases hunheard
    · exact blankBehind c hc

/-! ## Hearing -/

theorem Scope.text_nil (scope : Scope) : scope.text [] = scope := by
  unfold Scope.text
  split
  · next p hpending _ => simp [← hpending]
  · rfl

theorem Scope.text_text (scope : Scope) (chars more : List Char) :
    (scope.text chars).text more = scope.text (chars ++ more) := by
  cases hpending : scope.pending with
  | none => simp [Scope.text, hpending]
  | some p => cases hinside : scope.inMessage <;> simp [Scope.text, hpending, hinside]

/-- The reader behind text of which it hears `chars`. -/
def State.hears (s : State) (chars : List Char) : State := { s with scope := s.scope.text chars }

theorem State.hears_nil (s : State) : s.hears [] = s := by
  rw [State.hears, Scope.text_nil]

theorem State.hears_hears (s : State) (chars more : List Char) :
    (s.hears chars).hears more = s.hears (chars ++ more) := by
  simp only [State.hears, Scope.text_text]

/-- Of text, what remains without the blanks at its ends is heard. -/
theorem run_text {text : List UInt8} (h : run s (textEvents text) = (items, .ok s')) :
    items = [] ∧ s' = s.hears (Text.kept (marksOf text)) := by
  rw [kept_marksOf]
  rw [Xml.textEvents_eq] at h
  split at h
  · next hblank =>
      obtain ⟨rfl, rfl⟩ := by simpa [run] using h
      have hnone : charsOf [] = [] := charsOf_of_ok (Xml.textOf_encode_escape [])
      rw [hblank, hnone]
      exact ⟨rfl, s.hears_nil.symm⟩
  · obtain ⟨mid, item, _, hstep, hend, rfl⟩ := run_cons_eq_ok h
    obtain ⟨rfl, rfl⟩ := by simpa [run] using hend
    obtain ⟨chars, hchars, rfl, rfl⟩ := step_text hstep
    rw [charsOf_of_ok hchars]
    exact ⟨rfl, rfl⟩

/-! ## Character data -/

/-- Text, and a literal section behind it. -/
structure Section where
  text : List UInt8
  literal : List UInt8
  plain : 0x3C ∉ text
  unclosed : ¬[0x5D, 0x5D, 0x3E] <:+: literal

/-- Sections, and text behind them. -/
structure CharacterData where
  sections : List Section
  last : List UInt8
  plain : 0x3C ∉ last

namespace Section

/-- How a section is written. -/
def bytes (x : Section) : List UInt8 :=
  x.text ++ 0x3C :: 0x21 :: (Token.cdataMark ++ x.literal ++ [0x5D, 0x5D, 0x3E])

/-- What it says: references in the text are resolved, the literal section is taken
as it stands. -/
def chars (x : Section) : List Char := charsOf x.text ++ Utf8.decodeLossy x.literal

def events (x : Section) : List Xml.Event := textEvents x.text ++ [.cdata x.literal]

/-- What it says, with what is heard of it. -/
def marks (x : Section) : List (Char × Bool) :=
  marksOf x.text ++ (Utf8.decodeLossy x.literal).map (·, true)

end Section

namespace CharacterData

variable (d : CharacterData)

/-- How character data is written. -/
def bytes : List UInt8 := d.sections.flatMap Section.bytes ++ d.last

/-- What it says. -/
def chars : List Char := d.sections.flatMap Section.chars ++ charsOf d.last

def events : List Xml.Event := d.sections.flatMap Section.events ++ textEvents d.last

/-- What it says, with what is heard of it. -/
def marks : List (Char × Bool) := d.sections.flatMap Section.marks ++ marksOf d.last

/-- What is heard of it. -/
def heard : List Char := Text.kept d.marks

end CharacterData

/-- Sections are complete markup with text before each piece. -/
theorem stretch_sections (opened : List (List UInt8)) (xs : List Section) :
    Stretch opened (xs.flatMap Section.bytes) (xs.flatMap Section.events) opened := by
  induction xs with
  | nil => exact .nil
  | cons x xs ih =>
      have taken : Xml.Event.ofToken opened (.cdata x.literal) =
          .ok (some (.cdata x.literal), opened) := rfl
      have hread := Stretch.markup x.plain (Token.complete_cdata x.unclosed) taken ih
      simpa [List.flatMap_cons, Section.bytes, Section.events] using hread

namespace Section

theorem kept_marks (x : Section) :
    Text.kept x.marks = Text.kept (marksOf x.text) ++ Utf8.decodeLossy x.literal := by
  rw [marks, Text.kept_append]
  simp [Text.kept, List.filter_map, Function.comp_def]

/-- Of a section, the text is heard without its blanks, and the literal section. -/
theorem run_eq_ok {x : Section} (h : run s x.events = (items, .ok s')) :
    items = [] ∧ s' = s.hears (Text.kept x.marks) ∧ Readable x.text := by
  obtain ⟨mid, _, _, htext, hliteral, rfl⟩ := run_append_eq_ok h
  obtain ⟨rfl, rfl⟩ := run_text htext
  obtain ⟨last, _, _, hstep, hend, rfl⟩ := run_cons_eq_ok hliteral
  obtain ⟨rfl, rfl⟩ := by simpa [run] using hend
  rw [step_cdata] at hstep
  obtain ⟨rfl, rfl⟩ := by simpa using hstep
  refine ⟨rfl, ?_, readable_of_run htext⟩
  rw [kept_marks, ← State.hears_hears]
  rfl

/-- The marks of a section that can be read are what it says, and what is not heard
of it are blanks. -/
theorem marks_of_readable {x : Section} (readable : Readable x.text) :
    x.marks.map Prod.fst = x.chars ∧ ∀ m ∈ x.marks, m.2 = false → Text.isBlank m.1 = true := by
  obtain ⟨hchars, hblank⟩ := marksOf_of_readable readable
  constructor
  · rw [marks, chars, List.map_append, hchars]
    simp [Function.comp_def]
  · intro m hm hunheard
    rcases List.mem_append.1 hm with hm | hm
    · exact hblank m hm hunheard
    · obtain ⟨c, -, rfl⟩ := List.mem_map.1 hm
      cases hunheard

end Section

/-- Of sections one after the other, every text is heard without its blanks. -/
theorem run_sections {xs : List Section}
    (h : run s (xs.flatMap Section.events) = (items, .ok s')) :
    items = [] ∧ s' = s.hears (Text.kept (xs.flatMap Section.marks)) ∧
      ∀ x ∈ xs, Readable x.text := by
  induction xs generalizing s items with
  | nil =>
      obtain ⟨rfl, rfl⟩ := by simpa [run] using h
      exact ⟨rfl, s.hears_nil.symm, by simp⟩
  | cons x xs ih =>
      rw [List.flatMap_cons] at h
      obtain ⟨mid, _, _, hfirst, hrest, rfl⟩ := run_append_eq_ok h
      obtain ⟨rfl, rfl, readable⟩ := Section.run_eq_ok hfirst
      obtain ⟨rfl, rfl, readableRest⟩ := ih hrest
      refine ⟨rfl, ?_, List.forall_mem_cons.2 ⟨readable, readableRest⟩⟩
      rw [State.hears_hears, List.flatMap_cons, Text.kept_append]

namespace CharacterData

variable {d : CharacterData}

/-- The texts of character data can be read. -/
def Legible (d : CharacterData) : Prop := (∀ x ∈ d.sections, Readable x.text) ∧ Readable d.last

theorem run_eq_ok (h : run s d.events = (items, .ok s')) :
    items = [] ∧ s' = s.hears d.heard ∧ d.Legible := by
  obtain ⟨mid, _, _, hsections, hlast, rfl⟩ := run_append_eq_ok h
  obtain ⟨rfl, rfl, readable⟩ := run_sections hsections
  obtain ⟨rfl, rfl⟩ := run_text hlast
  refine ⟨rfl, ?_, readable, readable_of_run hlast⟩
  rw [State.hears_hears, heard, marks, Text.kept_append]

theorem map_marks (legible : d.Legible) : d.marks.map Prod.fst = d.chars := by
  have hsections : ∀ xs : List Section, (∀ x ∈ xs, Readable x.text) →
      (xs.flatMap Section.marks).map Prod.fst = xs.flatMap Section.chars := by
    intro xs readable
    rw [List.map_flatMap]
    apply List.flatMap_congr
    intro x hx
    exact (Section.marks_of_readable (readable x hx)).1
  rw [marks, chars, List.map_append, hsections _ legible.1, (marksOf_of_readable legible.2).1]

theorem blank_of_unheard (legible : d.Legible) :
    ∀ m ∈ d.marks, m.2 = false → Text.isBlank m.1 = true := by
  intro m hm
  rcases List.mem_append.1 hm with hm | hm
  · obtain ⟨x, hx, hmx⟩ := List.mem_flatMap.1 hm
    exact (Section.marks_of_readable (legible.1 x hx)).2 m hmx
  · exact (marksOf_of_readable legible.2).2 m hm

/-- What is not heard makes no difference to a message if it stands before all else
or behind all else, and only then. -/
theorem trim_heard_eq_iff (legible : d.Legible) :
    Text.trim d.heard = Text.trim d.chars ↔ ∀ m ∈ Text.inside d.marks, m.2 = true := by
  rw [← map_marks legible]
  exact Text.trim_kept_eq_iff (blank_of_unheard legible)

end CharacterData

end GroovyFindings.Report
