import GroovyFindings.Proofs.Report.Run
import GroovyFindings.Proofs.Xml.Name

/-!
# Passages of a report

A passage is a piece of a document that closes what it opens and that the
reader gets through from one state to another.  Passages can be put behind
each other and enclosed in elements, so that what a document says can be
composed from what its pieces say.

The text that a passage ends with has not been taken yet: the text behind it
belongs to the same token.  Passages meet where text is not listened to.

## Main definitions

* `Scope.Silent` — where text is not listened to.
* `Passage` — the reader gets through a piece of a document.
* `written` — an element with a tag of any form.
* `inRoot` — where the reader stands in the root.

## Main results

* `Passage.append` — two passages, the first of which ends in silence.
* `Passage.element`, `Passage.written` — a passage in an element.
* `Passage.readBytes_eq`, `Passage.readBytes_root` — a passage that is a
  document, or the body of one.
-/

namespace GroovyFindings.Report

open GroovyFindings.Xml (Stretch Token Readable Tag WrittenTag Lettered eventsFrom textEvents)

variable {s s' s'' : State} {items items' : List Item}

/-! ## Silence -/

/-- Text is not listened to. -/
def Scope.Silent (scope : Scope) : Prop := ∀ chars, scope.text chars = scope

theorem Scope.silent_of_no_pending {scope : Scope} (h : scope.pending = none) :
    scope.Silent := by
  intro chars
  unfold Scope.text
  split
  · next p hpending _ =>
      rw [h] at hpending
      cases hpending
  · rfl

theorem Scope.silent_of_not_inMessage {scope : Scope} (h : scope.inMessage = false) :
    scope.Silent := by
  intro chars
  unfold Scope.text
  split
  · next p _ hinside =>
      rw [h] at hinside
      cases hinside
  · rfl

/-- In silence readable text changes nothing. -/
theorem run_textEvents {text : List UInt8} (silent : s.scope.Silent)
    (readable : Readable text) : run s (textEvents text) = ([], .ok s) := by
  rcases Xml.textEvents_cases text with hblank | ⟨raw, hraw⟩
  · rw [hblank]
    rfl
  · obtain ⟨chars, hchars⟩ := readable raw (by simp [hraw])
    have hstep : step s (.text raw) = .ok (s, none) := by
      simp only [step, hchars, silent chars]
    rw [hraw, run_cons hstep]
    rfl

/-- Text in which nothing fails can be read. -/
theorem readable_of_run {text : List UInt8}
    (h : run s (textEvents text) = (items, .ok s')) : Readable text := by
  intro raw hmem
  rcases Xml.textEvents_cases text with hblank | ⟨raw', hraw⟩
  · simp [hblank] at hmem
  · rw [hraw] at hmem h
    obtain rfl : raw = raw' := by simpa using hmem
    obtain ⟨mid, _, _, hstep, -, -⟩ := run_cons_eq_ok h
    obtain ⟨chars, hchars, -, -⟩ := step_text hstep
    exact ⟨chars, hchars⟩

/-! ## Passages -/

/-- From the state `s` the reader gets through the bytes, which close what they
open, to the state `s'`, and yields the items; the text that the bytes end with
can be read too. -/
def Passage (s : State) (bytes : List UInt8) (items : List Item) (s' : State) : Prop :=
  ∃ read text events, bytes = read ++ text ∧ Stretch [] read events [] ∧ 0x3C ∉ text ∧
    run s events = (items, .ok s') ∧ Readable text

namespace Passage

theorem text {text : List UInt8} (plain : 0x3C ∉ text) (readable : Readable text) :
    Passage s text [] s :=
  ⟨[], text, [], rfl, .nil, plain, rfl, readable⟩

/-- Two passages behind each other.  The text that the first one ends with and
that the second one begins with are read as one. -/
theorem append {bytes bytes' : List UInt8} (h : Passage s bytes items s')
    (silent : s'.scope.Silent) (h' : Passage s' bytes' items' s'') :
    Passage s (bytes ++ bytes') (items ++ items') s'' := by
  obtain ⟨read, text, events, rfl, hread, plain, hrun, readable⟩ := h
  obtain ⟨read', text', events', rfl, hread', plain', hrun', readable'⟩ := h'
  cases hread' with
  | nil =>
      obtain ⟨rfl, rfl⟩ : items' = [] ∧ s' = s'' := by simpa [run, eq_comm] using hrun'
      have hplain : 0x3C ∉ text ++ text' := by simp [plain, plain']
      exact ⟨read, text ++ text', events, by simp, hread, hplain, by simpa using hrun,
        readable.append readable'⟩
  | @markup _ inner _ first m bytes token event rest plainFirst complete taken hrest =>
      obtain ⟨mid, _, items'', hfirst, hbehind, rfl⟩ := run_append_eq_ok hrun'
      have readableFirst := readable_of_run hfirst
      rw [run_textEvents silent readableFirst] at hfirst
      obtain ⟨rfl, rfl⟩ := by simpa using hfirst
      have hseam := run_textEvents silent (readable.append readableFirst)
      have hplain : 0x3C ∉ text ++ first := by simp [plain, plainFirst]
      refine ⟨_, text', _, ?_, hread.append (.markup hplain complete taken hrest), plain',
        ?_, readable'⟩
      · simp only [List.append_assoc, List.cons_append]
      · rw [run_append, hrun]
        simp only
        rw [run_append, hseam]
        simp only [hbehind, List.nil_append]

/-! ## Elements -/

/-- What is in an element is read between its tags, the text before the end tag
included. -/
theorem of_element {mid mid' : State} {item : Option Item}
    {content read text name : List UInt8} {events : List Xml.Event}
    (opens : Xml.Opens content name) (hread : Stretch [] read events [])
    (plain : 0x3C ∉ text)
    (henter : step s (.start (Tag.ofContent content)) = .ok (mid, none))
    (hinner : run mid (events ++ textEvents text) = (items, .ok mid'))
    (hleave : step mid' .close = .ok (s', item)) :
    Passage s (Xml.elementOf content (read ++ text) name) (items ++ item.toList) s' := by
  have hrun : run s (.start (Tag.ofContent content) ::
      (events ++ (textEvents text ++ [.close]))) = (items ++ item.toList, .ok s') := by
    rw [run_cons henter, ← List.append_assoc, run_append, hinner]
    simp only
    rw [run_cons hleave]
    simp [run]
  have hend := (List.append_nil (Xml.elementOf content (read ++ text) name)).symm
  exact ⟨_, [], _, hend, hread.element opens plain, by simp, hrun, Xml.readable_nil⟩

/-- A passage in an element that ends in silence. -/
theorem element {mid mid' : State} {item : Option Item} {content body name : List UInt8}
    (opens : Xml.Opens content name)
    (henter : step s (.start (Tag.ofContent content)) = .ok (mid, none))
    (h : Passage mid body items mid') (silent : mid'.scope.Silent)
    (hleave : step mid' .close = .ok (s', item)) :
    Passage s (Xml.elementOf content body name) (items ++ item.toList) s' := by
  obtain ⟨read, text, events, rfl, hread, plain, hrun, readable⟩ := h
  have hinner : run mid (events ++ textEvents text) = (items, .ok mid') := by
    rw [run_append, hrun]
    simp only
    rw [run_textEvents silent readable, List.append_nil]
  exact of_element opens hread plain henter hinner hleave

/-- A document that is a passage. -/
theorem readBytes_eq {doc : List UInt8} (h : Passage {} doc items s')
    (unmarked : Xml.withoutMark doc = doc) (silent : s'.scope.Silent)
    (hend : s'.endError? = none) : readBytes doc = ⟨items, none⟩ := by
  obtain ⟨read, text, events, rfl, hread, plain, hrun, readable⟩ := h
  rw [readBytes_eq_resume, unmarked, resume_stretch hread hrun, Xml.eventsFrom_text plain]
  simp only [resume, run_textEvents silent readable, List.append_nil, hend]

end Passage

/-! ## Elements of a name -/

/-- An element with the given tag and body. -/
def written (name : String) (tag : WrittenTag) (body : List UInt8) : List UInt8 :=
  Xml.elementOf (tag.content (Utf8.ofString name)) body (Utf8.ofString name)

section Written

variable {name : String} {opened : List String} {rooted : Bool}
  {scope inner inner' outer : Scope} {item : Option Item}

/-- The start tag of a written element is entered. -/
theorem step_written (hname : Lettered name) (tag : WrittenTag)
    (hroot : opened ≠ [] ∨ rooted = false)
    (henter : scope.enter name (Tag.ofContent (tag.content (Utf8.ofString name))) =
      .ok inner) :
    step ⟨scope, opened, rooted⟩
        (.start (Tag.ofContent (tag.content (Utf8.ofString name)))) =
      .ok (⟨inner, name :: opened, true⟩, none) := by
  have hlocal := hname.localName_ofContent tag
  have hstep := step_start_of_enter (s := ⟨scope, opened, rooted⟩) hroot
    (by rw [hlocal]; exact henter)
  rw [hlocal] at hstep
  exact hstep

theorem step_close_written (hleave : inner'.leave name = (outer, item)) :
    step ⟨inner', name :: opened, true⟩ .close = .ok (⟨outer, opened, true⟩, item) := by
  have hstep := step_close (s := ⟨inner', name :: opened, true⟩) rfl
  rw [hleave] at hstep
  exact hstep

/-- A written element, whose inside is a passage that ends in silence. -/
theorem Passage.written (hname : Lettered name) (tag : WrittenTag) {body : List UInt8}
    (hroot : opened ≠ [] ∨ rooted = false)
    (henter : scope.enter name (Tag.ofContent (tag.content (Utf8.ofString name))) =
      .ok inner)
    (h : Passage ⟨inner, name :: opened, true⟩ body items ⟨inner', name :: opened, true⟩)
    (silent : inner'.Silent) (hleave : inner'.leave name = (outer, item)) :
    Passage ⟨scope, opened, rooted⟩ (Report.written name tag body)
      (items ++ item.toList) ⟨outer, opened, true⟩ :=
  Passage.element (tag.opens hname.tagName) (step_written hname tag hroot henter) h silent
    (step_close_written hleave)

end Written

/-! ## The root -/

/-- Where the reader stands in the root, when nothing is being read. -/
def inRoot : State := { opened := ["CodeNarc"], rooted := true }

theorem lettered_root : Lettered "CodeNarc" := by decide

theorem step_root (tag : WrittenTag) :
    step {} (.start (Tag.ofContent (tag.content (Utf8.ofString "CodeNarc")))) =
      .ok (inRoot, none) := by
  have henter : Scope.enter {} "CodeNarc"
      (Tag.ofContent (tag.content (Utf8.ofString "CodeNarc"))) = .ok {} := by
    simp [Scope.enter, Element.ofName?]
  exact step_written lettered_root tag (.inr rfl) henter

/-- A document whose root is a passage. -/
theorem Passage.readBytes_root (tag : WrittenTag) {body : List UInt8}
    (h : Passage inRoot body items inRoot) :
    readBytes (Report.written "CodeNarc" tag body) = ⟨items, none⟩ := by
  have silent : inRoot.scope.Silent := Scope.silent_of_no_pending rfl
  have hleave : Scope.leave {} "CodeNarc" = ({}, none) := by
    simp [Scope.leave, Element.ofName?]
  have hdoc := Passage.element (tag.opens lettered_root.tagName) (step_root tag) h silent
    (step_close_written hleave)
  rw [Option.toList_none, List.append_nil] at hdoc
  exact hdoc.readBytes_eq rfl silent rfl

end GroovyFindings.Report
