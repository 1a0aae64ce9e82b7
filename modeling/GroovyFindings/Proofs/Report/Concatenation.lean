import GroovyFindings.Proofs.Report.Passage
import GroovyFindings.Proofs.Xml.EndTag

/-!
# Reports behind each other

What stands in the root of a report can be taken out of it and put behind
what stands in the root of another: nothing that the reader remembers is left
over from one to the other.

That a body is accepted in a root says a lot about its bytes.  It closes what
it opens, nothing in it swallows the root's end tag, and the text that it
ends with can be read.  `SelfContained` collects that; it is what acceptance
amounts to, and it holds of two bodies behind each other.

## Main definitions

* `enclosed` — a body in a root.
* `Settled` — what an element leaves behind of what is remembered.
* `SelfContained` — bodies that are read to their end and leave nothing
  behind.

## Main results

* `settled_of_run` — an element clears what it sets.
* `selfContained_iff` — accepted bodies are the self-contained ones.
* `readBytes_enclosed_append` — two reports as one.
-/

namespace GroovyFindings.Report

open GroovyFindings.Xml (Content Stretch Stuck WrittenTag eventsFrom textEvents)

variable {s s' : State} {items : List Item}

/-! ## What an element leaves behind -/

/-- What is remembered behind an element: as before it, or nothing. -/
structure Settled (before after : Scope) : Prop where
  package : after.package = before.package ∨ after.package = ""
  file : after.file = before.file ∨ after.file = none
  pending : before.pending = none → after.pending = none
  inMessage : before.inMessage = false → after.inMessage = false

namespace Settled

variable {before between after : Scope}

theorem refl (scope : Scope) : Settled scope scope :=
  ⟨.inl rfl, .inl rfl, id, id⟩

theorem trans (h : Settled before between) (h' : Settled between after) :
    Settled before after where
  package := by
    rcases h'.package with heq | heq
    · rw [heq]
      exact h.package
    · exact .inr heq
  file := by
    rcases h'.file with heq | heq
    · rw [heq]
      exact h.file
    · exact .inr heq
  pending := fun hnone => h'.pending (h.pending hnone)
  inMessage := fun hfalse => h'.inMessage (h.inMessage hfalse)

/-- Where nothing is remembered, nothing is remembered behind an element. -/
theorem eq_default (h : Settled {} after) : after = {} := by
  have hpackage : after.package = "" := by simpa using h.package
  have hfile : after.file = none := by simpa using h.file
  have hpending : after.pending = none := h.pending rfl
  have hinMessage : after.inMessage = false := h.inMessage rfl
  cases after
  simp_all

theorem text (scope : Scope) (chars : List Char) : Settled scope (scope.text chars) := by
  unfold Scope.text
  split
  · next p hpending _ =>
      refine ⟨.inl rfl, .inl rfl, ?_, id⟩
      intro hnone
      rw [hpending] at hnone
      cases hnone
  · exact refl scope

end Settled

/-- An element sets what its end clears, and nothing else. -/
theorem enterElement_eq_ok {scope entered : Scope} {tag : Xml.Tag} {e : Element}
    (h : scope.enterElement tag e = .ok entered) :
    match e with
    | .package => ∃ path, entered = { scope with package := path }
    | .file => ∃ file, entered = { scope with file := file }
    | .violation => ∃ pending, entered = { scope with pending := pending }
    | .message => ∃ inside, entered = { scope with inMessage := inside } := by
  cases e with
  | package =>
      cases hpath : tag.attribute? "path" with
      | error err => simp [Scope.enterElement, hpath, bind, Except.bind] at h
      | ok path =>
          simp only [Scope.enterElement, hpath] at h
          exact ⟨_, (Except.ok.inj h).symm⟩
  | file =>
      cases hname : tag.attribute? "name" with
      | error err => simp [Scope.enterElement, hname, bind, Except.bind] at h
      | ok name =>
          simp only [Scope.enterElement, hname] at h
          exact ⟨_, (Except.ok.inj h).symm⟩
  | violation =>
      cases hrule : tag.attribute? "ruleName" with
      | error err => simp [Scope.enterElement, hrule, bind, Except.bind] at h
      | ok rule =>
          cases hline : tag.attribute? "lineNumber" with
          | error err => simp [Scope.enterElement, hrule, hline, bind, Except.bind] at h
          | ok line =>
              simp only [Scope.enterElement, hrule, hline] at h
              exact ⟨_, (Except.ok.inj h).symm⟩
  | message => exact ⟨_, (Except.ok.inj h).symm⟩

/-- An element clears what it sets, whatever is in it. -/
theorem Settled.enter_leave {scope entered inner : Scope} {name : String} {tag : Xml.Tag}
    (henter : scope.enter name tag = .ok entered) (hinner : Settled entered inner) :
    Settled scope (inner.leave name).1 := by
  unfold Scope.enter at henter
  unfold Scope.leave
  cases helem : Element.ofName? name with
  | none =>
      simp only [helem] at henter ⊢
      obtain rfl := Except.ok.inj henter
      exact hinner
  | some e =>
      simp only [helem] at henter ⊢
      have hset := enterElement_eq_ok henter
      cases e with
      | package =>
          obtain ⟨path, rfl⟩ := hset
          exact ⟨.inr rfl, hinner.file, hinner.pending, hinner.inMessage⟩
      | file =>
          obtain ⟨file, rfl⟩ := hset
          exact ⟨hinner.package, .inr rfl, hinner.pending, hinner.inMessage⟩
      | violation =>
          obtain ⟨pending, rfl⟩ := hset
          exact ⟨hinner.package, hinner.file, fun _ => rfl, hinner.inMessage⟩
      | message =>
          obtain ⟨inside, rfl⟩ := hset
          exact ⟨hinner.package, hinner.file, hinner.pending, fun _ => rfl⟩

/-- Behind content, what is in it has cleared what it set. -/
theorem settled_of_run {content : Content} (h : run s content.events = (items, .ok s')) :
    Settled s.scope s'.scope := by
  induction content generalizing s s' items with
  | nil =>
      obtain ⟨-, rfl⟩ := by simpa [Content.events, run] using h
      exact .refl _
  | text raw rest ih =>
      obtain ⟨mid, _, _, hstep, hrest, -⟩ := run_cons_eq_ok h
      obtain ⟨chars, -, -, rfl⟩ := step_text hstep
      exact (Settled.text s.scope chars).trans (ih hrest)
  | cdata raw rest ih =>
      obtain ⟨mid, _, _, hstep, hrest, -⟩ := run_cons_eq_ok h
      rw [step_cdata] at hstep
      obtain ⟨rfl, -⟩ := by simpa using hstep
      exact (Settled.text s.scope _).trans (ih hrest)
  | empty tag rest ih =>
      obtain ⟨mid, _, _, hstep, hrest, -⟩ := run_cons_eq_ok h
      obtain ⟨scope, henter, -, -, rfl⟩ := step_empty hstep
      exact (Settled.enter_leave henter (.refl scope)).trans (ih hrest)
  | element tag inner rest ihInner ihRest =>
      obtain ⟨scope, mid, _, _, henter, hinner, hrest, -⟩ := run_element_eq_ok h
      exact (Settled.enter_leave henter (ihInner hinner)).trans (ihRest hrest)

/-! ## Bodies of reports -/

/-- The name of the root. -/
def rootName : List UInt8 := Utf8.ofString "CodeNarc"

/-- A body in a root. -/
def enclosed (body : List UInt8) : List UInt8 :=
  Utf8.ofString "<CodeNarc>" ++ body ++ Utf8.ofString "</CodeNarc>"

/-- The body leads back to where the reader stands, and yields the items. -/
def SelfContained (body : List UInt8) (items : List Item) : Prop :=
  Passage inRoot body items inRoot

/-! ## What acceptance amounts to -/

private theorem ordinary_rootName : Xml.Ordinary rootName := lettered_root.ordinary

private theorem opens_rootName : Xml.Opens rootName rootName := by
  have opens := WrittenTag.bare.opens lettered_root.tagName
  rwa [WrittenTag.content_bare] at opens

private theorem step_rootName :
    step {} (.start (Xml.Tag.ofContent rootName)) = .ok (inRoot, none) := by
  have hstep := step_root .bare
  rwa [WrittenTag.content_bare] at hstep

private theorem enclosed_eq (body : List UInt8) :
    enclosed body = written "CodeNarc" .bare body := by
  have hstart : Utf8.ofString "<CodeNarc>" = 0x3C :: (rootName ++ [0x3E]) := rfl
  have hend : Utf8.ofString "</CodeNarc>" = Xml.endTagOf rootName := rfl
  rw [enclosed, hstart, hend, written, WrittenTag.content_bare, Xml.elementOf]
  simp only [List.cons_append, List.append_assoc, List.nil_append, rootName]

/-- A body in a root is read from within the root. -/
private theorem readBytes_enclosed (body : List UInt8) :
    readBytes (enclosed body) =
      resume inRoot (eventsFrom none [rootName] (body ++ Xml.endTagOf rootName)) := by
  have taken : Xml.Event.ofToken [] (.tag rootName) =
      .ok (some (.start (Xml.Tag.ofContent rootName)), [rootName]) := by
    simp only [Xml.Event.ofToken, if_neg opens_rootName.unclosed, opens_rootName.name_eq]
  have hrun : run {} [.start (Xml.Tag.ofContent rootName)] = ([], .ok inRoot) := by
    rw [run_cons step_rootName]
    rfl
  have hbytes : written "CodeNarc" .bare body =
      0x3C :: (rootName ++ [0x3E] ++ (body ++ Xml.endTagOf rootName)) := by
    simp [written, Xml.elementOf, rootName]
  have hmark : Xml.withoutMark (written "CodeNarc" .bare body) =
      written "CodeNarc" .bare body := rfl
  rw [readBytes_eq_resume, enclosed_eq, hmark, hbytes,
    Xml.eventsFrom_complete opens_rootName.complete taken]
  exact resume_append hrun

/-- A self-contained body is accepted, with the items that it yields. -/
theorem SelfContained.readBytes_eq {body : List UInt8} (h : SelfContained body items) :
    readBytes (enclosed body) = ⟨items, none⟩ := by
  rw [enclosed_eq]
  exact Passage.readBytes_root .bare h

/-- Behind the last complete markup of an accepted body there is text: nothing
swallows the root's end tag. -/
private theorem text_of_accepted {opened : List (List UInt8)} {rest : List UInt8}
    (aligned : Aligned s opened) (stuck : Stuck opened rest)
    (root : ∀ other, opened = [other] → other = rootName)
    (accepted : (resume s (eventsFrom none opened
      (rest ++ Xml.endTagOf rootName))).error = none) :
    0x3C ∉ rest ∧ opened = [rootName] := by
  obtain ⟨s', hrun, hfault, hend⟩ := resume_eq_of_error_none accepted
  have hclosed := (State.endError?_eq_none hend).1
  rcases stuck.eventsFrom_endTag ordinary_rootName with
    ⟨e, he⟩ | ⟨text, token, event, opened', taken, hevents, hcloses⟩
  · rw [hfault] at he
    cases he
  · rw [hevents] at hrun
    obtain rfl := (aligned.of_text_token taken hrun).opened_eq_nil hclosed
    obtain ⟨other, rfl, hother⟩ := hcloses rfl
    obtain rfl := root other rfl
    refine ⟨?_, rfl⟩
    rcases hother with hplain | hbracket
    · exact hplain
    · exact absurd hbracket ordinary_rootName.unopened

/-- Behind an end tag of the root no element is open. -/
private theorem opened_behind_endTag {before text : List UInt8}
    {events₁ events₂ : List Xml.Event}
    (hbefore : Stretch [] before events₁ [])
    (hrun : run inRoot (events₁ ++ (textEvents text ++ .close :: events₂)) =
      (items, .ok s')) : s'.opened = [] := by
  have htext : ∃ content : Content, textEvents text = content.events := by
    rcases Xml.textEvents_cases text with hblank | ⟨raw, hraw⟩
    · exact ⟨.nil, hblank⟩
    · exact ⟨.text raw .nil, hraw⟩
  obtain ⟨content, rfl⟩ := hbefore.exists_content
  obtain ⟨content', htext⟩ := htext
  rw [htext] at hrun
  have hrooted : inRoot.rooted = true := rfl
  obtain ⟨mid, _, _, hrun₁, hbehind, -⟩ := run_append_eq_ok hrun
  obtain ⟨mid', _, _, hrun₂, hclose, -⟩ := run_append_eq_ok hbehind
  obtain ⟨mid'', _, _, hstep, hrest, -⟩ := run_cons_eq_ok hclose
  have hopened : mid'.opened = ["CodeNarc"] :=
    (opened_of_content hrun₂).trans (opened_of_content hrun₁)
  have hrooted' := rooted_of_step hstep (rooted_of_run hrun₂ (rooted_of_run hrun₁ hrooted))
  rw [step_close hopened] at hstep
  obtain ⟨rfl, -⟩ := by simpa using hstep
  exact (run_behind_root rfl hrooted' hrest).2

/-- An accepted body is self-contained. -/
theorem exists_selfContained {body : List UInt8}
    (accepted : (readBytes (enclosed body)).error = none) :
    ∃ items, SelfContained body items := by
  rw [readBytes_enclosed] at accepted
  obtain ⟨read, rest, events, opened', rfl, hread, stuck⟩ :=
    Xml.exists_stretch_append [rootName] body
  rw [List.append_assoc] at accepted
  obtain ⟨items, mid, hrun, hbehind, -⟩ := run_of_resume_stretch hread accepted
  have halignedRoot : Aligned inRoot [rootName] := by
    simp [Aligned, inRoot, rootName, lettered_root.lossyString_localPart]
  have haligned := halignedRoot.of_stretch hread hrun
  have hname : Stretch ([] ++ rootName :: []) read events opened' := hread
  rcases hname.leaves_or_closes with ⟨inner, rfl, hinner⟩ |
    ⟨before, text, content, after, events₁, events₂, rfl, rfl, plain, hend, hbefore, hafter⟩
  · have hroot : ∀ other, inner ++ [rootName] = [other] → other = rootName := by
      intro other hother
      have hlast := congrArg List.getLast? hother
      simpa [eq_comm] using hlast
    obtain ⟨plain, hopened⟩ := text_of_accepted haligned stuck hroot hbehind
    obtain rfl : inner = [] := by simpa using hopened
    -- what is remembered behind the stretch is what was remembered before it
    obtain ⟨content, rfl⟩ := hinner.exists_content
    have hmid : mid = inRoot := by
      have hopen := opened_of_content hrun
      have hrooted := rooted_of_run hrun rfl
      have hdefault := (settled_of_run hrun).eq_default
      cases mid
      simp_all [inRoot]
    subst hmid
    rw [← List.append_nil (rest ++ Xml.endTagOf rootName)] at hbehind
    have hend := Stretch.text_endTag opens_rootName plain
    obtain ⟨_, _, hrunEnd, -, -⟩ := run_of_resume_stretch hend hbehind
    obtain ⟨_, _, _, htext, -, -⟩ := run_append_eq_ok hrunEnd
    exact ⟨items, read, rest, _, rfl, hinner, plain, hrun, readable_of_run htext⟩
  · -- the root is closed before the body ends, and nothing closes it again
    have hclosed := opened_behind_endTag hbefore hrun
    obtain rfl := haligned.opened_eq_nil hclosed
    obtain ⟨-, hopened⟩ := text_of_accepted haligned stuck (by simp) hbehind
    simp at hopened

/-- A body is accepted in a root if and only if it is self-contained. -/
theorem selfContained_iff {body : List UInt8} :
    SelfContained body items ↔ readBytes (enclosed body) = ⟨items, none⟩ := by
  constructor
  · exact SelfContained.readBytes_eq
  · intro h
    obtain ⟨items', hbody⟩ := exists_selfContained (show (readBytes _).error = none by rw [h])
    have hitems := hbody.readBytes_eq
    rw [h] at hitems
    obtain ⟨rfl, -⟩ := Reading.mk.inj hitems
    exact hbody

/-- **No part of a report leaks into the next.**  Two accepted reports, the
body of one put behind that of the other, are accepted as one; the violations
of the first come before those of the second, and so do the warnings. -/
theorem readBytes_enclosed_append {body body' : List UInt8} {vs vs' : List Violation}
    (first : (readBytes (enclosed body)).violations = .ok vs)
    (second : (readBytes (enclosed body')).violations = .ok vs') :
    (readBytes (enclosed (body ++ body'))).violations = .ok (vs ++ vs') ∧
      (readBytes (enclosed (body ++ body'))).warnings =
        (readBytes (enclosed body)).warnings ++ (readBytes (enclosed body')).warnings := by
  obtain ⟨accepted, rfl⟩ := Reading.violations_eq_ok_iff.1 first
  obtain ⟨accepted', rfl⟩ := Reading.violations_eq_ok_iff.1 second
  obtain ⟨items, hbody⟩ := exists_selfContained accepted
  obtain ⟨items', hbody'⟩ := exists_selfContained accepted'
  have silent : inRoot.scope.Silent := Scope.silent_of_no_pending rfl
  have hboth : SelfContained (body ++ body') (items ++ items') :=
    Passage.append hbody silent hbody'
  rw [hbody.readBytes_eq, hbody'.readBytes_eq, hboth.readBytes_eq]
  constructor
  · simp [Reading.violations]
  · simp [Reading.warnings]

theorem readBytes_enclosed_append_sample :
    let body := Utf8.ofString "x <File name='A'><Violation/><Violation ruleName='E'/></File> y"
    let body' := Utf8.ofString "z<Violation ruleName='E'/>"
    (readBytes (enclosed body)).violations = .ok [⟨"E", "A", none, ""⟩] ∧
      (readBytes (enclosed body')).violations = .ok [] ∧
      (readBytes (enclosed (body ++ body'))).violations =
        .ok ([⟨"E", "A", none, ""⟩] ++ []) ∧
      (readBytes (enclosed (body ++ body'))).warnings =
        (readBytes (enclosed body)).warnings ++ (readBytes (enclosed body')).warnings := by
  intro body body'
  have first : (readBytes (enclosed body)).violations = .ok [⟨"E", "A", none, ""⟩] := by
    decide +kernel
  have second : (readBytes (enclosed body')).violations = .ok [] := by decide +kernel
  exact ⟨first, second, readBytes_enclosed_append first second⟩

end GroovyFindings.Report
