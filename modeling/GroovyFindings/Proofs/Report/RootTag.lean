import GroovyFindings.Proofs.Report.Passage
import GroovyFindings.Proofs.Report.Truncation
import GroovyFindings.Proofs.Report.Walk

/-!
# Reports cut in the first tag

A tag also ends where the document ends, and a tag whose last byte is a slash
closes itself.  A report that has been cut inside its root's start tag is
therefore not always refused: where the cut falls behind a slash, be it one in the
value of an attribute, what is left is a root with nothing in it.

Before the root there is no element, so a report that is cut there has none; that
is an induction over the complete markup before the root, since a cut inside of
such markup makes no tag of it.

## Main definitions

* `Event.tag?` — the tag of the element that an event begins.
* `CutAtSlash` — the cuts that are not noticed.

## Main results

* `Stretch.cut_before_tag` — what a cut before a tag leaves is no element, or the
  beginning of the tag.
* `readBytes_cut_in_root_tag` — a report cut in its first tag is refused, or read
  as an empty one, and the latter behind a slash.
-/

namespace GroovyFindings.Xml

/-! ## Tags that are cut -/

namespace Token

variable {quote : Option UInt8} {content part : List UInt8}

/-- Without a bracket outside of quotes the tag goes on. -/
theorem splitTag_of_quoteAfter {quote' : Option UInt8}
    (h : quoteAfter quote content = some quote') : splitTag quote content = (content, none) := by
  induction content generalizing quote with
  | nil => rfl
  | cons b content ih =>
      rw [quoteAfter] at h
      split at h
      · cases h
      · next hb =>
          have htail := ih h
          show (if quote = none ∧ b = 0x3E then _ else _) = _
          rw [if_neg hb]
          show (b :: (splitTag (quoteBehind quote b) content).1,
            (splitTag (quoteBehind quote b) content).2) = _
          rw [htail]

/-- The beginning of a tag is read as a tag where the document ends behind it. -/
theorem markup_cut_tag (complete : Complete (.tag content) (content ++ [0x3E]))
    (begins : part <+: content) (nonempty : part ≠ []) (whole : List UInt8) :
    markup ⟨whole, none⟩ part = .ok (some (.tag part, [])) := by
  obtain ⟨more, rfl⟩ := begins
  obtain ⟨b, rest, rfl⟩ := List.exists_cons_of_ne_nil nonempty
  generalize hm : b :: rest ++ more ++ [0x3E] = m at complete
  cases complete with
  | tag name closed =>
      simp only [List.cons_append, List.head?_cons, List.mem_cons, Option.some.injEq,
        List.not_mem_nil, or_false, not_or] at name
      rw [quoteAfter_append, Option.bind_eq_some_iff] at closed
      obtain ⟨quote, hquote, -⟩ := closed
      simp only [markup, if_neg name.1, if_neg name.2.1, if_neg name.2.2,
        splitTag_of_quoteAfter hquote]
      rfl

end Token

/-! ## What is left of markup before a tag -/

/-- The tag of the element that an event begins. -/
def Event.tag? : Event → Option Tag
  | .start tag | .empty tag => some tag
  | .close | .text _ | .cdata _ => none

variable {opened opened' : List (List UInt8)} {event : Option Event} {token : Token}

/-- Only a tag begins an element. -/
theorem tag?_of_ofToken (h : Event.ofToken opened token = .ok (event, opened'))
    (other : ∀ content, token ≠ .tag content) : ∀ e ∈ event, e.tag? = none := by
  cases token with
  | tag content => exact absurd rfl (other content)
  | text raw | cdata raw | skipped =>
      obtain ⟨rfl, -⟩ := by simpa [Event.ofToken] using h
      simp [Event.tag?]
  | endTag content =>
      cases opened with
      | nil => cases h
      | cons name outer =>
          simp only [Event.ofToken] at h
          split at h
          · obtain ⟨rfl, -⟩ := by simpa using h
            simp [Event.tag?]
          · cases h

/-- A tag begins an element. -/
theorem ne_tag_of_ofToken (h : Event.ofToken opened token = .ok (event, opened'))
    (other : ∀ e ∈ event, e.tag? = none) (content : List UInt8) : token ≠ .tag content := by
  rintro rfl
  simp only [Event.ofToken] at h
  split at h
  · obtain ⟨rfl, -⟩ := by simpa using h
    cases other _ rfl
  · obtain ⟨rfl, -⟩ := by simpa using h
    cases other _ rfl

/-- A tag in no element begins one, and closes it at once behind a slash. -/
theorem exists_event_of_tag (content : List UInt8) :
    ∃ e opened, Event.ofToken [] (.tag content) = .ok (some e, opened) ∧ e.tag? ≠ none ∧
      (content.getLast? = some 0x2F ∧ e = .empty (Tag.ofContent content.dropLast) ∨
        content.getLast? ≠ some 0x2F ∧ e = .start (Tag.ofContent content)) := by
  by_cases hslash : content.getLast? = some 0x2F
  · refine ⟨.empty (Tag.ofContent content.dropLast), [], ?_, ?_, .inl ⟨hslash, rfl⟩⟩
    · rw [Event.ofToken, if_pos hslash]
    · simp [Event.tag?]
  · refine ⟨.start (Tag.ofContent content), [(Tag.ofContent content).name], ?_, ?_,
      .inr ⟨hslash, rfl⟩⟩
    · rw [Event.ofToken, if_neg hslash]
    · simp [Event.tag?]

theorem tag?_of_textEvents (text : List UInt8) : ∀ e ∈ textEvents text, e.tag? = none := by
  rcases textEvents_cases text with hblank | ⟨raw, hraw⟩
  · simp [hblank]
  · simp [hraw, Event.tag?]

/-- Text that the document ends behind, with a last bracket or without one, is no
element. -/
theorem tag?_of_text {text : List UInt8} (plain : 0x3C ∉ text) :
    (∀ e ∈ (eventsFrom none opened text).1, e.tag? = none) ∧
      ∀ e ∈ (eventsFrom none opened (text ++ [0x3C])).1, e.tag? = none := by
  have hbracket : eventsFrom none opened [0x3C] = ([], none) := eventsFrom_of_end rfl
  rw [eventsFrom_text plain, eventsFrom_text_append plain, hbracket, List.append_nil]
  exact ⟨tag?_of_textEvents text, tag?_of_textEvents text⟩

/-- Other markup than a tag is known by its first byte. -/
theorem Token.Complete.exists_mark {m : List UInt8} (complete : Token.Complete token m)
    (other : ∀ content, token ≠ .tag content) :
    ∃ b rest, m = b :: rest ∧ b ∈ [0x21, 0x2F, 0x3F] := by
  cases complete with
  | tag name closed => exact absurd rfl (other _)
  | endTag closed => exact ⟨0x2F, _, rfl, by decide⟩
  | instruction closed marks => exact ⟨0x3F, _, rfl, by decide⟩
  | comment first marks | cdata first marks | doctype letter first marks =>
      exact ⟨0x21, _, rfl, by decide⟩

/-- What a cut leaves of markup other than a tag is no element. -/
theorem tag?_of_cut_markup {m part : List UInt8} (complete : Token.Complete token m)
    (other : ∀ content, token ≠ .tag content) (begins : part <+: m) (short : part ≠ m) :
    ∀ e ∈ (eventsFrom none opened (0x3C :: part)).1, e.tag? = none := by
  have hnext : Token.next ⟨0x3C :: part, none⟩ = Token.markup ⟨0x3C :: part, none⟩ part :=
    next_bracket part
  cases hmarkup : Token.markup ⟨0x3C :: part, none⟩ part with
  | error e =>
      rw [eventsFrom_of_error (hnext.trans hmarkup)]
      simp
  | ok next =>
      cases next with
      | none =>
          rw [eventsFrom_of_end (hnext.trans hmarkup)]
          simp
      | some p =>
          obtain ⟨token', rest⟩ := p
          obtain ⟨b, tail, rfl, mark⟩ := complete.exists_mark other
          obtain ⟨more, hmore⟩ := begins
          rcases Token.complete_or_cut_of_markup _ hmarkup with
            ⟨m', rfl, complete'⟩ | ⟨rfl, -⟩
          · -- markup that is complete in the cut would be all of the markup
            have hwhole := Token.markup_complete complete ⟨[], none⟩ []
            have hpart := Token.markup_complete complete' ⟨[], none⟩ (rest ++ more)
            rw [List.append_nil, ← hmore, List.append_assoc, hpart] at hwhole
            obtain ⟨-, hrest⟩ : token' = token ∧ rest ++ more = [] := by simpa using hwhole
            obtain ⟨rfl, rfl⟩ := List.append_eq_nil_iff.1 hrest
            exact absurd (by simpa using hmore) short
          · cases part with
            | nil => cases hmarkup
            | cons c part =>
                obtain rfl : c = b := (List.cons.inj hmore).1
                have notTag := Token.ne_tag_of_markup mark hmarkup
                have hend (opened' : List (List UInt8)) :
                    eventsFrom none opened' [] = ([], none) := eventsFrom_of_end rfl
                rw [eventsFrom_of_token (hnext.trans hmarkup)]
                cases taken : Event.ofToken opened token' with
                | error e => simp
                | ok q => simpa [hend] using tag?_of_ofToken taken notTag

/-- A beginning of two texts ends inside of the first one, or has all of it. -/
theorem prefix_append_cases {α : Type} {cut xs ys : List α} (h : cut <+: xs ++ ys) :
    (cut <+: xs ∧ cut ≠ xs) ∨ ∃ taken, cut = xs ++ taken ∧ taken <+: ys := by
  obtain ⟨more, hmore⟩ := h
  rcases List.append_eq_append_iff.1 hmore with ⟨left, rfl, rfl⟩ | ⟨taken, rfl, rfl⟩
  · by_cases hleft : left = []
    · subst hleft
      exact .inr ⟨[], by simp, List.nil_prefix⟩
    · exact .inl ⟨⟨left, rfl⟩, by simpa using hleft⟩
  · exact .inr ⟨taken, rfl, more, rfl⟩

/-- A cut before an opening bracket or behind it. -/
private theorem cut_before_bracket {text rest cut : List UInt8} (plain : 0x3C ∉ text)
    (short : cut <+: text ++ 0x3C :: rest) :
    (∀ e ∈ (eventsFrom none opened cut).1, e.tag? = none) ∨
      ∃ part, cut = text ++ 0x3C :: part ∧ part <+: rest := by
  rcases prefix_append_cases short with ⟨inText, -⟩ | ⟨taken, rfl, htaken⟩
  · exact .inl (tag?_of_text fun hmem => plain (inText.subset hmem)).1
  · cases taken with
    | nil => exact .inl (by simpa using (tag?_of_text plain).1)
    | cons b part =>
        obtain ⟨rfl, hpart⟩ := List.cons_prefix_cons.1 htaken
        exact .inr ⟨part, rfl, hpart⟩

/-- A cut before the end of a tag, before which there is no element, leaves no
element, or a beginning of that tag. -/
theorem Stretch.cut_before_tag {bytes text content cut : List UInt8} {events : List Event}
    (read : Stretch opened bytes events opened') (noTags : ∀ e ∈ events, e.tag? = none)
    (plain : 0x3C ∉ text) (short : cut <+: bytes ++ (text ++ 0x3C :: content)) :
    (∃ part, part ≠ [] ∧ part <+: content ∧ cut = bytes ++ (text ++ 0x3C :: part)) ∨
      ∀ e ∈ (eventsFrom none opened cut).1, e.tag? = none := by
  induction read generalizing cut with
  | nil =>
      rw [List.nil_append] at short
      rcases cut_before_bracket plain short with hnone | ⟨part, rfl, hpart⟩
      · exact .inr hnone
      · by_cases hempty : part = []
        · subst hempty
          exact .inr (tag?_of_text plain).2
        · exact .inl ⟨part, hempty, hpart, rfl⟩
  | @markup opened inner opened' before m bytes token event events plain' complete taken
      rest ih =>
      simp only [List.mem_append, Option.mem_toList] at noTags
      have hother : ∀ e ∈ event, e.tag? = none := fun e he => noTags e (.inr (.inl he))
      have hrest : ∀ e ∈ events, e.tag? = none := fun e he => noTags e (.inr (.inr he))
      have hshort : cut <+: before ++ 0x3C :: (m ++ (bytes ++ (text ++ 0x3C :: content))) := by
        simpa only [List.append_assoc, List.cons_append] using short
      rcases cut_before_bracket plain' hshort with hnone | ⟨part, rfl, hpart⟩
      · exact .inr hnone
      have hbefore := tag?_of_textEvents before
      rw [eventsFrom_text_append plain']
      rcases prefix_append_cases hpart with ⟨hcut, hcutShort⟩ | ⟨behind, rfl, hbehind⟩
      · have notTag := ne_tag_of_ofToken taken hother
        right
        exact List.forall_mem_append.2
          ⟨hbefore, tag?_of_cut_markup complete notTag hcut hcutShort⟩
      · rcases ih hrest hbehind with ⟨begun, hempty, hbegun, rfl⟩ | hnone
        · left
          refine ⟨begun, hempty, hbegun, ?_⟩
          simp only [List.append_assoc, List.cons_append]
        · right
          rw [eventsFrom_complete complete taken]
          refine List.forall_mem_append.2 ⟨hbefore, List.forall_mem_append.2 ⟨?_, hnone⟩⟩
          exact fun e he => hother e (Option.mem_toList.1 he)

end GroovyFindings.Xml

namespace GroovyFindings.Report

open GroovyFindings.Xml (Event Stretch Tag Token eventsFrom textEvents)

variable {s s' : State} {items : List Item} {events : List Event}

/-! ## Events without elements -/

/-- Outside of all elements, events that begin none change nothing. -/
theorem run_of_no_tag (noTags : ∀ e ∈ events, e.tag? = none) (outside : s.opened = [])
    (idle : s.scope.pending = none) (h : run s events = (items, .ok s')) :
    items = [] ∧ s' = s := by
  have silent : s.scope.Silent := Scope.silent_of_no_pending idle
  induction events generalizing items with
  | nil =>
      obtain ⟨rfl, rfl⟩ := by simpa [run] using h
      exact ⟨rfl, rfl⟩
  | cons e rest ih =>
      obtain ⟨hfirst, hrest⟩ := List.forall_mem_cons.1 noTags
      obtain ⟨mid, item, items', hstep, hrun, rfl⟩ := run_cons_eq_ok h
      obtain ⟨rfl, rfl⟩ : item = none ∧ mid = s := by
        cases e with
        | start tag | empty tag => cases hfirst
        | close =>
            simp only [step, outside, Except.ok.injEq, Prod.mk.injEq] at hstep
            exact ⟨hstep.2.symm, hstep.1.symm⟩
        | text raw =>
            obtain ⟨chars, -, rfl, rfl⟩ := step_text hstep
            exact ⟨rfl, by rw [silent chars]⟩
        | cdata raw =>
            rw [step_cdata, silent] at hstep
            obtain ⟨rfl, rfl⟩ := by simpa using hstep
            exact ⟨rfl, rfl⟩
      obtain ⟨rfl, rfl⟩ := ih hrest hrun
      exact ⟨rfl, rfl⟩

/-- Where an element has begun there has been a root. -/
theorem rooted_of_tag? {e : Event} (hmem : e ∈ events) (hroot : e.tag? ≠ none)
    (h : run s events = (items, .ok s')) : s'.rooted = true := by
  obtain ⟨before, after, rfl⟩ := List.append_of_mem hmem
  obtain ⟨mid, _, _, -, hbehind, -⟩ := run_append_eq_ok h
  obtain ⟨mid', _, _, hstep, hafter, -⟩ := run_cons_eq_ok hbehind
  apply rooted_of_run hafter
  cases e with
  | start tag =>
      obtain ⟨_, _, _, _, rfl⟩ := step_start hstep
      rfl
  | empty tag =>
      obtain ⟨_, _, _, _, rfl⟩ := step_empty hstep
      rfl
  | close | text raw | cdata raw => exact absurd rfl hroot

/-- An element outside of all others is the first one. -/
theorem unrooted_of_step {e : Event} {item : Option Item} (hroot : e.tag? ≠ none)
    (outside : s.opened = []) (h : step s e = .ok (s', item)) : s.rooted = false := by
  cases e with
  | start tag =>
      obtain ⟨_, -, hinside | hnone, -, -⟩ := step_start h
      · exact absurd outside hinside
      · exact hnone
  | empty tag =>
      obtain ⟨_, -, hinside | hnone, -, -⟩ := step_empty h
      · exact absurd outside hinside
      · exact hnone
  | close | text raw | cdata raw => exact absurd rfl hroot

/-- Without an element a document is refused. -/
theorem error_of_no_tag {left : List Event × Option Xml.Error}
    (noTags : ∀ e ∈ left.1, e.tag? = none) : (resume {} left).error ≠ none := by
  intro accepted
  obtain ⟨s', hrun, -, hend⟩ := resume_eq_of_error_none accepted
  obtain ⟨-, rfl⟩ := run_of_no_tag noTags rfl rfl hrun
  cases (State.endError?_eq_none hend).2

/-! ## What stands before the root -/

section Root

variable {read text content part more : List UInt8}

/-- Before the root's tag of an accepted document there is no element, and its
reader is where it began. -/
theorem run_before_root (hread : Stretch [] read events []) (plain : 0x3C ∉ text)
    (complete : Token.Complete (.tag content) (content ++ [0x3E]))
    (accepted : (resume {} (eventsFrom none []
      (read ++ (text ++ 0x3C :: (content ++ [0x3E] ++ more))))).error = none) :
    (∀ e ∈ events, e.tag? = none) ∧ run {} (events ++ textEvents text) = ([], .ok {}) := by
  obtain ⟨items, mid, hrun, hbehind, -⟩ := run_of_resume_stretch hread accepted
  rw [Xml.eventsFrom_text_append plain] at hbehind
  obtain ⟨items', mid', htext, hroot, -⟩ := run_of_resume_append hbehind
  have hwhole : run {} (events ++ textEvents text) = (items ++ items', .ok mid') := by
    rw [run_append, hrun]
    simp only [htext]
  have haligned : Aligned {} [] := rfl
  have houtside : mid'.opened = [] := (haligned.of_stretch hread hrun).of_text htext
  obtain ⟨e, opened, taken, hbegins, -⟩ := Xml.exists_event_of_tag content
  rw [Xml.eventsFrom_complete complete taken] at hroot
  obtain ⟨_, _, hrunRoot, -, -⟩ := run_of_resume_append hroot
  obtain ⟨_, hstep⟩ := run_singleton_eq_ok hrunRoot
  have hunrooted := unrooted_of_step hbegins houtside hstep
  have hnone : ∀ e ∈ events ++ textEvents text, e.tag? = none := by
    intro e he
    by_contra hroot
    rw [rooted_of_tag? he hroot hwhole] at hunrooted
    cases hunrooted
  obtain ⟨hitems, rfl⟩ := run_of_no_tag hnone rfl rfl hwhole
  exact ⟨(List.forall_mem_append.1 hnone).1, by rw [hwhole, hitems]⟩

/-- A self-closing root yields no violation. -/
theorem violation?_of_root {tag : Tag} {scope : Scope}
    (henter : Scope.enter {} tag.localName tag = .ok scope) :
    (scope.leave tag.localName).2.bind Item.violation? = none := by
  have fresh : Fresh [] tag := fun _ _ => rfl
  have hscope : Scope.enter (scopeAt [] []) tag.localName tag = .ok scope := henter
  obtain rfl := enter_scopeAt fresh hscope
  rw [leave_scopeAt fresh]
  split
  · cases ruleOf? tag <;> rfl
  · rfl

/-- A document that is nothing but a start tag is refused. -/
theorem error_of_start (tag : Tag) : (resume {} ([.start tag], none)).error ≠ none := by
  intro accepted
  obtain ⟨s', hrun, -, hend⟩ := resume_eq_of_error_none accepted
  obtain ⟨_, hstep⟩ := run_singleton_eq_ok hrun
  obtain ⟨_, _, _, _, rfl⟩ := step_start hstep
  cases (State.endError?_eq_none hend).1

/-- A document that is nothing but a self-closing tag is accepted if the attributes
that are asked for can be read, and has no violations then. -/
theorem resume_empty (tag : Tag) :
    ((resume {} ([.empty tag], none)).error = none ↔ LegibleTag tag) ∧
      (LegibleTag tag → (resume {} ([.empty tag], none)).violations = .ok []) := by
  have accepted (legible : LegibleTag tag) :
      (resume {} ([.empty tag], none)).violations = .ok [] := by
    obtain ⟨scope, henter⟩ := exists_enter_iff.2 legible
    have hstep := step_empty_of_enter (s := {}) (.inr rfl) henter
    have hnone := violation?_of_root henter
    rw [resume, run_cons hstep]
    cases hitem : (scope.leave tag.localName).2 with
    | none => rfl
    | some item =>
        rw [hitem, Option.bind_some] at hnone
        simp [run, State.endError?, Reading.violations, hnone]
  refine ⟨⟨?_, fun legible => (Reading.violations_eq_ok_iff.1 (accepted legible)).1⟩, accepted⟩
  intro haccepted
  obtain ⟨s', hrun, -, -⟩ := resume_eq_of_error_none haccepted
  obtain ⟨_, hstep⟩ := run_singleton_eq_ok hrun
  obtain ⟨scope, henter, -, -, -⟩ := step_empty hstep
  exact exists_enter_iff.1 ⟨scope, henter⟩

/-- What is read of a document that ends in its root's start tag is what its last
byte makes of that tag. -/
theorem resume_root_tag (hread : Stretch [] read events []) (plain : 0x3C ∉ text)
    (before : run {} (events ++ textEvents text) = ([], .ok {}))
    (tag : Token.markup ⟨0x3C :: part, none⟩ part = .ok (some (.tag part, []))) :
    ∃ e, resume {} (eventsFrom none [] (read ++ (text ++ 0x3C :: part))) =
        resume {} ([e], none) ∧
      ((∃ written, part = written ++ [0x2F] ∧ e = .empty (Tag.ofContent written)) ∨
        part.getLast? ≠ some 0x2F ∧ e = .start (Tag.ofContent part)) := by
  have hnext : Token.next ⟨0x3C :: part, none⟩ = .ok (some (.tag part, [])) := by
    rw [Xml.next_bracket, tag]
  have hend (opened : List (List UInt8)) : eventsFrom none opened [] = ([], none) :=
    Xml.eventsFrom_of_end rfl
  obtain ⟨e, opened, taken, -, hcases⟩ := Xml.exists_event_of_tag part
  refine ⟨e, ?_, ?_⟩
  · rw [hread.eventsFrom_append, Xml.eventsFrom_text_append plain, ← List.append_assoc,
      resume_append before, Xml.eventsFrom_of_token hnext, taken]
    simp only [hend]
    rfl
  · rcases hcases with ⟨hslash, rfl⟩ | hstart
    · left
      obtain ⟨written, rfl⟩ := List.getLast?_eq_some_iff.1 hslash
      exact ⟨written, rfl, by rw [List.dropLast_concat]⟩
    · exact .inr hstart

/-- A cut before the end of the root's start tag. -/
theorem resume_cut_in_root_tag {cut : List UInt8} (hread : Stretch [] read events [])
    (plain : 0x3C ∉ text) (complete : Token.Complete (.tag content) (content ++ [0x3E]))
    (accepted : (resume {} (eventsFrom none []
      (read ++ (text ++ 0x3C :: (content ++ [0x3E] ++ more))))).error = none)
    (short : cut <+: read ++ (text ++ 0x3C :: content)) :
    (∀ written, cut = read ++ (text ++ 0x3C :: (written ++ [0x2F])) →
        LegibleTag (Tag.ofContent written) →
        (resume {} (eventsFrom none [] cut)).violations = .ok []) ∧
      ((resume {} (eventsFrom none [] cut)).error = none →
        ∃ written, cut = read ++ (text ++ 0x3C :: (written ++ [0x2F])) ∧
          LegibleTag (Tag.ofContent written)) := by
  obtain ⟨hnone, hbefore⟩ := run_before_root hread plain complete accepted
  constructor
  · rintro written rfl legible
    have hpart : written ++ [0x2F] <+: content := by
      simpa only [List.prefix_append_right_inj, List.cons_prefix_cons, true_and] using short
    have htag := Token.markup_cut_tag complete hpart (by simp) (0x3C :: (written ++ [0x2F]))
    obtain ⟨e, hreading, ⟨written', hwritten, rfl⟩ | ⟨hslash, -⟩⟩ :=
      resume_root_tag hread plain hbefore htag
    · obtain rfl := List.append_cancel_right hwritten
      rw [hreading]
      exact (resume_empty _).2 legible
    · exact absurd List.getLast?_concat hslash
  · intro haccepted
    rcases hread.cut_before_tag hnone plain short with ⟨part, hempty, hpart, rfl⟩ | helementless
    · have htag := Token.markup_cut_tag complete hpart hempty (0x3C :: part)
      obtain ⟨e, hreading, ⟨written, rfl, rfl⟩ | ⟨-, rfl⟩⟩ :=
        resume_root_tag hread plain hbefore htag
      · rw [hreading] at haccepted
        exact ⟨written, rfl, (resume_empty _).1.1 haccepted⟩
      · rw [hreading] at haccepted
        exact absurd haccepted (error_of_start _)
    · exact absurd haccepted (error_of_no_tag helementless)

end Root

/-! ## Documents -/

/-- Every document is its byte order mark, if it has one, and what is read; and so
is every beginning of it that goes beyond the mark. -/
theorem exists_mark (bytes : List UInt8) :
    ∃ mark, bytes = mark ++ Xml.withoutMark bytes ∧ mark ∈ [[], [0xEF, 0xBB, 0xBF]] ∧
      ∀ cut, mark ++ cut <+: bytes → Xml.withoutMark (mark ++ cut) = cut := by
  cases hstrip : Text.stripStart? [0xEF, 0xBB, 0xBF] bytes with
  | some rest =>
      refine ⟨[0xEF, 0xBB, 0xBF], ?_, by simp, ?_⟩
      · rw [Xml.withoutMark, hstrip]
        exact Text.stripStart?_eq_some_iff.1 hstrip
      · intro cut _
        rw [Xml.withoutMark, Text.stripStart?_eq_some_iff.2 rfl]
        rfl
  | none =>
      refine ⟨[], ?_, by simp, ?_⟩
      · rw [Xml.withoutMark, hstrip]
        rfl
      · rintro cut ⟨more, hmore⟩
        rw [List.nil_append] at hmore ⊢
        cases hcut : Text.stripStart? [0xEF, 0xBB, 0xBF] cut with
        | none =>
            rw [Xml.withoutMark, hcut]
            rfl
        | some rest =>
            rw [Text.stripStart?_eq_some_iff] at hcut
            have hwhole : Text.stripStart? [0xEF, 0xBB, 0xBF] bytes = some (rest ++ more) := by
              rw [Text.stripStart?_eq_some_iff, ← hmore, hcut, List.append_assoc]
            rw [hwhole] at hstrip
            cases hstrip

/-- A document that is cut in its byte order mark is refused. -/
theorem error_of_cut_mark {mark cut : List UInt8} (hmark : mark ∈ [[], [0xEF, 0xBB, 0xBF]])
    (begins : cut <+: mark) (short : cut ≠ mark) : (readBytes cut).error ≠ none := by
  rcases List.mem_pair.1 hmark with rfl | rfl
  · exact absurd (List.prefix_nil.1 begins) short
  · simp only [List.prefix_cons_iff, List.prefix_nil] at begins
    rcases begins with rfl | ⟨_, rfl, rfl | ⟨_, rfl, rfl | ⟨_, rfl, rfl⟩⟩⟩
    · decide +kernel
    · decide +kernel
    · decide +kernel
    · exact absurd rfl short

/-- The cut falls behind a slash in the tag that begins behind `before`, and the
attributes that are asked for can be read up to there. -/
def CutAtSlash (before cut : List UInt8) : Prop :=
  ∃ written, cut = before ++ 0x3C :: (written ++ [0x2F]) ∧ LegibleTag (Tag.ofContent written)

/-- **A report cut in its first tag is refused, unless it is cut behind a slash.**
Of an accepted document, whatever stops before the bracket that ends the root's
start tag is refused; but if the last byte is a slash of that tag, and the
attributes that are asked for can be read up to there, then it is accepted, and
has no violations whatever the document had. -/
theorem readBytes_cut_in_root_tag {doc before content cut : List UInt8} {vs : List Violation}
    (whole : (readBytes doc).violations = .ok vs)
    (root : EndsInRootTag (Xml.withoutMark (before ++ 0x3C :: (content ++ [0x3E]))) content)
    (starts : before ++ 0x3C :: (content ++ [0x3E]) <+: doc)
    (short : cut <+: before ++ 0x3C :: content) :
    (CutAtSlash before cut → (readBytes cut).violations = .ok []) ∧
      (¬CutAtSlash before cut → ∃ e, (readBytes cut).violations = .error e) := by
  obtain ⟨accepted, -⟩ := Reading.violations_eq_ok_iff.1 whole
  obtain ⟨more, rfl⟩ := starts
  obtain ⟨mark, hstart, hmark, hcutMark⟩ := exists_mark (before ++ 0x3C :: (content ++ [0x3E]))
  obtain ⟨read, text, events, hsplit, hread, plain, complete⟩ := root
  rw [readBytes_eq_resume, withoutMark_append (by simp [hsplit]), hsplit] at accepted
  obtain rfl : before = mark ++ (read ++ text) := by
    rw [hsplit] at hstart
    apply List.append_cancel_right
    simpa only [List.append_assoc] using hstart
  have haccepted : (resume {} (eventsFrom none []
      (read ++ (text ++ 0x3C :: (content ++ [0x3E] ++ more))))).error = none := by
    simpa only [List.append_assoc, List.cons_append] using accepted
  have hshort : cut <+: mark ++ (read ++ (text ++ 0x3C :: content)) := by
    simpa only [List.append_assoc] using short
  rcases Xml.prefix_append_cases hshort with ⟨hinMark, hcut⟩ | ⟨taken, rfl, htaken⟩
  · constructor
    · rintro ⟨written, rfl, -⟩
      have hlength := hinMark.length_le
      simp only [List.length_append, List.length_cons] at hlength
      omega
    · intro _
      simpa only [Reading.violations_eq_error_iff, ← Option.ne_none_iff_exists'] using
        error_of_cut_mark hmark hinMark hcut
  · obtain ⟨hslash, hunnoticed⟩ :=
      resume_cut_in_root_tag hread plain complete haccepted htaken
    have hbegins : mark ++ taken <+: mark ++ (read ++ text) ++ 0x3C :: (content ++ [0x3E]) :=
      short.trans (by simp)
    rw [readBytes_eq_resume, hcutMark taken hbegins]
    constructor
    · rintro ⟨written, hwritten, legible⟩
      exact hslash written (by simpa using hwritten) legible
    · intro hnot
      cases herror : (resume {} (eventsFrom none [] taken)).error with
      | some e => exact ⟨e, Reading.violations_eq_error_iff.2 herror⟩
      | none =>
          obtain ⟨written, rfl, legible⟩ := hunnoticed herror
          exact absurd ⟨written, by simp, legible⟩ hnot

/-! ## A root with an address -/

/-- The start tag of a root that says where the linter is found. -/
def addressTag : List UInt8 := Utf8.ofString "CodeNarc url='http://a'"

/-- A report with such a root. -/
def addressReport : List UInt8 :=
  0x3C :: (addressTag ++ [0x3E]) ++
    Utf8.ofString "<File name='A'><Violation ruleName='E'/></File></CodeNarc>"

theorem readBytes_addressReport :
    (readBytes addressReport).violations = .ok [⟨"E", "A", none, ""⟩] := by
  decide +kernel

theorem endsInRootTag_addressTag :
    EndsInRootTag (Xml.withoutMark (0x3C :: (addressTag ++ [0x3E]))) addressTag :=
  ⟨[], [], [], by decide, .nil, by decide, .tag (by decide) (by decide)⟩

/-- Cut in the address but not behind a slash, the report is refused. -/
theorem readBytes_cut_in_address :
    let cut := Utf8.ofString "<CodeNarc url='http:"
    ¬CutAtSlash [] cut ∧ ∃ e, (readBytes cut).violations = .error e := by
  intro cut
  have hcut : ¬CutAtSlash [] cut := by
    rintro ⟨written, hwritten, -⟩
    have hlast := congrArg List.getLast? hwritten
    rw [List.nil_append, ← List.cons_append, List.getLast?_concat] at hlast
    revert hlast
    decide
  have short : cut <+: [] ++ 0x3C :: addressTag := by decide
  obtain ⟨-, refused⟩ := @readBytes_cut_in_root_tag addressReport [] addressTag cut _
    readBytes_addressReport endsInRootTag_addressTag ⟨_, rfl⟩ short
  exact ⟨hcut, refused hcut⟩

/-- Cut behind a slash of the address, the report is accepted as an empty one. -/
theorem readBytes_cut_behind_slash :
    let cut := Utf8.ofString "<CodeNarc url='http:/"
    (readBytes addressReport).violations = .ok [⟨"E", "A", none, ""⟩] ∧
      EndsInRootTag (Xml.withoutMark (0x3C :: (addressTag ++ [0x3E]))) addressTag ∧
      0x3C :: (addressTag ++ [0x3E]) <+: addressReport ∧ cut <+: 0x3C :: addressTag ∧
      (readBytes cut).violations = .ok [] := by
  refine ⟨readBytes_addressReport, endsInRootTag_addressTag, ⟨_, rfl⟩, by decide, ?_⟩
  decide +kernel

end GroovyFindings.Report
