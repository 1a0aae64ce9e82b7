import GroovyFindings.Proofs.Report.Run

/-!
# Reports cut short

The reader ends tags, end tags and instructions silently where the document
ends, so a document that has been cut may still be read.  This file shows
that it is then read as the whole one was: a cut inside the root leaves
elements open, but for a cut in the root's own end tag, and behind the root
nothing is yielded any more.

The proof splits what is left of the document into the longest stretch of
complete markup and a rest.  The stretch is read alike in both documents; in
the rest the end of the document can cut one token only.

## Main results

* `resume_stuck` — the rest behind the last complete markup.
* `resume_cut` — a document from within its root.
* `readBytes_cut_short` — a document behind the start tag of its root.
-/

namespace GroovyFindings.Report

open GroovyFindings.Xml (Stretch Stuck Balanced Token eventsFrom textEvents)

variable {s s' : State} {items : List Item}

/-- What an accepted document says behind its root. -/
theorem items_behind_root {left : List Xml.Event × Option Xml.Error}
    (hopened : s.opened = []) (hrooted : s.rooted = true)
    (accepted : (resume s left).error = none) : (resume s left).items = [] := by
  obtain ⟨s', hrun, -, -⟩ := resume_eq_of_error_none accepted
  exact (run_behind_root hopened hrooted hrun).1

/-- Only an end tag takes open tags away. -/
private theorem endTag_of_closes {opened : List (List UInt8)} {name : List UInt8}
    {token : Token} {event : Option Xml.Event}
    (taken : Xml.Event.ofToken (name :: opened) token = .ok (event, [])) :
    opened = [] ∧ event = some .close ∧
      ∃ content, token = .endTag content ∧ Xml.endName content = name := by
  have htaken : Xml.Event.ofToken ([] ++ name :: opened) token = .ok (event, []) := taken
  rcases Xml.ofToken_cases htaken with
    ⟨inner', hclosed, -⟩ | ⟨-, hclosed, hevent, hcontent⟩
  · simp at hclosed
  · exact ⟨hclosed.symm, hevent, hcontent⟩

/-- An end tag that the cut document ends in is one in the whole document. -/
private theorem eventsFrom_endTag_append {name text content more : List UInt8}
    (plain : 0x3C ∉ text)
    (whole : (eventsFrom none [name] (text ++ 0x3C :: 0x2F :: content ++ more)).2 = none) :
    ∃ left : List Xml.Event × Option Xml.Error,
      eventsFrom none [name] (text ++ 0x3C :: 0x2F :: content ++ more) =
        ((textEvents text ++ [.close]) ++ left.1, left.2) := by
  have hassoc : text ++ 0x3C :: 0x2F :: content ++ more =
      text ++ 0x3C :: (0x2F :: (content ++ more)) := by simp
  rw [hassoc] at whole ⊢
  rw [Xml.eventsFrom_text_append plain] at whole ⊢
  obtain ⟨content', rest, hmarkup⟩ :=
    Token.exists_markup_endTag (0x3C :: 0x2F :: (content ++ more)) (content ++ more)
  have hnext : Token.next ⟨0x3C :: 0x2F :: (content ++ more), none⟩ =
      .ok (some (.endTag content', rest)) := by
    rw [Xml.next_bracket, hmarkup]
  rw [Xml.eventsFrom_of_token hnext] at whole ⊢
  simp only [Xml.Event.ofToken] at whole ⊢
  split at whole
  · simp at whole
  · next event opened' heq =>
      split at heq
      · obtain ⟨rfl, rfl⟩ := by simpa using heq
        exact ⟨eventsFrom none [] rest, by simp⟩
      · simp at heq

/-- Behind the last complete markup of a document that has been cut: if it is
accepted, it says there what the whole document does, and it is cut behind
the root or in the root's end tag, behind the name. -/
theorem resume_stuck {opened : List (List UInt8)} {rest more : List UInt8}
    (aligned : Aligned s opened) (rooted : s.rooted = true) (stuck : Stuck opened rest)
    (whole : (resume s (eventsFrom none opened (rest ++ more))).error = none)
    (accepted : (resume s (eventsFrom none opened rest)).error = none) :
    (resume s (eventsFrom none opened rest)).items =
        (resume s (eventsFrom none opened (rest ++ more))).items ∧
      (opened = [] ∨ ∃ name text content, opened = [name] ∧
        rest = text ++ 0x3C :: 0x2F :: content ∧ 0x3C ∉ text ∧
        Xml.endName content = name) := by
  cases opened with
  | nil =>
      have hopened : s.opened = [] := aligned
      rw [items_behind_root hopened rooted whole, items_behind_root hopened rooted accepted]
      exact ⟨rfl, .inl rfl⟩
  | cons name outer =>
      obtain ⟨s', hrun, hfault, hend⟩ := resume_eq_of_error_none accepted
      rcases stuck.eventsFrom_cases with
        ⟨e, he⟩ | ⟨text, token, event, opened', plain, taken, hevents, hendTag⟩
      · rw [hfault] at he
        cases he
      · have hread : run s (textEvents text ++ event.toList) =
            ((resume s (eventsFrom none (name :: outer) rest)).items, .ok s') := by
          rw [hevents] at hrun ⊢
          exact hrun
        -- the document ends with nothing open, so the last token closes the root
        have hclosed := (State.endError?_eq_none hend).1
        obtain rfl := (aligned.of_text_token taken hread).opened_eq_nil hclosed
        obtain ⟨rfl, rfl, content, rfl, hname⟩ := endTag_of_closes taken
        obtain ⟨rfl, -⟩ := hendTag content rfl
        obtain ⟨_, -, hwholeFault, -⟩ := resume_eq_of_error_none whole
        obtain ⟨left, hleft⟩ := eventsFrom_endTag_append plain hwholeFault
        refine ⟨?_, .inr ⟨name, text, content, rfl, rfl, plain, hname⟩⟩
        rw [hleft] at whole ⊢
        have hbehind : resume s ((textEvents text ++ [.close]) ++ left.1, left.2) =
            ⟨_ ++ (resume s' left).items, (resume s' left).error⟩ := resume_append hread
        rw [hbehind] at whole ⊢
        rw [items_behind_root hclosed (rooted_of_run hread rooted) whole, List.append_nil]

/-- The end of the name in the end tag of the root is in `bytes`, which stand
behind the root's start tag: what precedes the end tag closes what it
opens. -/
def ReachesEndTag (name bytes : List UInt8) : Prop :=
  ∃ inner more, bytes = inner ++ 0x3C :: 0x2F :: (name ++ more) ∧ Balanced inner

private theorem exists_eq_endName_append (content : List UInt8) :
    ∃ more, content = Xml.endName content ++ more := by
  unfold Xml.endName
  split
  · exact ⟨[], by simp⟩
  · obtain ⟨run, hrun⟩ := Text.dropEndWhile_append Xml.isEndSpace content
    exact ⟨run, hrun.symm⟩

/-- A document that is cut behind the start tag of its root, if it is
accepted, says what the whole document does, and it is not cut before the end
of the root's name in its end tag. -/
theorem resume_cut {opened : List (List UInt8)} {cut more : List UInt8}
    (aligned : Aligned s opened) (rooted : s.rooted = true)
    (whole : (resume s (eventsFrom none opened (cut ++ more))).error = none)
    (accepted : (resume s (eventsFrom none opened cut)).error = none) :
    (resume s (eventsFrom none opened cut)).items =
        (resume s (eventsFrom none opened (cut ++ more))).items ∧
      ∀ name, opened = [name] → ReachesEndTag name cut := by
  obtain ⟨read, rest, events, opened', rfl, hread, hstuck⟩ :=
    Xml.exists_stretch_append opened cut
  rw [List.append_assoc] at whole ⊢
  obtain ⟨items₁, mid, hrun, hwhole, hwholeItems⟩ := run_of_resume_stretch hread whole
  rw [resume_stretch hread hrun] at accepted ⊢
  have haligned := aligned.of_stretch hread hrun
  have hrooted := rooted_of_run hrun rooted
  obtain ⟨hitems, hcut⟩ := resume_stuck haligned hrooted hstuck hwhole accepted
  refine ⟨by rw [hwholeItems, hitems], ?_⟩
  rintro name rfl
  have hname : Stretch ([] ++ name :: []) read events opened' := hread
  rcases hname.leaves_or_closes with ⟨inner, rfl, hinner⟩ |
    ⟨before, text, content, after, events₁, events₂, rfl, rfl, plain, hend, hbefore, -⟩
  · -- the root is still open where the stretch ends: the rest closes it
    rcases hcut with hnil | ⟨name', text, content, hopened, rfl, plain, hend⟩
    · simp at hnil
    · obtain ⟨rfl, rfl⟩ : inner = [] ∧ name = name' := by
        cases inner with
        | nil => simpa using hopened
        | cons name'' inner => simp at hopened
      obtain ⟨after, hcontent⟩ := exists_eq_endName_append content
      rw [hend] at hcontent
      refine ⟨read ++ text, after, ?_, read, text, events, rfl, hinner, plain⟩
      rw [hcontent]
      simp only [List.append_assoc]
  · -- the root's end tag is in the stretch
    obtain ⟨more', hcontent⟩ := exists_eq_endName_append content
    rw [hend] at hcontent
    refine ⟨before ++ text, more' ++ 0x3E :: after ++ rest, ?_, before, text, events₁, rfl,
      hbefore, plain⟩
    rw [hcontent]
    simp only [List.append_assoc, List.cons_append]

/-! ## Documents -/

/-- `start` ends with the closing bracket of a tag that stands in no element.
In an accepted document the root's tag is the only such tag. -/
def EndsInRootTag (start content : List UInt8) : Prop :=
  ∃ read text events, start = read ++ (text ++ 0x3C :: (content ++ [0x3E])) ∧
    Stretch [] read events [] ∧ 0x3C ∉ text ∧
    Token.Complete (.tag content) (content ++ [0x3E])

/-- The tags that are open behind the root's tag. -/
def openedByRoot (content : List UInt8) : List (List UInt8) :=
  if content.getLast? = some 0x2F then [] else [(Xml.Tag.ofContent content).name]

/-- A tag that stands in no element is read, and is then the root's. -/
private theorem stretch_of_endsInRootTag {start content : List UInt8}
    (h : EndsInRootTag start content) :
    ∃ events, Stretch [] start events (openedByRoot content) ∧
      ∀ items s', run {} events = (items, .ok s') → s'.rooted = true := by
  obtain ⟨read, text, events, rfl, hread, plain, complete⟩ := h
  have htag : ∃ event, Xml.Event.ofToken [] (.tag content) =
        .ok (some event, openedByRoot content) ∧
      ∀ {s s' : State} {item : Option Item}, step s event = .ok (s', item) →
        s'.rooted = true := by
    unfold openedByRoot
    by_cases hempty : content.getLast? = some 0x2F
    · refine ⟨.empty (Xml.Tag.ofContent content.dropLast), ?_, ?_⟩
      · simp [Xml.Event.ofToken, hempty]
      · intro s s' item hstep
        obtain ⟨_, _, _, _, rfl⟩ := step_empty hstep
        rfl
    · refine ⟨.start (Xml.Tag.ofContent content), ?_, ?_⟩
      · simp [Xml.Event.ofToken, hempty]
      · intro s s' item hstep
        obtain ⟨_, _, _, _, rfl⟩ := step_start hstep
        rfl
  obtain ⟨event, taken, hrooted⟩ := htag
  have hstart := hread.append (.markup plain complete taken .nil)
  rw [List.append_nil] at hstart
  refine ⟨_, hstart, ?_⟩
  intro items s' hrun
  obtain ⟨mid, _, _, -, hbehind, -⟩ := run_append_eq_ok hrun
  obtain ⟨mid', _, _, -, hroot, -⟩ := run_append_eq_ok hbehind
  obtain ⟨mid'', _, _, hstep, hend, -⟩ := run_cons_eq_ok hroot
  obtain ⟨-, rfl⟩ := by simpa [run] using hend
  exact hrooted hstep

/-- A byte order mark is not looked for behind the first markup. -/
theorem withoutMark_append {start : List UInt8} (h : 0x3C ∈ Xml.withoutMark start)
    (more : List UInt8) :
    Xml.withoutMark (start ++ more) = Xml.withoutMark start ++ more := by
  unfold Xml.withoutMark at h ⊢
  cases hmark : Text.stripStart? [0xEF, 0xBB, 0xBF] start with
  | some rest =>
      rw [Text.stripStart?_eq_some_iff] at hmark
      have hwhole : Text.stripStart? [0xEF, 0xBB, 0xBF] (start ++ more) =
          some (rest ++ more) := by
        rw [Text.stripStart?_eq_some_iff, hmark, List.append_assoc]
      rw [hwhole]
      rfl
  | none =>
      rw [hmark] at h
      have hwhole : Text.stripStart? [0xEF, 0xBB, 0xBF] (start ++ more) = none := by
        cases hcut : Text.stripStart? [0xEF, 0xBB, 0xBF] (start ++ more) with
        | none => rfl
        | some rest =>
            rw [Text.stripStart?_eq_some_iff, List.append_eq_append_iff] at hcut
            rcases hcut with ⟨tail, hstart, -⟩ | ⟨tail, hstart, -⟩
            · have hmem : (0x3C : UInt8) ∈ [0xEF, 0xBB, 0xBF] := by
                rw [hstart]
                exact List.mem_append_left _ h
              simp at hmem
            · rw [hstart, Text.stripStart?_eq_some_iff.2 rfl] at hmark
              cases hmark
      rw [hwhole]
      rfl

/-- A document that is cut behind its root's start tag, if it is accepted. -/
private theorem items_of_cut {start inside more content : List UInt8}
    (root : EndsInRootTag (Xml.withoutMark start) content)
    (whole : (readBytes (start ++ (inside ++ more))).error = none)
    (accepted : (readBytes (start ++ inside)).error = none) :
    (readBytes (start ++ inside)).items = (readBytes (start ++ (inside ++ more))).items ∧
      ∀ name, openedByRoot content = [name] → ReachesEndTag name inside := by
  obtain ⟨events, hstart, hroot⟩ := stretch_of_endsInRootTag root
  have hbracket : 0x3C ∈ Xml.withoutMark start := by
    obtain ⟨read, text, _, hsplit, -⟩ := root
    rw [hsplit]
    simp
  rw [readBytes_eq_resume, withoutMark_append hbracket] at whole accepted ⊢
  rw [readBytes_eq_resume, withoutMark_append hbracket]
  obtain ⟨items, mid, hrun, hwhole, hitems⟩ := run_of_resume_stretch hstart whole
  have haligned : Aligned {} [] := rfl
  have hmid := haligned.of_stretch hstart hrun
  rw [resume_stretch hstart hrun] at accepted ⊢
  obtain ⟨hinside, hreach⟩ := resume_cut hmid (hroot _ _ hrun) hwhole accepted
  refine ⟨?_, hreach⟩
  rw [hitems, hinside]

/-- **A report cut short is never read as a shorter report.**  Of an accepted
document, whatever contains the root's start tag is refused or has the same
violations; and it is refused if the root is not self-closing and the
document is cut before the end of the name in the root's end tag. -/
theorem readBytes_cut_short {doc start inside content : List UInt8}
    {vs : List Violation} (whole : (readBytes doc).violations = .ok vs)
    (root : EndsInRootTag (Xml.withoutMark start) content)
    (hcut : start ++ inside <+: doc) :
    ((readBytes (start ++ inside)).violations = .ok vs ∨
        ∃ e, (readBytes (start ++ inside)).violations = .error e) ∧
      (content.getLast? ≠ some 0x2F →
        ¬ReachesEndTag (Xml.Tag.ofContent content).name inside →
        ∃ e, (readBytes (start ++ inside)).violations = .error e) := by
  obtain ⟨more, rfl⟩ := hcut
  rw [List.append_assoc] at whole
  obtain ⟨hwhole, rfl⟩ := Reading.violations_eq_ok_iff.1 whole
  simp only [Reading.violations_eq_ok_iff, Reading.violations_eq_error_iff]
  cases herror : (readBytes (start ++ inside)).error with
  | some e => exact ⟨.inr ⟨e, rfl⟩, fun _ _ => ⟨e, rfl⟩⟩
  | none =>
      obtain ⟨hitems, hreach⟩ := items_of_cut root hwhole herror
      refine ⟨.inl ⟨rfl, by rw [hitems]⟩, ?_⟩
      intro hroot hbefore
      exact absurd (hreach _ (by rw [openedByRoot, if_neg hroot])) hbefore

theorem readBytes_cut_short_sample :
    let start := Utf8.ofString "<R>"
    let inside := Utf8.ofString "<File name='A'><Violation ruleName='E'/></File></R"
    EndsInRootTag (Xml.withoutMark start) (Utf8.ofString "R") ∧
      ((readBytes (start ++ inside)).violations = .ok [⟨"E", "A", none, ""⟩] ∨
        ∃ e, (readBytes (start ++ inside)).violations = .error e) ∧
      ¬ReachesEndTag (Utf8.ofString "R") [] ∧
      ∃ e, (readBytes (start ++ [])).violations = .error e := by
  intro start inside
  have whole : (readBytes (start ++ inside ++ [0x3E])).violations =
      .ok [⟨"E", "A", none, ""⟩] := by decide +kernel
  have root : EndsInRootTag (Xml.withoutMark start) (Utf8.ofString "R") := by
    refine ⟨[], [], [], by decide, .nil, by decide, .tag (by decide) (by decide)⟩
  have hbefore : ¬ReachesEndTag (Utf8.ofString "R") [] := by
    rintro ⟨inner, more, hsplit, -⟩
    simp at hsplit
  refine ⟨root, (readBytes_cut_short whole root ⟨[0x3E], rfl⟩).1, hbefore, ?_⟩
  have hempty : start ++ [] <+: start ++ inside ++ [0x3E] := ⟨inside ++ [0x3E], by simp⟩
  exact (readBytes_cut_short whole root hempty).2 (by decide) hbefore

end GroovyFindings.Report
