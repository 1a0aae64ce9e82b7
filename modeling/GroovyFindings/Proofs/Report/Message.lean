import GroovyFindings.Proofs.Report.CharacterData
import GroovyFindings.Proofs.Report.Concatenation
import GroovyFindings.Proofs.Report.RootTag

/-!
# Messages

The message of a violation is the character data in its message element, trimmed;
but the reader of a document has left out blanks by then, wherever text ends at a
piece of markup.  Blanks at the ends of a message do not count.  So the message is
the character data if and only if no blank in the middle of it stands at an end of a
text.

## Main definitions

* `Leads` — complete markup and the text behind it.
* `TagPair` — the tags around an element.
* `Placement` — a violation with one message of character data, in its document.

## Main results

* `run_aside` — other elements in a violation leave alone what is remembered of it.
* `Placement.run_eq` — what a violation yields.
* `message_is_what_is_heard` — what its message is, and when that is the character
  data.
-/

namespace GroovyFindings.Xml

/-! ## Markup and the text behind it -/

/-- Complete markup and text behind it that yield `events`, up to the next markup. -/
def Leads (opened : List (List UInt8)) (bytes : List UInt8) (events : List Event)
    (opened' : List (List UInt8)) : Prop :=
  ∃ read text es, bytes = read ++ text ∧ 0x3C ∉ text ∧ Stretch opened read es opened' ∧
    events = es ++ textEvents text

namespace Leads

variable {opened inner opened' : List (List UInt8)} {bytes bytes' m : List UInt8}
  {events events' : List Event} {token : Token} {event : Option Event}

/-- The next markup. -/
theorem markup (h : Leads opened bytes events inner) (complete : Token.Complete token m)
    (taken : Event.ofToken inner token = .ok (event, opened')) :
    Stretch opened (bytes ++ 0x3C :: m) (events ++ event.toList) opened' := by
  obtain ⟨read, text, es, rfl, plain, hread, rfl⟩ := h
  have hwhole := hread.append (.markup plain complete taken .nil)
  simpa using hwhole

theorem inside (h : Leads opened bytes events opened') (outer : List (List UInt8)) :
    Leads (opened ++ outer) bytes events (opened' ++ outer) := by
  obtain ⟨read, text, es, rfl, plain, hread, rfl⟩ := h
  exact ⟨read, text, es, rfl, plain, hread.inside outer, rfl⟩

theorem depthBehind?_eq (h : Leads opened bytes events opened') :
    depthBehind? opened.length events = some opened'.length := by
  obtain ⟨read, text, es, rfl, -, hread, rfl⟩ := h
  have htext : depthBehind? opened'.length (textEvents text) = some opened'.length := by
    rcases textEvents_cases text with hblank | ⟨raw, hraw⟩
    · rw [hblank]
      rfl
    · rw [hraw]
      rfl
  rw [depthBehind?_append, hread.depthBehind?_eq, Option.bind_some, htext]

end Leads

theorem Stretch.leads {opened opened' : List (List UInt8)} {bytes : List UInt8}
    {events : List Event} (h : Stretch opened bytes events opened') :
    Leads opened bytes events opened' := by
  refine ⟨bytes, [], events, by simp, by simp, h, ?_⟩
  rw [show textEvents [] = [] from rfl, List.append_nil]

theorem Stretch.append_leads {opened inner opened' : List (List UInt8)}
    {bytes bytes' : List UInt8} {events events' : List Event}
    (h : Stretch opened bytes events inner) (h' : Leads inner bytes' events' opened') :
    Leads opened (bytes ++ bytes') (events ++ events') opened' := by
  obtain ⟨read, text, es, rfl, plain, hread, rfl⟩ := h'
  exact ⟨bytes ++ read, text, events ++ es, by simp, plain, h.append hread, by simp⟩

end GroovyFindings.Xml

namespace GroovyFindings.Report

open GroovyFindings.Xml (Stretch Leads Token Tag)

variable {s s' : State} {items : List Item}

theorem CharacterData.leads (d : CharacterData) (opened : List (List UInt8)) :
    Leads opened d.bytes d.events opened :=
  ⟨_, d.last, _, rfl, d.plain, stretch_sections opened d.sections, rfl⟩

/-! ## The tags around an element -/

/-- What stands between the brackets of a start tag that means `e`, and behind the
slash of the end tag that closes it. -/
structure TagPair (e : Element) where
  start : List UInt8
  close : List UInt8
  complete : Token.Complete (.tag start) (start ++ [0x3E])
  unclosed : start.getLast? ≠ some 0x2F
  means : elementOf? (Tag.ofContent start) = some e
  no_bracket : 0x3E ∉ close
  closes : Xml.endName close = (Tag.ofContent start).name

namespace TagPair

variable {e : Element}

def tag (p : TagPair e) : Tag := Tag.ofContent p.start

/-- An element with these tags. -/
def around (p : TagPair e) (body : List UInt8) : List UInt8 :=
  0x3C :: (p.start ++ 0x3E :: (body ++ 0x3C :: 0x2F :: (p.close ++ [0x3E])))

/-- An element that closes what it opens, behind what leads to it. -/
theorem stretch (p : TagPair e) {opened inner : List (List UInt8)}
    {before body : List UInt8} {es esBody : List Xml.Event}
    (hbefore : Leads opened before es inner) (hbody : Leads [] body esBody []) :
    Stretch opened (before ++ p.around body) (es ++ (.start p.tag :: (esBody ++ [.close])))
      inner := by
  have hstart : Xml.Event.ofToken inner (.tag p.start) =
      .ok (some (.start p.tag), p.tag.name :: inner) := by
    simp only [Xml.Event.ofToken, if_neg p.unclosed]
    rfl
  have hclose : Xml.Event.ofToken (p.tag.name :: inner) (.endTag p.close) =
      .ok (some .close, inner) := by
    show (if Xml.endName p.close = p.tag.name then _ else _) = _
    exact if_pos p.closes
  have hend := (hbody.inside (p.tag.name :: inner)).markup (.endTag p.no_bracket) hclose
  have hwhole := (hbefore.markup p.complete hstart).append hend
  simpa [around] using hwhole

end TagPair

/-! ## What is remembered of a violation -/

/-- A violation is entered with nothing of its message read. -/
theorem enter_violation {scope entered : Scope} {tag : Tag}
    (means : elementOf? tag = some .violation)
    (h : scope.enter tag.localName tag = .ok entered) :
    entered = { scope with pending := some ⟨ruleOf? tag, lineOf? tag, []⟩ } := by
  have hlegible := exists_enter_iff.1 ⟨entered, h⟩ .violation means
  obtain ⟨rule, hrule⟩ := hlegible "ruleName" (by simp [Element.keys])
  obtain ⟨line, hline⟩ := hlegible "lineNumber" (by simp [Element.keys])
  have hname : Element.ofName? tag.localName = some .violation := means
  simp only [Scope.enter, hname] at h
  rw [ruleOf?, lineOf?, valueOf?_of_ok hrule, valueOf?_of_ok hline]
  simpa [Scope.enterElement, hrule, hline, bind, Except.bind, pure, Except.pure,
    eq_comm] using h

/-- In a violation, a message is listened to. -/
theorem enter_message {scope entered : Scope} {tag : Tag} {p : Pending}
    (means : elementOf? tag = some .message) (pending : scope.pending = some p)
    (h : scope.enter tag.localName tag = .ok entered) :
    entered = { scope with inMessage := true } := by
  have hname : Element.ofName? tag.localName = some .message := means
  simp only [Scope.enter, hname] at h
  simpa [Scope.enterElement, pending, pure, Except.pure, eq_comm] using h

/-- Elements of the name are no files, violations or messages. -/
def Aside (name : String) : Prop :=
  Element.ofName? name = none ∨ Element.ofName? name = some .package

/-- What is remembered of a violation, and its file, are the same. -/
structure Undisturbed (before after : Scope) : Prop where
  file : after.file = before.file
  pending : after.pending = before.pending
  inMessage : after.inMessage = before.inMessage

namespace Undisturbed

variable {before between after : Scope}

theorem refl (scope : Scope) : Undisturbed scope scope := ⟨rfl, rfl, rfl⟩

theorem trans (h : Undisturbed before between) (h' : Undisturbed between after) :
    Undisturbed before after :=
  ⟨h'.file.trans h.file, h'.pending.trans h.pending, h'.inMessage.trans h.inMessage⟩

theorem enter {tag : Tag} (aside : Aside tag.localName)
    (h : before.enter tag.localName tag = .ok after) : Undisturbed before after := by
  unfold Scope.enter at h
  rcases aside with hname | hname
  · simp only [hname] at h
    obtain rfl := Except.ok.inj h
    exact refl before
  · simp only [hname] at h
    obtain ⟨path, rfl⟩ := enterElement_eq_ok h
    exact ⟨rfl, rfl, rfl⟩

theorem leave {name : String} (aside : Aside name) (scope : Scope) :
    Undisturbed scope (scope.leave name).1 ∧ (scope.leave name).2 = none := by
  unfold Scope.leave
  rcases aside with hname | hname
  · simp only [hname]
    exact ⟨refl scope, trivial⟩
  · simp only [hname]
    exact ⟨⟨rfl, rfl, rfl⟩, trivial⟩

end Undisturbed

/-- One event of an element aside, or of text beside a message.  What is open above
`base` are the elements aside that the violation holds. -/
theorem step_aside {names base : List String} {e : Xml.Event} {item : Option Item}
    {depth : Nat} (hopened : s.opened = names ++ base) (aside : ∀ n ∈ names, Aside n)
    (silent : s.scope.inMessage = false) (tagAside : ∀ tag ∈ e.tag?, Aside tag.localName)
    (hdepth : e.depthBehind? names.length = some depth) (h : step s e = .ok (s', item)) :
    item = none ∧ Undisturbed s.scope s'.scope ∧
      ∃ names', s'.opened = names' ++ base ∧ names'.length = depth ∧ ∀ n ∈ names', Aside n := by
  cases e with
  | start tag =>
      have htag : Aside tag.localName := tagAside tag rfl
      obtain ⟨scope, henter, -, rfl, rfl⟩ := step_start h
      refine ⟨rfl, Undisturbed.enter htag henter, tag.localName :: names, ?_, ?_, ?_⟩
      · show tag.localName :: s.opened = _
        rw [hopened, List.cons_append]
      · exact Option.some.inj hdepth
      · exact List.forall_mem_cons.2 ⟨htag, aside⟩
  | empty tag =>
      have htag : Aside tag.localName := tagAside tag rfl
      obtain ⟨scope, henter, -, rfl, rfl⟩ := step_empty h
      obtain ⟨hleave, hnone⟩ := Undisturbed.leave htag scope
      exact ⟨hnone, (Undisturbed.enter htag henter).trans hleave, names, hopened,
        Option.some.inj hdepth, aside⟩
  | close =>
      cases names with
      | nil => cases hdepth
      | cons name names =>
          rw [step_close hopened] at h
          obtain ⟨rfl, rfl⟩ := by simpa using h
          obtain ⟨hleave, hnone⟩ := Undisturbed.leave (aside name (by simp)) s.scope
          exact ⟨hnone, hleave, names, rfl, Option.some.inj hdepth,
            (List.forall_mem_cons.1 aside).2⟩
  | text raw =>
      obtain ⟨chars, -, rfl, rfl⟩ := step_text h
      rw [Scope.silent_of_not_inMessage silent chars]
      exact ⟨rfl, .refl s.scope, names, hopened, Option.some.inj hdepth, aside⟩
  | cdata raw =>
      rw [step_cdata, Scope.silent_of_not_inMessage silent] at h
      obtain ⟨rfl, rfl⟩ := by simpa using h
      exact ⟨rfl, .refl s.scope, names, hopened, Option.some.inj hdepth, aside⟩

/-- Other elements in a violation, and text beside its message, change nothing that
is remembered of the violation. -/
theorem run_aside {names base : List String} {es : List Xml.Event} {depth : Nat}
    (hopened : s.opened = names ++ base) (aside : ∀ n ∈ names, Aside n)
    (silent : s.scope.inMessage = false)
    (tagsAside : ∀ e ∈ es, ∀ tag ∈ e.tag?, Aside tag.localName)
    (hdepth : Xml.depthBehind? names.length es = some depth)
    (h : run s es = (items, .ok s')) :
    items = [] ∧ Undisturbed s.scope s'.scope ∧
      ∃ names', s'.opened = names' ++ base ∧ names'.length = depth ∧ ∀ n ∈ names', Aside n := by
  induction es generalizing s items names with
  | nil =>
      obtain ⟨rfl, rfl⟩ := by simpa [run] using h
      exact ⟨rfl, .refl _, names, hopened, Option.some.inj hdepth, aside⟩
  | cons e es ih =>
      obtain ⟨mid, item, _, hstep, hrest, rfl⟩ := run_cons_eq_ok h
      simp only [Xml.depthBehind?] at hdepth
      split at hdepth
      · next between hbetween =>
          obtain ⟨htag, htags⟩ := List.forall_mem_cons.1 tagsAside
          obtain ⟨rfl, hfirst, names', hopened', rfl, aside'⟩ :=
            step_aside hopened aside silent htag hbetween hstep
          have silent' : mid.scope.inMessage = false := hfirst.inMessage.trans silent
          obtain ⟨rfl, hlast, hnames⟩ := ih hopened' aside' silent' htags hdepth hrest
          exact ⟨rfl, hfirst.trans hlast, hnames⟩
      · cases hdepth

/-- The character data of a message goes to the violation around it. -/
theorem run_message {m : TagPair .message} {d : CharacterData} {q : Pending}
    (pending : s.scope.pending = some q)
    (h : run s (.start m.tag :: (d.events ++ [.close])) = (items, .ok s')) :
    items = [] ∧ d.Legible ∧ s'.opened = s.opened ∧
      s'.scope = { s.scope with
        pending := some { q with message := q.message ++ d.heard }, inMessage := false } := by
  have hname : Element.ofName? m.tag.localName = some .message := m.means
  obtain ⟨first, _, _, hstart, hinside, rfl⟩ := run_cons_eq_ok h
  obtain ⟨scope, henter, -, rfl, rfl⟩ := step_start hstart
  obtain rfl := enter_message m.means pending henter
  obtain ⟨last, _, _, hdata, hend, rfl⟩ := run_append_eq_ok hinside
  obtain ⟨rfl, rfl, legible⟩ := CharacterData.run_eq_ok hdata
  obtain ⟨_, _, _, hclose, hnone, rfl⟩ := run_cons_eq_ok hend
  obtain ⟨rfl, rfl⟩ := by simpa [run] using hnone
  rw [step_close rfl] at hclose
  obtain ⟨rfl, rfl⟩ := by simpa using hclose
  refine ⟨?_, legible, rfl, ?_⟩
  · simp [Scope.leave, hname]
  · simp [Scope.leave, hname, State.hears, Scope.text, pending]

/-! ## A violation with one message -/

/-- A violation with one message of character data, and what stands before it in its
document: `outer` are the tags open around it, `inner` those open in it around the
message.  Other elements in the violation are no files, violations or messages. -/
structure Placement where
  before : List UInt8
  violation : TagPair .violation
  lead : List UInt8
  message : TagPair .message
  data : CharacterData
  trail : List UInt8
  outer : List (List UInt8)
  inner : List (List UInt8)
  eventsBefore : List Xml.Event
  eventsLead : List Xml.Event
  eventsTrail : List Xml.Event
  leadsTo : Leads [] before eventsBefore outer
  leadsIn : Leads [] lead eventsLead inner
  leadsOut : Leads inner trail eventsTrail []
  leadAside : ∀ e ∈ eventsLead, ∀ tag ∈ e.tag?, Aside tag.localName
  trailAside : ∀ e ∈ eventsTrail, ∀ tag ∈ e.tag?, Aside tag.localName

namespace Placement

variable (p : Placement)

/-- The bytes up to the end of the violation. -/
def bytes : List UInt8 :=
  p.before ++ p.violation.around (p.lead ++ p.message.around p.data.bytes ++ p.trail)

/-- What the violation yields between its tags. -/
def eventsInside : List Xml.Event :=
  p.eventsLead ++ (.start p.message.tag :: (p.data.events ++ [.close])) ++ p.eventsTrail

theorem stretch :
    Stretch [] p.bytes (p.eventsBefore ++ (.start p.violation.tag :: (p.eventsInside ++ [.close])))
      p.outer := by
  have hmessage : Stretch [] (p.lead ++ p.message.around p.data.bytes)
      (p.eventsLead ++ (.start p.message.tag :: (p.data.events ++ [.close]))) p.inner :=
    p.message.stretch p.leadsIn (p.data.leads [])
  exact p.violation.stretch p.leadsTo (hmessage.append_leads p.leadsOut)

variable {p : Placement}

/-- Inside the violation, the character data of its message is heard and nothing
else. -/
theorem run_inside {q : Pending} (pending : s.scope.pending = some q)
    (silent : s.scope.inMessage = false)
    (h : run s p.eventsInside = (items, .ok s')) :
    items = [] ∧ p.data.Legible ∧ s'.opened = s.opened ∧ s'.scope.file = s.scope.file ∧
      s'.scope.pending = some { q with message := q.message ++ p.data.heard } := by
  obtain ⟨behind, _, _, hfront, htrail, rfl⟩ := run_append_eq_ok h
  obtain ⟨ahead, _, _, hlead, hmessage, rfl⟩ := run_append_eq_ok hfront
  have hnone : s.opened = [] ++ s.opened := rfl
  obtain ⟨rfl, hbefore, names, hopened, hlength, aside⟩ :=
    run_aside hnone (by simp) silent p.leadAside p.leadsIn.depthBehind?_eq hlead
  have hpending : ahead.scope.pending = some q := hbefore.pending.trans pending
  obtain ⟨rfl, legible, hsame, hscope⟩ := run_message hpending hmessage
  have hopened' : behind.opened = names ++ s.opened := hsame.trans hopened
  have hsilent : behind.scope.inMessage = false := by rw [hscope]
  have hdepth : Xml.depthBehind? names.length p.eventsTrail = some 0 := by
    rw [hlength]
    exact p.leadsOut.depthBehind?_eq
  obtain ⟨rfl, hbehind, names', hclosed, hzero, -⟩ :=
    run_aside hopened' aside hsilent p.trailAside hdepth htrail
  obtain rfl := List.eq_nil_of_length_eq_zero hzero
  refine ⟨rfl, legible, hclosed, ?_, ?_⟩
  · rw [hbehind.file, hscope]
    exact hbefore.file
  · rw [hbehind.pending, hscope]

/-- What is heard of the data is the message of what the violation yields. -/
theorem run_eq (outside : s.scope.inMessage = false)
    (h : run s (.start p.violation.tag :: (p.eventsInside ++ [.close])) = (items, .ok s')) :
    p.data.Legible ∧
      items = [Scope.finish s.scope.file
        ⟨ruleOf? p.violation.tag, lineOf? p.violation.tag, p.data.heard⟩] := by
  have hname : Element.ofName? p.violation.tag.localName = some .violation := p.violation.means
  obtain ⟨first, _, _, hstart, hinside, rfl⟩ := run_cons_eq_ok h
  obtain ⟨scope, henter, -, rfl, hfirst⟩ := step_start hstart
  have hscope : first.scope = { s.scope with
      pending := some ⟨ruleOf? p.violation.tag, lineOf? p.violation.tag, []⟩ } := by
    rw [hfirst]
    exact enter_violation p.violation.means henter
  have pending : first.scope.pending =
      some ⟨ruleOf? p.violation.tag, lineOf? p.violation.tag, []⟩ := by rw [hscope]
  have silent : first.scope.inMessage = false := by
    rw [hscope]
    exact outside
  obtain ⟨last, _, _, hbody, hend, rfl⟩ := run_append_eq_ok hinside
  obtain ⟨rfl, legible, hsame, hfile, hpending⟩ := run_inside pending silent hbody
  have hopened : last.opened = p.violation.tag.localName :: s.opened := by rw [hsame, hfirst]
  obtain ⟨_, _, _, hclose, hnone, rfl⟩ := run_cons_eq_ok hend
  obtain ⟨rfl, rfl⟩ := by simpa [run] using hnone
  rw [step_close hopened] at hclose
  obtain ⟨rfl, rfl⟩ := by simpa using hclose
  refine ⟨legible, ?_⟩
  simp only [Scope.leave, hname, hpending, hfile, hscope, Option.map_some, List.nil_append]
  rfl

end Placement

/-- **A message is what is heard of its character data, trimmed.** In an accepted
document, let a violation with a rule stand in a file and in no message of another
violation, and let it have one message, of character data.  Its record's message is
the trimmed character data if and only if every blank between the first character of
the data that is not blank and the last one is heard; those at the ends of a text are
not. -/
theorem message_is_what_is_heard {doc after : List UInt8} {vs : List Violation}
    {p : Placement} {earlier : List Item} {rule file : String}
    (accepted : (readBytes doc).violations = .ok vs)
    (stands : Xml.withoutMark doc = p.bytes ++ after)
    (reached : run {} p.eventsBefore = (earlier, .ok s))
    (outside : s.scope.inMessage = false)
    (named : ruleOf? p.violation.tag = some rule) (inFile : s.scope.file = some file) :
    (∃ later, vs = earlier.filterMap Item.violation? ++
        ⟨rule, file, lineOf? p.violation.tag, String.ofList (Text.trim p.data.heard)⟩ ::
          later) ∧
      (Text.trim p.data.heard = Text.trim p.data.chars ↔
        ∀ m ∈ Text.inside p.data.marks, m.2 = true) := by
  obtain ⟨haccepted, rfl⟩ := Reading.violations_eq_ok_iff.1 accepted
  rw [readBytes_eq_resume, stands] at haccepted ⊢
  obtain ⟨items, s', hrun, -, hitems⟩ := run_of_resume_stretch p.stretch haccepted
  obtain ⟨mid, _, own, hbefore, hviolation, rfl⟩ := run_append_eq_ok hrun
  obtain ⟨rfl, hmid⟩ := Prod.mk.inj (reached.symm.trans hbefore)
  obtain rfl := Except.ok.inj hmid
  obtain ⟨legible, rfl⟩ := Placement.run_eq outside hviolation
  refine ⟨?_, CharacterData.trim_heard_eq_iff legible⟩
  rw [hitems, named, inFile]
  simp [Scope.finish, Item.violation?]

/-! ## A blank before a literal section -/

/-- The start tags of a file and of a violation. -/
def fileStart : List UInt8 := Utf8.ofString "File name='A'"

def violationStart : List UInt8 := Utf8.ofString "Violation ruleName='E'"

theorem complete_rootStart : Token.Complete (.tag [0x52]) ([0x52] ++ [0x3E]) :=
  .tag (by decide) (by decide)

theorem complete_fileStart : Token.Complete (.tag fileStart) (fileStart ++ [0x3E]) :=
  .tag (by decide) (by decide)

theorem complete_violationStart :
    Token.Complete (.tag violationStart) (violationStart ++ [0x3E]) :=
  .tag (by decide) (by decide)

theorem complete_messageStart :
    Token.Complete (.tag (Utf8.ofString "Message")) (Utf8.ofString "Message" ++ [0x3E]) :=
  .tag (by decide) (by decide)

theorem unclosed_violationStart : violationStart.getLast? ≠ some 0x2F := by decide

theorem unclosed_messageStart : (Utf8.ofString "Message").getLast? ≠ some 0x2F := by decide

theorem means_violationStart : elementOf? (Tag.ofContent violationStart) = some .violation := by
  decide +kernel

theorem means_messageStart :
    elementOf? (Tag.ofContent (Utf8.ofString "Message")) = some .message := by
  decide +kernel

theorem no_bracket_violation : 0x3E ∉ Utf8.ofString "Violation" := by decide

theorem no_bracket_message : 0x3E ∉ Utf8.ofString "Message" := by decide

theorem closes_violation :
    Xml.endName (Utf8.ofString "Violation") = (Tag.ofContent violationStart).name := by
  decide

theorem closes_message :
    Xml.endName (Utf8.ofString "Message") =
      (Tag.ofContent (Utf8.ofString "Message")).name := by
  decide

/-- The tags of the violation and of its message. -/
def violationTags : TagPair .violation where
  start := violationStart
  close := Utf8.ofString "Violation"
  complete := complete_violationStart
  unclosed := unclosed_violationStart
  means := means_violationStart
  no_bracket := no_bracket_violation
  closes := closes_violation

def messageTags : TagPair .message where
  start := Utf8.ofString "Message"
  close := Utf8.ofString "Message"
  complete := complete_messageStart
  unclosed := unclosed_messageStart
  means := means_messageStart
  no_bracket := no_bracket_message
  closes := closes_message

/-- A root and a file in it. -/
def fileEvents : List Xml.Event :=
  [.start (Tag.ofContent [0x52]), .start (Tag.ofContent fileStart)]

theorem leads_fileStart :
    Leads [] (Utf8.ofString "<R><File name='A'>") fileEvents [Utf8.ofString "File", [0x52]] := by
  have root : Xml.Event.ofToken [] (.tag [0x52]) =
      .ok (some (.start (Tag.ofContent [0x52])), [[0x52]]) := rfl
  have file : Xml.Event.ofToken [[0x52]] (.tag fileStart) =
      .ok (some (.start (Tag.ofContent fileStart)), [Utf8.ofString "File", [0x52]]) := rfl
  have hempty : (0x3C : UInt8) ∉ [] := by simp
  exact (Stretch.markup hempty complete_rootStart root
    (.markup hempty complete_fileStart file .nil)).leads

theorem leads_nil : Leads [] [] [] [] := Stretch.nil.leads

theorem aside_nil : ∀ e ∈ ([] : List Xml.Event), ∀ tag ∈ e.tag?, Aside tag.localName := by
  simp

theorem plain_a : (0x3C : UInt8) ∉ [0x61, 0x20] := by decide

theorem plain_nil : (0x3C : UInt8) ∉ [] := by simp

theorem unclosed_b : ¬[0x5D, 0x5D, 0x3E] <:+: ([0x62] : List UInt8) := by decide

/-- The letter a and a blank, and then the letter b as a literal section. -/
def blankBetween : CharacterData := ⟨[⟨[0x61, 0x20], [0x62], plain_a, unclosed_b⟩], [], plain_nil⟩

/-- A violation with that message, the only one in its file. -/
def blankPlacement : Placement where
  before := Utf8.ofString "<R><File name='A'>"
  violation := violationTags
  lead := []
  message := messageTags
  data := blankBetween
  trail := []
  outer := [Utf8.ofString "File", [0x52]]
  inner := []
  eventsBefore := fileEvents
  eventsLead := []
  eventsTrail := []
  leadsTo := leads_fileStart
  leadsIn := leads_nil
  leadsOut := leads_nil
  leadAside := aside_nil
  trailAside := aside_nil

/-- The report with it. -/
def blankReport : List UInt8 := blankPlacement.bytes ++ Utf8.ofString "</File></R>"

theorem readBytes_blankReport :
    (readBytes blankReport).violations = .ok [⟨"E", "A", none, "ab"⟩] := by
  decide +kernel

/-- The blank is not heard, and makes a difference. -/
theorem message_without_its_blank :
    Text.trim blankPlacement.data.heard ≠ Text.trim blankPlacement.data.chars := by
  have reached : run {} blankPlacement.eventsBefore =
      ([], .ok ⟨{ file := some "A" }, ["File", "R"], true⟩) := by
    decide +kernel
  have stands : Xml.withoutMark blankReport =
      blankPlacement.bytes ++ Utf8.ofString "</File></R>" := rfl
  have named : ruleOf? blankPlacement.violation.tag = some "E" := by decide +kernel
  obtain ⟨-, hiff⟩ :=
    message_is_what_is_heard readBytes_blankReport stands reached rfl named rfl
  intro hsame
  have hblank : (' ', false) ∈ Text.inside blankPlacement.data.marks := by decide +kernel
  cases hiff.1 hsame _ hblank

/-- A message that is written as text in one report and partly as a literal section
in another one is not the same in both. -/
theorem message_depends_on_how_it_is_written :
    (readBytes (Utf8.ofString "<R><File name='A'><Violation ruleName='E'><Message>" ++
        Utf8.ofString "a b</Message></Violation></File></R>")).violations =
        .ok [⟨"E", "A", none, "a b"⟩] ∧
      (readBytes (Utf8.ofString "<R><File name='A'><Violation ruleName='E'><Message>" ++
        Utf8.ofString "a <![CDATA[b]]></Message></Violation></File></R>")).violations =
        .ok [⟨"E", "A", none, "ab"⟩] ∧
      String.ofList (Text.trim blankBetween.chars) = "a b" ∧
      blankBetween.bytes = Utf8.ofString "a <![CDATA[b]]>" := by
  refine ⟨?_, ?_, ?_, ?_⟩ <;> decide +kernel

end GroovyFindings.Report
