import GroovyFindings.Proofs.Report.Walk
import GroovyFindings.Proofs.Xml.Nesting

/-!
# What is wrong with the structure of a report

Events whose attributes and texts can be read are refused for three reasons only:
a second element stands beside the root, an element has not been closed where
they end, or there is no element.  Which of the reasons is given depends on the
top-level elements and the open elements of the events, and on nothing else.

The reader's state is tied to these by one number, how many elements may still
stand outside of all others: one before the root and none from there on.  A step
uses it up by the top-level elements of its event, and a second root is what
there is no room for.

## Main definitions

* `LegibleEvent` — what an event by itself needs to be read.
* `LegibleToSecondRoot` — all is legible up to a second root.
* `State.room` — how many elements may still stand outside of all others.
* `structureError?` — what is wrong with events, by their top-level and open
  elements.

## Main results

* `exists_step`, `run_of_matched` — a step, and a run, of legible events.
* `opened_of_openBehind` — the names that are remembered.
* `error_readEvents`, `exists_error_read` — the reading of events, and of a
  document, ends with what is wrong with them.
* `readEvents_refused_iff` — each reason in turn.
-/

namespace GroovyFindings.Report

open GroovyFindings.Xml (Event Tag Content OpenBehind topLevel depthBehind?)

variable {s s' : State} {items : List Item} {events : List Event} {tags : List Tag}

/-! ## Legible events -/

/-- The attributes that the reader asks for, and the text, can be read. -/
def LegibleEvent : Event → Prop
  | .start tag | .empty tag => LegibleTag tag
  | .text raw => ∃ chars, Xml.textOf raw = .ok chars
  | .close | .cdata _ => True

/-- Every event before a second top-level element is legible; that element and
what comes behind its beginning are not looked at. -/
def LegibleToSecondRoot (events : List Event) : Prop :=
  ∀ before e after, events = before ++ e :: after →
    (topLevel 0 (before ++ [e])).length ≤ 1 → LegibleEvent e

theorem legibleToSecondRoot_of_legible (h : ∀ e ∈ events, LegibleEvent e) :
    LegibleToSecondRoot events := by
  rintro before e after rfl -
  exact h e (by simp)

theorem LegibleToSecondRoot.of_prefix {before : List Event} (h : LegibleToSecondRoot events)
    (begins : before <+: events) : LegibleToSecondRoot before := by
  obtain ⟨after, rfl⟩ := begins
  rintro first e rest rfl single
  exact h first e (rest ++ after) (by simp) single

/-! ## Room for a root -/

/-- How many elements may still stand outside of all others. -/
def State.room (s : State) : Nat := if s.rooted then 0 else 1

/-- An open element lies in a root. -/
def State.Grounded (s : State) : Prop := s.opened ≠ [] → s.rooted = true

theorem grounded_empty : ({} : State).Grounded := fun inside => absurd rfl inside

theorem State.room_of_rooted (h : s.rooted = true) : s.room = 0 := if_pos h

theorem State.room_of_not_rooted (h : s.rooted = false) : s.room = 1 := by simp [State.room, h]

/-- An element for which there is room, or that lies in another one, can be
entered and takes the room. -/
theorem enter_of_room {e : Event} {tag : Tag} (he : e = .start tag ∨ e = .empty tag)
    (grounded : s.Grounded) (room : (e.topLevel? s.opened.length).toList.length ≤ s.room) :
    (s.opened ≠ [] ∨ s.rooted = false) ∧
      (e.topLevel? s.opened.length).toList.length = s.room := by
  have beginning : e.topLevel? s.opened.length =
      if s.opened.length = 0 then some tag else none := by
    obtain rfl | rfl := he <;> rfl
  by_cases outside : s.opened = []
  · have one : (e.topLevel? s.opened.length).toList.length = 1 := by
      rw [beginning, if_pos (by rw [outside, List.length_nil])]
      rfl
    have unrooted : s.rooted = false := by
      by_contra rooted
      have full := State.room_of_rooted (s := s) (by simpa using rooted)
      omega
    exact ⟨.inr unrooted, by rw [one, State.room_of_not_rooted unrooted]⟩
  · have inner : (e.topLevel? s.opened.length).toList.length = 0 := by
      rw [beginning, if_neg (mt List.length_eq_zero_iff.1 outside)]
      rfl
    exact ⟨.inl outside, by rw [inner, State.room_of_rooted (grounded outside)]⟩

/-- A legible event is read if there is room for it. -/
theorem exists_step {e : Event} {depth : Nat} (grounded : s.Grounded)
    (matched : e.depthBehind? s.opened.length = some depth) (legible : LegibleEvent e)
    (room : (e.topLevel? s.opened.length).toList.length ≤ s.room) :
    ∃ s' item, step s e = .ok (s', item) ∧ s'.Grounded ∧
      (e.topLevel? s.opened.length).toList.length + s'.room = s.room := by
  cases e with
  | start tag =>
      obtain ⟨scope, henter⟩ := exists_enter_iff.2 legible
      obtain ⟨hroot, taken⟩ := enter_of_room (.inl rfl) grounded room
      exact ⟨_, _, step_start_of_enter hroot henter, fun _ => rfl, taken⟩
  | empty tag =>
      obtain ⟨scope, henter⟩ := exists_enter_iff.2 legible
      obtain ⟨hroot, taken⟩ := enter_of_room (.inr rfl) grounded room
      exact ⟨_, _, step_empty_of_enter hroot henter, fun _ => rfl, taken⟩
  | close =>
      cases hopened : s.opened with
      | nil =>
          rw [hopened] at matched
          cases matched
      | cons name outer =>
          have rooted : s.rooted = true := grounded (by simp [hopened])
          exact ⟨_, _, step_close hopened, fun _ => rooted, Nat.zero_add _⟩
  | text raw =>
      obtain ⟨chars, hchars⟩ := legible
      have hstep : step s (.text raw) = .ok ({ s with scope := s.scope.text chars }, none) := by
        simp only [step, hchars]
      exact ⟨_, _, hstep, grounded, Nat.zero_add _⟩
  | cdata raw => exact ⟨_, _, step_cdata raw, grounded, Nat.zero_add _⟩

/-- An event for which there is no room begins a second root. -/
theorem exists_second_root {e : Event}
    (full : s.room < (e.topLevel? s.opened.length).toList.length) :
    s.room = 0 ∧ ∃ tag, e.topLevel? s.opened.length = some tag ∧
      step s e = .error (.extraRoot tag.localName) := by
  cases beginning : e.topLevel? s.opened.length with
  | none =>
      rw [beginning] at full
      exact absurd full (Nat.not_lt_zero _)
  | some tag =>
      obtain ⟨outside, he⟩ := Xml.Event.eq_of_topLevel?_eq_some beginning
      rw [beginning, Option.toList_some, List.length_singleton] at full
      have rooted : s.rooted = true := by
        by_contra unrooted
        have one := State.room_of_not_rooted (s := s) (by simpa using unrooted)
        omega
      exact ⟨by omega, tag, rfl, step_second_root (List.length_eq_zero_iff.1 outside) rooted he⟩

/-- **Legible events are read up to a second root.**  What is yielded does not
matter here: from any state the first top-level element without room ends the
run, and without one the run goes to the end. -/
theorem run_of_matched {depth : Nat} (grounded : s.Grounded)
    (matched : depthBehind? s.opened.length events = some depth)
    (legible : ∀ before e after, events = before ++ e :: after →
      (topLevel s.opened.length (before ++ [e])).length ≤ s.room → LegibleEvent e) :
    (∃ tag items, (topLevel s.opened.length events)[s.room]? = some tag ∧
      run s events = (items, .error (.extraRoot tag.localName))) ∨
    ∃ items s', run s events = (items, .ok s') ∧
      (topLevel s.opened.length events).length + s'.room = s.room := by
  induction events generalizing s with
  | nil => exact .inr ⟨[], s, rfl, Nat.zero_add _⟩
  | cons e rest ih =>
      obtain ⟨depth', hdepth, hrest⟩ : ∃ depth', e.depthBehind? s.opened.length = some depth' ∧
          depthBehind? depth' rest = some depth := by
        simp only [depthBehind?] at matched
        split at matched
        · next depth' hdepth => exact ⟨depth', hdepth, matched⟩
        · cases matched
      rw [Xml.topLevel_cons hdepth]
      -- without room the run ends here; with room the event counts off what it takes
      by_cases room : (e.topLevel? s.opened.length).toList.length ≤ s.room
      · have legibleFirst : LegibleEvent e := by
          apply legible [] e rest rfl
          rw [List.nil_append, Xml.topLevel_cons hdepth, topLevel, List.append_nil]
          exact room
        obtain ⟨mid, item, hstep, groundedMid, taken⟩ :=
          exists_step grounded hdepth legibleFirst room
        have hmid : mid.opened.length = depth' := length_opened_of_step hstep hdepth
        subst hmid
        have legibleRest : ∀ before e' after, rest = before ++ e' :: after →
            (topLevel mid.opened.length (before ++ [e'])).length ≤ mid.room →
              LegibleEvent e' := by
          intro before e' after hsplit hroom
          apply legible (e :: before) e' after (by rw [hsplit, List.cons_append])
          rw [List.cons_append, Xml.topLevel_cons hdepth, List.length_append]
          omega
        obtain ⟨tag, items, second, hrun⟩ | ⟨items, s', hrun, left⟩ :=
          ih groundedMid hrest legibleRest
        · left
          refine ⟨tag, item.toList ++ items, ?_, by rw [run_cons hstep, hrun]⟩
          rw [← taken, List.getElem?_append_right (Nat.le_add_right _ _), Nat.add_sub_cancel_left]
          exact second
        · right
          refine ⟨item.toList ++ items, s', by rw [run_cons hstep, hrun], ?_⟩
          rw [List.length_append]
          omega
      · obtain ⟨full, tag, beginning, hstep⟩ := exists_second_root (Nat.lt_of_not_le room)
        left
        refine ⟨tag, [], ?_, by simp only [run, hstep]⟩
        rw [beginning, full]
        rfl

/-! ## The names that are remembered -/

/-- The reader holds the names of the elements that are open. -/
theorem opened_of_openBehind (h : OpenBehind tags events)
    (hrun : run {} events = (items, .ok s)) : s.opened = tags.map Tag.localName := by
  induction h generalizing s items with
  | document content => exact opened_of_content hrun
  | inside around tag content ih =>
      obtain ⟨mid, _, _, hbefore, hinside, -⟩ := run_append_eq_ok hrun
      obtain ⟨mid', _, _, hstep, hcontent, -⟩ := run_cons_eq_ok hinside
      obtain ⟨_, _, _, _, rfl⟩ := step_start hstep
      rw [opened_of_content hcontent, List.map_cons, ← ih hbefore]

/-- A beginning in which there is no second root is read, and behind it the
names of its open elements are held. -/
theorem exists_run_of_prefix {before : List Event} (opens : OpenBehind tags events)
    (legible : LegibleToSecondRoot events) (begins : before <+: events)
    (single : (topLevel 0 before).length ≤ 1) :
    ∃ tags' items s, OpenBehind tags' before ∧ run {} before = (items, .ok s) ∧
      s.opened = tags'.map Tag.localName := by
  obtain ⟨tags', opens'⟩ := opens.exists_of_prefix begins
  have outcome := run_of_matched grounded_empty opens'.depthBehind?_eq (legible.of_prefix begins)
  obtain ⟨tag, _, second, -⟩ | ⟨items, s, hrun, -⟩ := outcome
  · exact absurd (List.getElem?_eq_some_iff.1 second).1 (Nat.not_lt_of_le single)
  · exact ⟨tags', items, s, opens', hrun, opened_of_openBehind opens' hrun⟩

/-! ## Why events are refused -/

/-- What is wrong with events that leave `tags` open and have the top-level
elements `top`: a second root counts before an open element, and that before
there being no element. -/
def structureError? (tags top : List Tag) : Option Error :=
  match top[1]?, tags with
  | some second, _ => some (.extraRoot second.localName)
  | none, tag :: _ => some (.truncated tag.localName)
  | none, [] => if top.isEmpty then some .empty else none

/-- A state with room left, or that has just given it away, ends as the
structure says. -/
theorem endError?_eq_structureError? {top : List Tag}
    (opened : s.opened = tags.map Tag.localName) (left : top.length + s.room = 1) :
    s.endError? = structureError? tags top := by
  have single : top[1]? = none := List.getElem?_eq_none (by omega)
  cases tags with
  | cons tag outer => simp only [State.endError?, opened, structureError?, single, List.map_cons]
  | nil =>
      have rooted : s.rooted = !top.isEmpty := by
        cases hrooted : s.rooted with
        | false =>
            rw [State.room_of_not_rooted hrooted] at left
            simpa using left
        | true =>
            rw [State.room_of_rooted hrooted] at left
            cases top with
            | nil => cases left
            | cons => rfl
      simp only [State.endError?, opened, structureError?, single, List.map_nil, rooted]
      cases top <;> rfl

/-- The reading ends as the structure of the events says. -/
theorem error_readEvents (opens : OpenBehind tags events)
    (legible : LegibleToSecondRoot events) :
    (readEvents events none).error = structureError? tags (topLevel 0 events) := by
  have outcome := run_of_matched grounded_empty opens.depthBehind?_eq legible
  simp only [List.length_nil, State.room_of_not_rooted (s := {}) rfl] at outcome
  obtain ⟨tag, items, second, hrun⟩ | ⟨items, s, hrun, left⟩ := outcome
  · simp only [readEvents, hrun, structureError?, second]
  · rw [← endError?_eq_structureError? (opened_of_openBehind opens hrun) left]
    simp only [readEvents, hrun]

/-- A document without a fault is refused for its structure alone: its reader has
seen to the end tags. -/
theorem exists_error_read (input : Xml.Input) (faultless : (Xml.events input).2 = none)
    (legible : LegibleToSecondRoot (Xml.events input).1) :
    ∃ tags, OpenBehind tags (Xml.events input).1 ∧
      (read input).error = structureError? tags (topLevel 0 (Xml.events input).1) := by
  obtain ⟨tags, opens⟩ := Xml.exists_openBehind_events input
  refine ⟨tags, opens, ?_⟩
  rw [← error_readEvents opens legible, ← faultless]
  rfl

section StructureError

variable {top : List Tag} {name : String}

theorem structureError?_eq_extraRoot_iff :
    structureError? tags top = some (.extraRoot name) ↔
      ∃ tag, top[1]? = some tag ∧ tag.localName = name := by
  cases second : top[1]? with
  | some tag => simp [structureError?, second]
  | none =>
      simp only [reduceCtorEq, false_and, exists_false, iff_false]
      cases tags <;> simp [structureError?, second]

theorem structureError?_eq_truncated_iff :
    structureError? tags top = some (.truncated name) ↔
      top.length ≤ 1 ∧ ∃ tag outer, tags = tag :: outer ∧ tag.localName = name := by
  rw [← List.getElem?_eq_none_iff]
  cases second : top[1]? with
  | some tag => simp [structureError?, second]
  | none => cases tags <;> simp [structureError?, second]

theorem structureError?_eq_empty_iff :
    structureError? tags top = some .empty ↔ top = [] ∧ tags = [] := by
  cases top with
  | nil => cases tags <;> simp [structureError?]
  | cons root others => cases others <;> cases tags <;> simp [structureError?]

theorem structureError?_eq_none_iff :
    structureError? tags top = none ↔ top.length = 1 ∧ tags = [] := by
  cases top with
  | nil => cases tags <;> simp [structureError?]
  | cons root others => cases others <;> cases tags <;> simp [structureError?]

end StructureError

/-- An end tag is handed the name of the start tag that it matches. -/
theorem step_matching_close {before : List Event} {tag : Tag} {inner : Content}
    (hrun : run {} (before ++ .start tag :: inner.events) = (items, .ok s)) :
    step s .close =
      .ok ({ s with scope := (s.scope.leave tag.localName).1, opened := s.opened.tail },
        (s.scope.leave tag.localName).2) := by
  obtain ⟨mid, _, _, -, hinside, -⟩ := run_append_eq_ok hrun
  obtain ⟨mid', _, _, hstart, hinner, -⟩ := run_cons_eq_ok hinside
  obtain ⟨_, _, _, _, rfl⟩ := step_start hstart
  have hopened : s.opened = tag.localName :: mid.opened := opened_of_content hinner
  rw [step_close hopened, hopened, List.tail_cons]

/-- **Why events are refused.**  For events whose end tags match and that are
legible up to a second root, the reading fails with the second top-level element
if there is one, else with the innermost open element if one is open, else for
want of an element, and for nothing else.  All the while the reader holds the
names of the open elements, and leaves an element by the name it entered it. -/
theorem readEvents_refused_iff (opens : OpenBehind tags events)
    (legible : LegibleToSecondRoot events) :
    (∀ name, (readEvents events none).violations = .error (.extraRoot name) ↔
      ∃ tag, (topLevel 0 events)[1]? = some tag ∧ tag.localName = name) ∧
    (∀ name, (readEvents events none).violations = .error (.truncated name) ↔
      (topLevel 0 events).length ≤ 1 ∧
        ∃ tag outer, tags = tag :: outer ∧ tag.localName = name) ∧
    ((readEvents events none).violations = .error .empty ↔
      ∀ tag, .start tag ∉ events ∧ .empty tag ∉ events) ∧
    ((∃ vs, (readEvents events none).violations = .ok vs) ↔
      (topLevel 0 events).length = 1 ∧ tags = []) ∧
    (∀ before, before <+: events → (topLevel 0 before).length ≤ 1 →
      ∃ tags' items s, OpenBehind tags' before ∧ run {} before = (items, .ok s) ∧
        s.opened = tags'.map Tag.localName) ∧
    ∀ before tag inner, before ++ .start tag :: (Content.events inner ++ [.close]) <+: events →
      (topLevel 0 (before ++ .start tag :: inner.events)).length ≤ 1 →
        ∃ items s, run {} (before ++ .start tag :: inner.events) = (items, .ok s) ∧
          step s .close =
            .ok ({ s with scope := (s.scope.leave tag.localName).1, opened := s.opened.tail },
              (s.scope.leave tag.localName).2) := by
  have reason := error_readEvents opens legible
  refine ⟨?_, ?_, ?_, ?_, ?_, ?_⟩
  · intro name
    rw [Reading.violations_eq_error_iff, reason, structureError?_eq_extraRoot_iff]
  · intro name
    rw [Reading.violations_eq_error_iff, reason, structureError?_eq_truncated_iff]
  · rw [Reading.violations_eq_error_iff, reason, structureError?_eq_empty_iff,
      ← Xml.topLevel_eq_nil_iff opens.depthBehind?_eq]
    exact and_iff_left_of_imp opens.eq_nil_of_topLevel
  · simp only [Reading.violations_eq_ok_iff, exists_and_left, exists_eq, and_true, reason]
    exact structureError?_eq_none_iff
  · intro before begins single
    exact exists_run_of_prefix opens legible begins single
  · intro before tag inner begins single
    have inside : before ++ .start tag :: inner.events <+: events :=
      List.IsPrefix.trans ⟨[.close], by simp⟩ begins
    obtain ⟨_, items, s, -, hrun, -⟩ := exists_run_of_prefix opens legible inside single
    exact ⟨items, s, hrun, step_matching_close hrun⟩

/-- The events of a report that has been cut behind the start tag of a file. -/
def cutEvents : List Event :=
  let tag (content : String) : Tag := .ofContent (Utf8.ofString content)
  [.start (tag "CodeNarc"), .empty (tag "Package path='a'"), .start (tag "File name='A'")]

theorem readEvents_refused_cutEvents :
    Xml.events ⟨Utf8.ofString "<CodeNarc><Package path='a'/><File name='A'>", none⟩ =
        (cutEvents, none) ∧
      (∃ tags, OpenBehind tags cutEvents) ∧ LegibleToSecondRoot cutEvents ∧
      (readEvents cutEvents none).violations = .error (.truncated "File") := by
  have opens : OpenBehind _ cutEvents :=
    .inside (.inside (.document .nil) _ (.empty _ .nil)) _ .nil
  have legible : LegibleToSecondRoot cutEvents := by
    have entered (tag : Tag) (scope : Scope)
        (henter : ({} : Scope).enter tag.localName tag = .ok scope) : LegibleTag tag :=
      exists_enter_iff.1 ⟨scope, henter⟩
    apply legibleToSecondRoot_of_legible
    simp only [cutEvents, List.forall_mem_cons]
    refine ⟨?_, ?_, ?_, by simp⟩
    · exact entered _ {} (by decide +kernel)
    · exact entered _ { package := "a" } (by decide +kernel)
    · exact entered _ { file := some "A" } (by decide +kernel)
  obtain ⟨-, truncated, -⟩ := readEvents_refused_iff opens legible
  refine ⟨by decide +kernel, ⟨_, opens⟩, legible, ?_⟩
  exact (truncated "File").2 ⟨by decide +kernel, _, _, rfl, by decide +kernel⟩

end GroovyFindings.Report
