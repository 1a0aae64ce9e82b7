import GroovyFindings.Report.Reader
import GroovyFindings.Proofs.Xml.Content

/-!
# Runs of the report reader

What one event does to the reader of a report is said once, event by event;
every invariant of a run is derived from that.  `resume` is the reading of a
document from where the reader stands, so a document can be cut into
stretches and read piece by piece.

## Main results

* `step_start`, `step_empty`, `step_close`, `step_text`, `step_cdata` — the
  step of each event, guards included.
* `resume_append`, `run_of_resume_append` — reading a document in two pieces.
* `opened_of_content`, `run_element_eq_ok` — content closes what it opens.
* `length_opened_of_run`, `Aligned.of_stretch` — the reader knows how many
  tags are open and their local names.
* `run_behind_root` — nothing is yielded behind the root.
-/

namespace GroovyFindings.Report

variable {s s' : State} {item : Option Item} {items : List Item}

/-! ## Readings -/

theorem Reading.violations_eq_ok_iff {reading : Reading} {vs : List Violation} :
    reading.violations = .ok vs ↔
      reading.error = none ∧ vs = reading.items.filterMap Item.violation? := by
  unfold Reading.violations
  split
  · next e he => simp [he]
  · next he => simp [he, eq_comm]

theorem Reading.violations_eq_error_iff {reading : Reading} {e : Error} :
    reading.violations = .error e ↔ reading.error = some e := by
  unfold Reading.violations
  split
  · next e' he => simp [he]
  · next he => simp [he]

/-! ## One event -/

theorem State.enter_eq_ok {tag : Xml.Tag} (h : s.enter tag = .ok s') :
    ∃ scope, s.scope.enter tag.localName tag = .ok scope ∧
      (s.opened ≠ [] ∨ s.rooted = false) ∧
      s' = { s with scope := scope, rooted := true } := by
  simp only [State.enter] at h
  split at h
  · simp at h
  · next hroot =>
      split at h
      · next scope hscope =>
          refine ⟨scope, hscope, ?_, (Except.ok.inj h).symm⟩
          cases hopened : s.opened with
          | nil =>
              right
              simpa [hopened] using hroot
          | cons name outer => exact .inl (by simp)
      · simp at h

theorem step_start {tag : Xml.Tag} (h : step s (.start tag) = .ok (s', item)) :
    ∃ scope, s.scope.enter tag.localName tag = .ok scope ∧
      (s.opened ≠ [] ∨ s.rooted = false) ∧ item = none ∧
      s' = ⟨scope, tag.localName :: s.opened, true⟩ := by
  simp only [step] at h
  split at h
  · next mid hmid =>
      obtain ⟨scope, hscope, hroot, rfl⟩ := State.enter_eq_ok hmid
      obtain ⟨rfl, rfl⟩ := by simpa using h
      exact ⟨scope, hscope, hroot, rfl, rfl⟩
  · simp at h

/-- A tag is entered inside of an element, or as the root. -/
theorem State.enter_of_enter {tag : Xml.Tag} {scope : Scope}
    (hroot : s.opened ≠ [] ∨ s.rooted = false)
    (henter : s.scope.enter tag.localName tag = .ok scope) :
    s.enter tag = .ok { s with scope := scope, rooted := true } := by
  have hsecond : (s.opened.isEmpty && s.rooted) = false := by
    rcases hroot with hopened | hrooted
    · simp [hopened]
    · simp [hrooted]
  simp only [State.enter, hsecond, henter]
  rfl

theorem step_start_of_enter {tag : Xml.Tag} {scope : Scope}
    (hroot : s.opened ≠ [] ∨ s.rooted = false)
    (henter : s.scope.enter tag.localName tag = .ok scope) :
    step s (.start tag) = .ok (⟨scope, tag.localName :: s.opened, true⟩, none) := by
  simp only [step, State.enter_of_enter hroot henter]

theorem step_empty_of_enter {tag : Xml.Tag} {scope : Scope}
    (hroot : s.opened ≠ [] ∨ s.rooted = false)
    (henter : s.scope.enter tag.localName tag = .ok scope) :
    step s (.empty tag) =
      .ok (⟨(scope.leave tag.localName).1, s.opened, true⟩, (scope.leave tag.localName).2) := by
  simp only [step, State.enter_of_enter hroot henter]

theorem step_empty {tag : Xml.Tag} (h : step s (.empty tag) = .ok (s', item)) :
    ∃ scope, s.scope.enter tag.localName tag = .ok scope ∧
      (s.opened ≠ [] ∨ s.rooted = false) ∧
      item = (scope.leave tag.localName).2 ∧
      s' = ⟨(scope.leave tag.localName).1, s.opened, true⟩ := by
  simp only [step] at h
  split at h
  · next mid hmid =>
      obtain ⟨scope, hscope, hroot, rfl⟩ := State.enter_eq_ok hmid
      obtain ⟨rfl, rfl⟩ := by simpa using h
      exact ⟨scope, hscope, hroot, rfl, rfl⟩
  · simp at h

theorem step_close {name : String} {outer : List String} (hopened : s.opened = name :: outer) :
    step s .close =
      .ok ({ s with scope := (s.scope.leave name).1, opened := outer },
        (s.scope.leave name).2) := by
  simp only [step, hopened]

theorem step_text {raw : List UInt8} (h : step s (.text raw) = .ok (s', item)) :
    ∃ chars, Xml.textOf raw = .ok chars ∧ item = none ∧
      s' = { s with scope := s.scope.text chars } := by
  simp only [step] at h
  split at h
  · next chars hchars =>
      obtain ⟨rfl, rfl⟩ := by simpa using h
      exact ⟨chars, hchars, rfl, rfl⟩
  · simp at h

theorem step_cdata (raw : List UInt8) :
    step s (.cdata raw) =
      .ok ({ s with scope := s.scope.text (Utf8.decodeLossy raw) }, none) := rfl

/-- A second root is refused. -/
theorem step_second_root {tag : Xml.Tag} {e : Xml.Event} (hopened : s.opened = [])
    (hrooted : s.rooted = true) (he : e = .start tag ∨ e = .empty tag) :
    step s e = .error (.extraRoot tag.localName) := by
  have henter : s.enter tag = .error (.extraRoot tag.localName) := by
    simp [State.enter, hopened, hrooted]
  rcases he with rfl | rfl <;> simp [step, henter]

/-- Once there has been a root, there has been one. -/
theorem rooted_of_step {e : Xml.Event} (h : step s e = .ok (s', item))
    (hrooted : s.rooted = true) : s'.rooted = true := by
  cases e with
  | start tag => obtain ⟨_, _, _, _, rfl⟩ := step_start h; rfl
  | empty tag => obtain ⟨_, _, _, _, rfl⟩ := step_empty h; rfl
  | close =>
      cases hopened : s.opened with
      | nil =>
          simp only [step, hopened, Except.ok.injEq, Prod.mk.injEq] at h
          exact h.1 ▸ hrooted
      | cons name outer =>
          rw [step_close hopened] at h
          obtain ⟨rfl, -⟩ := by simpa using h
          exact hrooted
  | text raw => obtain ⟨_, _, _, rfl⟩ := step_text h; exact hrooted
  | cdata raw =>
      rw [step_cdata] at h
      obtain ⟨rfl, -⟩ := by simpa using h
      exact hrooted

/-! ## Events one after the other -/

theorem run_cons {e : Xml.Event} {es : List Xml.Event} (h : step s e = .ok (s', item)) :
    run s (e :: es) = (item.toList ++ (run s' es).1, (run s' es).2) := by
  simp only [run, h]

theorem run_cons_eq_ok {e : Xml.Event} {es : List Xml.Event}
    (h : run s (e :: es) = (items, .ok s')) :
    ∃ mid item items', step s e = .ok (mid, item) ∧ run mid es = (items', .ok s') ∧
      items = item.toList ++ items' := by
  cases hstep : step s e with
  | error err => simp [run, hstep] at h
  | ok p =>
      obtain ⟨mid, item⟩ := p
      rw [run_cons hstep] at h
      obtain ⟨hitems, hfinal⟩ := Prod.mk.inj h
      exact ⟨mid, item, _, rfl, Prod.ext rfl hfinal, hitems.symm⟩

theorem run_singleton_eq_ok {e : Xml.Event} (h : run s [e] = (items, .ok s')) :
    ∃ item, step s e = .ok (s', item) := by
  obtain ⟨mid, item, items', hstep, hend, -⟩ := run_cons_eq_ok h
  obtain ⟨-, rfl⟩ := by simpa [run] using hend
  exact ⟨item, hstep⟩

theorem run_append (s : State) (es es' : List Xml.Event) :
    run s (es ++ es') =
      match run s es with
      | (items, .ok mid) => (items ++ (run mid es').1, (run mid es').2)
      | (items, .error e) => (items, .error e) := by
  induction es generalizing s with
  | nil => rfl
  | cons e es ih =>
      cases hstep : step s e with
      | error err => simp only [List.cons_append, run, hstep]
      | ok p =>
          obtain ⟨mid, item⟩ := p
          rw [List.cons_append, run_cons hstep, run_cons hstep, ih]
          rcases hrun : run mid es with ⟨items, final⟩
          cases final with
          | error err => rfl
          | ok mid' => simp only [List.append_assoc]

theorem run_append_eq_ok {es es' : List Xml.Event}
    (h : run s (es ++ es') = (items, .ok s')) :
    ∃ mid items₁ items₂, run s es = (items₁, .ok mid) ∧
      run mid es' = (items₂, .ok s') ∧ items = items₁ ++ items₂ := by
  rw [run_append] at h
  rcases hrun : run s es with ⟨items₁, final⟩
  rw [hrun] at h
  cases final with
  | error err => simp at h
  | ok mid =>
      obtain ⟨hitems, hfinal⟩ := Prod.mk.inj h
      exact ⟨mid, items₁, _, rfl, Prod.ext rfl hfinal, hitems.symm⟩

theorem rooted_of_run {es : List Xml.Event} (h : run s es = (items, .ok s'))
    (hrooted : s.rooted = true) : s'.rooted = true := by
  induction es generalizing s items with
  | nil =>
      obtain ⟨-, rfl⟩ := by simpa [run] using h
      exact hrooted
  | cons e es ih =>
      obtain ⟨mid, item, items', hstep, hrun, -⟩ := run_cons_eq_ok h
      exact ih hrun (rooted_of_step hstep hrooted)

/-! ## Reading on -/

/-- The reading of the events that are left, from where the reader stands. -/
def resume (s : State) (left : List Xml.Event × Option Xml.Error) : Reading :=
  match run s left.1 with
  | (items, .error e) => ⟨items, some e⟩
  | (items, .ok s') =>
      match left.2 with
      | some e => ⟨items, some (.xml e)⟩
      | none => ⟨items, s'.endError?⟩

theorem readBytes_eq_resume (bytes : List UInt8) :
    readBytes bytes = resume {} (Xml.eventsFrom none [] (Xml.withoutMark bytes)) := rfl

theorem resume_append {es : List Xml.Event} {left : List Xml.Event × Option Xml.Error}
    (h : run s es = (items, .ok s')) :
    resume s (es ++ left.1, left.2) =
      ⟨items ++ (resume s' left).items, (resume s' left).error⟩ := by
  simp only [resume, run_append, h]
  rcases run s' left.1 with ⟨items', final⟩
  cases final with
  | error e => rfl
  | ok s'' => cases left.2 <;> rfl

/-- A document is accepted piece by piece. -/
theorem run_of_resume_append {es : List Xml.Event}
    {left : List Xml.Event × Option Xml.Error}
    (h : (resume s (es ++ left.1, left.2)).error = none) :
    ∃ items s', run s es = (items, .ok s') ∧ (resume s' left).error = none ∧
      (resume s (es ++ left.1, left.2)).items = items ++ (resume s' left).items := by
  rcases hrun : run s es with ⟨items, final⟩
  cases final with
  | error e => simp [resume, run_append, hrun] at h
  | ok s' =>
      rw [resume_append hrun] at h ⊢
      exact ⟨items, s', rfl, h, rfl⟩

theorem resume_eq_of_error_none {left : List Xml.Event × Option Xml.Error}
    (h : (resume s left).error = none) :
    ∃ s', run s left.1 = ((resume s left).items, .ok s') ∧ left.2 = none ∧
      s'.endError? = none := by
  unfold resume at h ⊢
  rcases hrun : run s left.1 with ⟨items, final⟩
  rw [hrun] at h
  cases final with
  | error e => simp at h
  | ok s' =>
      cases hfault : left.2 with
      | some e => simp [hfault] at h
      | none =>
          simp only [hfault] at h
          exact ⟨s', rfl, rfl, h⟩

theorem resume_stretch {opened opened' : List (List UInt8)} {bytes : List UInt8}
    {events : List Xml.Event} (h : Xml.Stretch opened bytes events opened')
    (hrun : run s events = (items, .ok s')) (rest : List UInt8) :
    resume s (Xml.eventsFrom none opened (bytes ++ rest)) =
      ⟨items ++ (resume s' (Xml.eventsFrom none opened' rest)).items,
        (resume s' (Xml.eventsFrom none opened' rest)).error⟩ := by
  rw [h.eventsFrom_append]
  exact resume_append hrun

theorem run_of_resume_stretch {opened opened' : List (List UInt8)}
    {bytes rest : List UInt8} {events : List Xml.Event}
    (h : Xml.Stretch opened bytes events opened')
    (accepted : (resume s (Xml.eventsFrom none opened (bytes ++ rest))).error = none) :
    ∃ items s', run s events = (items, .ok s') ∧
      (resume s' (Xml.eventsFrom none opened' rest)).error = none ∧
      (resume s (Xml.eventsFrom none opened (bytes ++ rest))).items =
        items ++ (resume s' (Xml.eventsFrom none opened' rest)).items := by
  rw [h.eventsFrom_append] at accepted ⊢
  exact run_of_resume_append accepted

theorem State.endError?_eq_none (h : s.endError? = none) :
    s.opened = [] ∧ s.rooted = true := by
  unfold State.endError? at h
  split at h
  · simp at h
  · next hopened =>
      refine ⟨hopened, ?_⟩
      simpa using h

/-! ## The open elements -/

/-- An event that opens no tag and closes none leaves the open elements as they
are. -/
theorem opened_of_step {e : Xml.Event} (h : step s e = .ok (s', item))
    (level : e.isLevel = true) : s'.opened = s.opened := by
  cases e with
  | start _ | close => cases level
  | empty tag =>
      obtain ⟨_, _, _, _, rfl⟩ := step_empty h
      rfl
  | text raw =>
      obtain ⟨_, _, _, rfl⟩ := step_text h
      rfl
  | cdata raw =>
      rw [step_cdata] at h
      obtain ⟨rfl, -⟩ := by simpa using h
      rfl

/-- Behind content the elements around it are open. -/
theorem opened_of_content {content : Xml.Content}
    (h : run s content.events = (items, .ok s')) : s'.opened = s.opened := by
  induction content generalizing s s' items with
  | nil =>
      obtain ⟨-, rfl⟩ := by simpa [Xml.Content.events, run] using h
      rfl
  | text _ rest ih | cdata _ rest ih | empty _ rest ih =>
      obtain ⟨mid, _, _, hstep, hrest, -⟩ := run_cons_eq_ok h
      rw [ih hrest, opened_of_step hstep rfl]
  | element tag inner rest ihInner ihRest =>
      obtain ⟨mid, _, _, hstep, hinside, -⟩ := run_cons_eq_ok h
      obtain ⟨_, _, _, _, rfl⟩ := step_start hstep
      obtain ⟨mid', _, _, hinner, houtside, -⟩ := run_append_eq_ok hinside
      obtain ⟨mid'', _, _, hclose, hrest, -⟩ := run_cons_eq_ok houtside
      rw [step_close (ihInner hinner)] at hclose
      obtain ⟨rfl, -⟩ := by simpa using hclose
      rw [ihRest hrest]

/-- An element is entered, what is in it is read, and the element is left. -/
theorem run_element_eq_ok {tag : Xml.Tag} {inner rest : Xml.Content}
    (h : run s (Xml.Content.element tag inner rest).events = (items, .ok s')) :
    ∃ scope mid innerItems restItems, s.scope.enter tag.localName tag = .ok scope ∧
      run ⟨scope, tag.localName :: s.opened, true⟩ inner.events = (innerItems, .ok mid) ∧
      run { mid with scope := (mid.scope.leave tag.localName).1, opened := s.opened }
        rest.events = (restItems, .ok s') ∧
      items = innerItems ++ ((mid.scope.leave tag.localName).2.toList ++ restItems) := by
  obtain ⟨first, _, _, hstep, hinside, rfl⟩ := run_cons_eq_ok h
  obtain ⟨scope, henter, -, rfl, rfl⟩ := step_start hstep
  obtain ⟨mid, innerItems, _, hinner, houtside, rfl⟩ := run_append_eq_ok hinside
  obtain ⟨last, _, restItems, hclose, hrest, rfl⟩ := run_cons_eq_ok houtside
  rw [step_close (opened_of_content hinner)] at hclose
  obtain ⟨rfl, rfl⟩ := by simpa using hclose
  exact ⟨scope, mid, innerItems, restItems, henter, hinner, hrest, rfl⟩

theorem length_opened_of_step {e : Xml.Event} {depth : Nat}
    (h : step s e = .ok (s', item))
    (hdepth : e.depthBehind? s.opened.length = some depth) :
    s'.opened.length = depth := by
  cases e with
  | start tag =>
      obtain ⟨_, _, _, _, rfl⟩ := step_start h
      simpa [Xml.Event.depthBehind?] using hdepth
  | close =>
      cases hopened : s.opened with
      | nil => simp [Xml.Event.depthBehind?, hopened] at hdepth
      | cons name outer =>
          rw [step_close hopened] at h
          obtain ⟨rfl, -⟩ := by simpa using h
          simpa [Xml.Event.depthBehind?, hopened] using hdepth
  | empty _ | text _ | cdata _ =>
      rw [opened_of_step h rfl]
      exact Option.some.inj hdepth

theorem length_opened_of_run {es : List Xml.Event} {depth : Nat}
    (h : run s es = (items, .ok s'))
    (hdepth : Xml.depthBehind? s.opened.length es = some depth) :
    s'.opened.length = depth := by
  induction es generalizing s items with
  | nil =>
      obtain ⟨-, rfl⟩ := by simpa [run] using h
      simpa [Xml.depthBehind?] using hdepth
  | cons e es ih =>
      obtain ⟨mid, item, items', hstep, hrun, -⟩ := run_cons_eq_ok h
      simp only [Xml.depthBehind?] at hdepth
      split at hdepth
      · next depth' hdepth' =>
          apply ih hrun
          rw [length_opened_of_step hstep hdepth']
          exact hdepth
      · simp at hdepth

/-- The reader holds the local names of the tags that are open. -/
def Aligned (s : State) (opened : List (List UInt8)) : Prop :=
  s.opened = opened.map fun name => Utf8.lossyString (Xml.localPart name)

theorem Aligned.of_token {opened opened' : List (List UInt8)} {token : Xml.Token}
    {event : Option Xml.Event} (h : Aligned s opened)
    (taken : Xml.Event.ofToken opened token = .ok (event, opened'))
    (hrun : run s event.toList = (items, .ok s')) : Aligned s' opened' := by
  rcases Xml.ofToken_eq_ok taken with ⟨rfl, -, hlevel⟩ | ⟨tag, rfl, rfl, -⟩ |
    ⟨_, name, -, -, rfl, rfl⟩
  · cases event with
    | none =>
        obtain ⟨-, rfl⟩ := by simpa [run] using hrun
        exact h
    | some e =>
        obtain ⟨item, hstep⟩ := run_singleton_eq_ok hrun
        rw [Aligned, opened_of_step hstep (hlevel e rfl)]
        exact h
  · obtain ⟨item, hstep⟩ := run_singleton_eq_ok hrun
    obtain ⟨_, _, _, _, rfl⟩ := step_start hstep
    exact congrArg (List.cons _) h
  · obtain ⟨item, hstep⟩ := run_singleton_eq_ok hrun
    have hopened : s.opened = _ :: _ := h
    rw [step_close hopened] at hstep
    obtain ⟨rfl, -⟩ := by simpa using hstep
    rfl

theorem Aligned.of_text {opened : List (List UInt8)} {text : List UInt8}
    (h : Aligned s opened)
    (hrun : run s (Xml.textEvents text) = (items, .ok s')) : Aligned s' opened := by
  rcases Xml.textEvents_cases text with hblank | ⟨raw, hraw⟩
  · rw [hblank] at hrun
    obtain ⟨-, rfl⟩ := by simpa [run] using hrun
    exact h
  · rw [hraw] at hrun
    have taken : Xml.Event.ofToken opened (.text raw) =
        .ok (some (.text raw), opened) := rfl
    exact h.of_token taken hrun

theorem Aligned.of_text_token {opened opened' : List (List UInt8)} {text : List UInt8}
    {token : Xml.Token} {event : Option Xml.Event} (h : Aligned s opened)
    (taken : Xml.Event.ofToken opened token = .ok (event, opened'))
    (hrun : run s (Xml.textEvents text ++ event.toList) = (items, .ok s')) :
    Aligned s' opened' := by
  obtain ⟨mid, _, _, htext, htoken, -⟩ := run_append_eq_ok hrun
  exact (h.of_text htext).of_token taken htoken

theorem Aligned.of_stretch {opened opened' : List (List UInt8)} {bytes : List UInt8}
    {events : List Xml.Event} (h : Aligned s opened)
    (hread : Xml.Stretch opened bytes events opened')
    (hrun : run s events = (items, .ok s')) : Aligned s' opened' := by
  induction hread generalizing s items with
  | nil =>
      obtain ⟨-, rfl⟩ := by simpa [run] using hrun
      exact h
  | markup plain complete taken rest ih =>
      rw [← List.append_assoc] at hrun
      obtain ⟨mid, _, _, htoken, hrest, -⟩ := run_append_eq_ok hrun
      exact ih (h.of_text_token taken htoken) hrest

theorem Aligned.opened_eq_nil {opened : List (List UInt8)} (h : Aligned s opened)
    (hclosed : s.opened = []) : opened = [] := by
  rw [h] at hclosed
  simpa using hclosed

/-- Behind the root no element is opened and nothing is yielded. -/
theorem run_behind_root {es : List Xml.Event} (hopened : s.opened = [])
    (hrooted : s.rooted = true) (h : run s es = (items, .ok s')) :
    items = [] ∧ s'.opened = [] := by
  induction es generalizing s items with
  | nil =>
      obtain ⟨rfl, rfl⟩ := by simpa [run] using h
      exact ⟨rfl, hopened⟩
  | cons e es ih =>
      obtain ⟨mid, item, items', hstep, hrun, rfl⟩ := run_cons_eq_ok h
      have hmid := rooted_of_step hstep hrooted
      cases e with
      | start tag =>
          rw [step_second_root hopened hrooted (.inl rfl)] at hstep
          simp at hstep
      | empty tag =>
          rw [step_second_root hopened hrooted (.inr rfl)] at hstep
          simp at hstep
      | close =>
          simp only [step, hopened, Except.ok.injEq, Prod.mk.injEq] at hstep
          obtain ⟨rfl, rfl⟩ := hstep
          exact ih hopened hmid hrun
      | text raw =>
          obtain ⟨_, _, rfl, rfl⟩ := step_text hstep
          refine ih ?_ hmid hrun
          exact hopened
      | cdata raw =>
          rw [step_cdata] at hstep
          obtain ⟨rfl, rfl⟩ := by simpa using hstep
          refine ih ?_ hmid hrun
          exact hopened

end GroovyFindings.Report
