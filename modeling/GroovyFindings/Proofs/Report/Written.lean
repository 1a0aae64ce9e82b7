import GroovyFindings.Proofs.Report.Passage
import GroovyFindings.Proofs.Text.Decimal
import GroovyFindings.Proofs.Xml.Attribute

/-!
# Reports that were written

A report is written as a root with packages in it, files in these, findings in
those, and a message in each finding.  There is some freedom in how: white
space between elements, the order of attributes, their quotes, the blanks
around them, and attributes that nobody asks for.  Whatever is chosen, the
report says what was written.

## Main definitions

* `Finding`, `FileFindings`, `PackageFindings` — what can be written.
* `Spaced` — elements one after the other, with white space around them.
* `WrittenReport` — the documents that a report can be written as.

## Main results

* `Finding.passage`, `FileFindings.passage`, `PackageFindings.passage` — what
  the elements of a written report yield where they stand.
* `readBytes_of_written` — a written report is read back.
* `exists_writtenReport` — every report can be written.
-/

namespace GroovyFindings.Report

open GroovyFindings.Xml (Tag WrittenTag WrittenAttribute Lettered)

variable {s s' : State} {items : List Item}

/-! ## What is written -/

/-- A finding of the linter: its rule is not blank, its line fits in 32 bits,
and its message has no blanks at its ends. -/
structure Finding where
  rule : String
  line : Option Nat
  message : String
  rule_ink : Text.isBlankText rule = false
  line_bound : ∀ n ∈ line, 0 < n ∧ n ≤ Text.maxWord32
  message_first : ∀ c, message.toList.head? = some c → Text.isBlank c = false
  message_last : ∀ c, message.toList.getLast? = some c → Text.isBlank c = false

/-- The findings in a file. -/
structure FileFindings where
  name : String
  findings : List Finding

/-- The findings in a package. -/
structure PackageFindings where
  path : String
  files : List FileFindings

/-- What a finding says in a file. -/
def Finding.violation (file : String) (f : Finding) : Violation :=
  ⟨f.rule, file, f.line, f.message⟩

/-- What the findings in a file say in a package. -/
def FileFindings.violations (path : String) (f : FileFindings) : List Violation :=
  f.findings.map (Finding.violation (joinPackage path f.name))

/-- What the findings in a package say. -/
def PackageFindings.violations (p : PackageFindings) : List Violation :=
  p.files.flatMap (FileFindings.violations p.path)

/-! ## How it is written -/

/-- White space, as bytes. -/
def Gap (bytes : List UInt8) : Prop :=
  ∃ blanks, bytes = Utf8.encode blanks ∧ ∀ c ∈ blanks, Text.isBlank c = true

/-- The things are written one after the other, with gaps around them. -/
inductive Spaced {α : Type} (writes : α → List UInt8 → Prop) :
    (xs : List α) → (bytes : List UInt8) → Prop where
  | nil {gap : List UInt8} (blank : Gap gap) : Spaced writes [] gap
  | cons {gap bytes rest : List UInt8} {x : α} {xs : List α} (blank : Gap gap)
      (first : writes x bytes) (more : Spaced writes xs rest) :
      Spaced writes (x :: xs) (gap ++ (bytes ++ rest))

/-- The line of a violation stands in its tag in decimal; a finding without one
has no such attribute. -/
def CarriesLine (tag : WrittenTag) : (line : Option Nat) → Prop
  | some n => tag.Carries "lineNumber" (toString n)
  | none => tag.Lacks "lineNumber"

/-- The bytes are those of a finding. -/
def Finding.WrittenAs (f : Finding) (bytes : List UInt8) : Prop :=
  ∃ (tag messageTag : WrittenTag) (gap gap' : List UInt8),
    tag.Carries "ruleName" f.rule ∧ CarriesLine tag f.line ∧ Gap gap ∧ Gap gap' ∧
    bytes = written "Violation" tag (gap ++
      (written "Message" messageTag (Utf8.encode (Xml.escape f.message.toList)) ++ gap'))

/-- The bytes are those of a file and its findings. -/
def FileFindings.WrittenAs (f : FileFindings) (bytes : List UInt8) : Prop :=
  ∃ (tag : WrittenTag) (body : List UInt8), tag.Carries "name" f.name ∧
    Spaced Finding.WrittenAs f.findings body ∧ bytes = written "File" tag body

/-- The bytes are those of a package and its files. -/
def PackageFindings.WrittenAs (p : PackageFindings) (bytes : List UInt8) : Prop :=
  ∃ (tag : WrittenTag) (body : List UInt8), tag.Carries "path" p.path ∧
    Spaced FileFindings.WrittenAs p.files body ∧ bytes = written "Package" tag body

/-- The document is a report of the packages. -/
def WrittenReport (packages : List PackageFindings) (doc : List UInt8) : Prop :=
  ∃ (tag : WrittenTag) (body : List UInt8),
    Spaced PackageFindings.WrittenAs packages body ∧ doc = written "CodeNarc" tag body

/-! ## Names -/

private theorem lettered_package : Lettered "Package" := by decide

private theorem lettered_file : Lettered "File" := by decide

private theorem lettered_violation : Lettered "Violation" := by decide

private theorem lettered_message : Lettered "Message" := by decide

private theorem lettered_path : Lettered "path" := by decide

private theorem lettered_name : Lettered "name" := by decide

private theorem lettered_ruleName : Lettered "ruleName" := by decide

private theorem lettered_lineNumber : Lettered "lineNumber" := by decide

/-! ## Pieces of a written report -/

theorem passage_gap {gap : List UInt8} (h : Gap gap) : Passage s gap [] s := by
  obtain ⟨blanks, rfl, hblanks⟩ := h
  apply Passage.text
  · apply Xml.not_mem_encode (by decide)
    intro c hc hvalue
    have hbracket : c = '<' := Char.toNat_inj.1 hvalue
    have hblank := hblanks c hc
    rw [hbracket] at hblank
    exact absurd hblank (by decide)
  · apply Xml.readable_encode
    intro hmem
    exact absurd (hblanks _ hmem) (by decide)

/-- Things that each lead back to where the reader stands do so one after the
other. -/
theorem Spaced.passage {α : Type} {writes : α → List UInt8 → Prop} {yields : α → List Item}
    (silent : s.scope.Silent)
    (each : ∀ x bytes, writes x bytes → Passage s bytes (yields x) s)
    {xs : List α} {bytes : List UInt8} (h : Spaced writes xs bytes) :
    Passage s bytes (xs.flatMap yields) s := by
  induction h with
  | nil blank => exact passage_gap blank
  | cons blank first more ih =>
      rw [List.flatMap_cons]
      have htail := (each _ _ first).append silent ih
      exact (passage_gap blank).append silent htail

/-! ## Findings -/

/-- The line of a finding is read back. -/
theorem parseLine_toString {n : Nat} (hpos : 0 < n) (hle : n ≤ Text.maxWord32) :
    parseLine (toString n) = some n := by
  have hdigits : (toString n).toList = Nat.toDigits 10 n := by
    rw [Nat.toString_eq_repr, Nat.toList_repr]
  rw [parseLine, hdigits, Text.trim_toDigits, Text.bounded?_toDigits hle]
  simp [hpos]

private theorem attribute?_line {tag : WrittenTag} {name : String} (hname : Lettered name)
    {line : Option Nat} (h : CarriesLine tag line)
    (bound : ∀ n ∈ line, 0 < n ∧ n ≤ Text.maxWord32) :
    ∃ value, (Tag.ofContent (tag.content (Utf8.ofString name))).attribute? "lineNumber" =
      .ok value ∧ value.bind parseLine = line := by
  cases line with
  | none => exact ⟨none, tag.attribute?_eq_none hname.tagName h, rfl⟩
  | some n =>
      obtain ⟨hpos, hle⟩ := bound n rfl
      have hparse : (some (toString n)).bind parseLine = some n := by
        rw [Option.bind_some, parseLine_toString hpos hle]
      exact ⟨some (toString n), tag.attribute?_eq_some hname.tagName h, hparse⟩

/-- The message of a violation is what stands in it. -/
theorem passage_message (tag : WrittenTag) {opened : List String} {scope : Scope}
    {p : Pending} {message : List Char} (hopened : opened ≠ [])
    (hpending : scope.pending = some p)
    (first : ∀ c, message.head? = some c → Text.isBlank c = false)
    (last : ∀ c, message.getLast? = some c → Text.isBlank c = false) :
    Passage ⟨scope, opened, true⟩
      (written "Message" tag (Utf8.encode (Xml.escape message))) []
      ⟨{ scope with
          pending := some { p with message := p.message ++ message }, inMessage := false },
        opened, true⟩ := by
  let raw := Utf8.encode (Xml.escape message)
  let tag' := Tag.ofContent (tag.content (Utf8.ofString "Message"))
  have henter : scope.enter "Message" tag' = .ok { scope with inMessage := true } := by
    simp [Scope.enter, Element.ofName?, Scope.enterElement, hpending, pure, Except.pure]
  have htext : Xml.textOf raw = .ok message := Xml.textOf_encode_escape message
  have hinner : run ⟨{ scope with inMessage := true }, "Message" :: opened, true⟩
      ([] ++ Xml.textEvents raw) =
        ([], .ok ⟨{ scope with
            pending := some { p with message := p.message ++ message }, inMessage := true },
          "Message" :: opened, true⟩) := by
    rw [List.nil_append, Xml.textEvents_encode_escape first last]
    split
    · next hempty =>
        -- an empty message yields no text
        have hnil : message = [] := by
          have hblank : Xml.textOf [] = .ok [] := Xml.textOf_encode_escape []
          have hraw : raw = [] := hempty
          rw [hraw, hblank] at htext
          exact (Except.ok.inj htext).symm
        simp [run, hnil, ← hpending]
    · have hstep : step ⟨{ scope with inMessage := true }, "Message" :: opened, true⟩
          (.text raw) =
            .ok (⟨{ scope with
                pending := some { p with message := p.message ++ message },
                inMessage := true }, "Message" :: opened, true⟩, none) := by
        simp only [step, htext, Scope.text, hpending]
      exact run_cons hstep
  have hleave : Scope.leave { scope with
        pending := some { p with message := p.message ++ message }, inMessage := true }
      "Message" =
        ({ scope with
          pending := some { p with message := p.message ++ message }, inMessage := false },
          none) := by
    simp [Scope.leave, Element.ofName?]
  have hstart : step ⟨scope, opened, true⟩ (.start tag') =
      .ok (⟨{ scope with inMessage := true }, "Message" :: opened, true⟩, none) :=
    step_written lettered_message tag (.inl hopened) henter
  have helement := Passage.of_element (tag.opens lettered_message.tagName) .nil
    (Xml.bracket_not_mem_encode_escape message) hstart hinner (step_close_written hleave)
  rwa [Option.toList_none, List.append_nil] at helement

/-- A violation says in a file what was written. -/
theorem Finding.passage {f : Finding} {bytes : List UInt8} (h : f.WrittenAs bytes)
    {opened : List String} (hopened : opened ≠ []) (package file : String) :
    Passage ⟨{ package, file := some file }, opened, true⟩ bytes
      [.violation (f.violation file)] ⟨{ package, file := some file }, opened, true⟩ := by
  obtain ⟨tag, messageTag, gap, gap', hrule, hline, hgap, hgap', rfl⟩ := h
  let tag' := Tag.ofContent (tag.content (Utf8.ofString "Violation"))
  let before : Scope := { package, file := some file }
  let started : Pending := ⟨some f.rule, f.line, []⟩
  let finished : Pending := ⟨some f.rule, f.line, [] ++ f.message.toList⟩
  have hruleValue : tag'.attribute? "ruleName" = .ok (some f.rule) :=
    tag.attribute?_eq_some lettered_violation.tagName hrule
  obtain ⟨line, hlineValue, hlineEq⟩ : ∃ line, tag'.attribute? "lineNumber" = .ok line ∧
      line.bind parseLine = f.line :=
    attribute?_line lettered_violation hline f.line_bound
  have henter : before.enter "Violation" tag' =
      .ok { before with pending := some started } := by
    have hink : (some f.rule).filter (fun key => !Text.isBlankText key) = some f.rule := by
      simp [f.rule_ink]
    simp [Scope.enter, Element.ofName?, Scope.enterElement, hruleValue, hlineValue, hlineEq,
      hink, started, bind, Except.bind, pure, Except.pure]
  have hpending : ({ before with pending := some started } : Scope).pending =
      some started := rfl
  have hmessage := passage_message messageTag (List.cons_ne_nil "Violation" opened) hpending
    f.message_first f.message_last
  have hbody := (passage_gap hgap).append (Scope.silent_of_not_inMessage rfl)
    (hmessage.append (Scope.silent_of_not_inMessage rfl) (passage_gap hgap'))
  have hleave : ({ before with pending := some finished } : Scope).leave "Violation" =
      (before, some (.violation (f.violation file))) := by
    have htrim : Text.trim f.message.toList = f.message.toList :=
      Text.trim_eq_self f.message_first f.message_last
    simp [Scope.leave, Element.ofName?, Scope.finish, htrim, Finding.violation, before,
      finished]
  exact Passage.written lettered_violation tag (.inl hopened) henter hbody
    (Scope.silent_of_not_inMessage rfl) hleave

/-- A file says in a package what was written. -/
theorem FileFindings.passage {f : FileFindings} {bytes : List UInt8}
    (h : f.WrittenAs bytes) {opened : List String} (hopened : opened ≠ []) (path : String) :
    Passage ⟨{ package := path }, opened, true⟩ bytes
      ((f.violations path).map .violation) ⟨{ package := path }, opened, true⟩ := by
  obtain ⟨tag, body, hname, hbody, rfl⟩ := h
  let tag' := Tag.ofContent (tag.content (Utf8.ofString "File"))
  let file := joinPackage path f.name
  let inside : State := ⟨{ package := path, file := some file }, "File" :: opened, true⟩
  have hnameValue : tag'.attribute? "name" = .ok (some f.name) :=
    tag.attribute?_eq_some lettered_file.tagName hname
  have henter : Scope.enter { package := path } "File" tag' = .ok inside.scope := by
    simp [Scope.enter, Element.ofName?, Scope.enterElement, hnameValue, inside, file, bind,
      Except.bind, pure, Except.pure]
  have silent : inside.scope.Silent := Scope.silent_of_no_pending rfl
  have each : ∀ (v : Finding) (bytes : List UInt8), v.WrittenAs bytes →
      Passage inside bytes [.violation (v.violation file)] inside := by
    intro v bytes hv
    exact Finding.passage hv (List.cons_ne_nil "File" opened) path file
  have hinside := hbody.passage silent each
  have hleave : inside.scope.leave "File" = ({ package := path }, none) := by
    simp [Scope.leave, Element.ofName?, inside]
  have hroot : opened ≠ [] ∨ true = false := .inl hopened
  have helement := Passage.written lettered_file tag hroot henter hinside silent
    hleave
  have hitems : (f.violations path).map Item.violation =
      f.findings.flatMap (fun v => [Item.violation (v.violation file)]) ++ [] := by
    rw [violations, List.map_map, List.append_nil, List.map_eq_flatMap]
    rfl
  rw [hitems]
  exact helement

/-- A package says what was written. -/
theorem PackageFindings.passage {p : PackageFindings} {bytes : List UInt8}
    (h : p.WrittenAs bytes) {opened : List String} (hopened : opened ≠ []) :
    Passage ⟨{}, opened, true⟩ bytes (p.violations.map .violation) ⟨{}, opened, true⟩ := by
  obtain ⟨tag, body, hpath, hbody, rfl⟩ := h
  let tag' := Tag.ofContent (tag.content (Utf8.ofString "Package"))
  let inside : State := ⟨{ package := p.path }, "Package" :: opened, true⟩
  have hpathValue : tag'.attribute? "path" = .ok (some p.path) :=
    tag.attribute?_eq_some lettered_package.tagName hpath
  have henter : Scope.enter {} "Package" tag' = .ok inside.scope := by
    simp [Scope.enter, Element.ofName?, Scope.enterElement, hpathValue, inside, bind,
      Except.bind, pure, Except.pure]
  have silent : inside.scope.Silent := Scope.silent_of_no_pending rfl
  have each : ∀ (f : FileFindings) (bytes : List UInt8), f.WrittenAs bytes →
      Passage inside bytes ((f.violations p.path).map .violation) inside := by
    intro f bytes hf
    exact FileFindings.passage hf (List.cons_ne_nil "Package" opened) p.path
  have hinside := hbody.passage silent each
  have hleave : inside.scope.leave "Package" = ({}, none) := by
    simp [Scope.leave, Element.ofName?, inside]
  have hroot : opened ≠ [] ∨ true = false := .inl hopened
  have helement := Passage.written lettered_package tag hroot henter hinside
    silent hleave
  rw [Option.toList_none, List.append_nil, ← List.map_flatMap] at helement
  exact helement

/-! ## Every report can be written -/

/-- An attribute of any value. -/
def attributeOf {key : String} (hkey : Lettered key) (value : String) : WrittenAttribute :=
  .ofValue (Utf8.ofString key) value.toList hkey.ofString_ne_nil hkey.key_plain

/-- A tag with one attribute. -/
def tagOf {key : String} (hkey : Lettered key) (value : String) : WrittenTag :=
  ⟨[attributeOf hkey value], [], List.nodup_singleton _, Xml.Blank.nil⟩

private theorem carries_attributeOf {tag : WrittenTag} {key value : String}
    {hkey : Lettered key} (h : attributeOf hkey value ∈ tag.attributes) :
    tag.Carries key value :=
  ⟨_, h, rfl, rfl⟩

private theorem carries_tagOf {key : String} (hkey : Lettered key) (value : String) :
    (tagOf hkey value).Carries key value :=
  carries_attributeOf List.mem_cons_self

private theorem gap_nil : Gap [] := ⟨[], rfl, by simp⟩

private theorem exists_spaced {α : Type} {writes : α → List UInt8 → Prop} (xs : List α)
    (h : ∀ x, ∃ bytes, writes x bytes) : ∃ bytes, Spaced writes xs bytes := by
  induction xs with
  | nil => exact ⟨[], .nil gap_nil⟩
  | cons x xs ih =>
      obtain ⟨bytes, hx⟩ := h x
      obtain ⟨rest, hrest⟩ := ih
      exact ⟨_, .cons gap_nil hx hrest⟩

private theorem ruleName_ne_lineNumber :
    Utf8.ofString "ruleName" ≠ Utf8.ofString "lineNumber" := by
  intro h
  exact absurd (Utf8.ofString_injective h) (by decide)

private theorem exists_violationTag (rule : String) (line : Option Nat) :
    ∃ tag : WrittenTag, tag.Carries "ruleName" rule ∧ CarriesLine tag line := by
  cases line with
  | none =>
      refine ⟨tagOf lettered_ruleName rule, carries_tagOf lettered_ruleName rule, ?_⟩
      intro a ha
      obtain rfl := List.mem_singleton.1 ha
      exact ruleName_ne_lineNumber
  | some n =>
      let first := attributeOf lettered_ruleName rule
      let second := attributeOf lettered_lineNumber (toString n)
      have distinct : ([first, second].map (·.key)).Nodup := by
        show [Utf8.ofString "ruleName", Utf8.ofString "lineNumber"].Nodup
        simpa using ruleName_ne_lineNumber
      refine ⟨⟨[first, second], [], distinct, Xml.Blank.nil⟩, ?_, ?_⟩
      · exact carries_attributeOf (List.mem_cons_self : first ∈ [first, second])
      · exact carries_attributeOf (List.mem_cons_of_mem first List.mem_cons_self)

theorem Finding.exists_writtenAs (f : Finding) : ∃ bytes, f.WrittenAs bytes := by
  obtain ⟨tag, hrule, hline⟩ := exists_violationTag f.rule f.line
  exact ⟨_, tag, .bare, [], [], hrule, hline, gap_nil, gap_nil, rfl⟩

theorem FileFindings.exists_writtenAs (f : FileFindings) : ∃ bytes, f.WrittenAs bytes := by
  obtain ⟨body, hbody⟩ := exists_spaced f.findings Finding.exists_writtenAs
  exact ⟨_, tagOf lettered_name f.name, body, carries_tagOf _ _, hbody, rfl⟩

theorem PackageFindings.exists_writtenAs (p : PackageFindings) :
    ∃ bytes, p.WrittenAs bytes := by
  obtain ⟨body, hbody⟩ := exists_spaced p.files FileFindings.exists_writtenAs
  exact ⟨_, tagOf lettered_path p.path, body, carries_tagOf _ _, hbody, rfl⟩

/-- Every report can be written. -/
theorem exists_writtenReport (packages : List PackageFindings) :
    ∃ doc, WrittenReport packages doc := by
  obtain ⟨body, hbody⟩ := exists_spaced packages PackageFindings.exists_writtenAs
  exact ⟨_, .bare, body, hbody, rfl⟩

/-! ## Reports -/

theorem violation?_map (vs : List Violation) :
    (vs.map Item.violation).filterMap Item.violation? = vs ∧
      (vs.map Item.violation).filterMap Item.warning? = [] := by
  induction vs with
  | nil => exact ⟨rfl, rfl⟩
  | cons v vs ih =>
      constructor
      · simp [Item.violation?, ih.1]
      · exact ih.2

/-- **A written report is read back.** -/
theorem readBytes_of_written {packages : List PackageFindings} {doc : List UInt8}
    (h : WrittenReport packages doc) :
    (readBytes doc).violations = .ok (packages.flatMap PackageFindings.violations) ∧
      (readBytes doc).warnings = [] := by
  obtain ⟨tag, body, hbody, rfl⟩ := h
  have silent : inRoot.scope.Silent := Scope.silent_of_no_pending rfl
  have each : ∀ (p : PackageFindings) (bytes : List UInt8), p.WrittenAs bytes →
      Passage inRoot bytes (p.violations.map .violation) inRoot := by
    intro p bytes hp
    exact PackageFindings.passage hp (List.cons_ne_nil "CodeNarc" [])
  have hread := (hbody.passage silent each).readBytes_root tag
  rw [← List.map_flatMap] at hread
  rw [hread, Reading.violations_eq_ok_iff, Reading.warnings]
  have hitems := violation?_map (packages.flatMap PackageFindings.violations)
  exact ⟨⟨rfl, hitems.1.symm⟩, hitems.2⟩

/-- A finding with special characters in it. -/
def sampleFinding : Finding where
  rule := "E&"
  line := some 7
  message := "m > n"
  rule_ink := by decide
  line_bound := by simp [Text.maxWord32]
  message_first := by
    intro c hc
    obtain rfl : 'm' = c := by simpa using hc
    decide
  message_last := by
    intro c hc
    obtain rfl : 'n' = c := by simpa using hc
    decide

private theorem lettered_id : Lettered "id" := by decide

/-- An attribute in single quotes that nobody asks for. -/
def sampleAttribute : WrittenAttribute where
  lead := [0x0A, 0x20]
  key := Utf8.ofString "id"
  beforeEquals := [0x20]
  afterEquals := [0x09]
  quote := 0x27
  raw := Utf8.ofString "1>"
  lead_ne := by decide
  lead_blank := by simp [Xml.Blank, Xml.isSpace]
  key_ne := lettered_id.ofString_ne_nil
  key_plain := lettered_id.key_plain
  beforeEquals_blank := Xml.Blank.space
  afterEquals_blank := by simp [Xml.Blank, Xml.isSpace]
  quote_eq := .inr rfl
  raw_closed := by decide

/-- The line comes first. -/
def sampleViolationTag : WrittenTag where
  attributes :=
    [attributeOf lettered_lineNumber (toString 7), attributeOf lettered_ruleName "E&"]
  trail := []
  distinct := by
    show [Utf8.ofString "lineNumber", Utf8.ofString "ruleName"].Nodup
    simpa using ruleName_ne_lineNumber.symm
  trail_blank := Xml.Blank.nil

/-- There is an attribute more than is asked for. -/
def sampleFileTag : WrittenTag where
  attributes := [attributeOf lettered_name "A", sampleAttribute]
  trail := [0x20]
  distinct := by
    show [Utf8.ofString "name", Utf8.ofString "id"].Nodup
    decide
  trail_blank := Xml.Blank.space

theorem readBytes_of_written_sample :
    let packages : List PackageFindings := [⟨"a/", [⟨"A", [sampleFinding]⟩]⟩]
    let start := Utf8.ofString "<CodeNarc><Package path=\"a/\"> <File name=\"A\"\n id =\t'1>' >"
    let inner := Utf8.ofString "<Violation lineNumber=\"7\" ruleName=\"E&amp;\">"
    let stop := Utf8.ofString "</Message></Violation></File></Package></CodeNarc>"
    let doc := start ++ (inner ++ (Utf8.ofString "<Message>m &gt; n" ++ stop))
    WrittenReport packages doc ∧
      (readBytes doc).violations = .ok [⟨"E&", "a/A", some 7, "m > n"⟩] ∧
      (readBytes doc).warnings = [] := by
  intro packages start inner stop doc
  have hgap : Gap [0x20] := ⟨[' '], rfl, by simp [Text.isBlank]⟩
  have hline : sampleViolationTag.Carries "lineNumber" (toString 7) :=
    carries_attributeOf List.mem_cons_self
  have hrule : sampleViolationTag.Carries "ruleName" "E&" :=
    carries_attributeOf (List.mem_cons_of_mem _ List.mem_cons_self)
  have hname : sampleFileTag.Carries "name" "A" := carries_attributeOf List.mem_cons_self
  have hfinding : sampleFinding.WrittenAs _ :=
    ⟨sampleViolationTag, .bare, [], [], hrule, hline, gap_nil, gap_nil, rfl⟩
  have hfile : FileFindings.WrittenAs ⟨"A", [sampleFinding]⟩ _ :=
    ⟨sampleFileTag, _, hname, .cons gap_nil hfinding (.nil gap_nil), rfl⟩
  have hpackage : PackageFindings.WrittenAs ⟨"a/", [⟨"A", [sampleFinding]⟩]⟩ _ :=
    ⟨tagOf lettered_path "a/", _, carries_tagOf _ _, .cons hgap hfile (.nil gap_nil), rfl⟩
  have hreport : WrittenReport packages doc := by
    refine ⟨.bare, _, .cons gap_nil hpackage (.nil gap_nil), ?_⟩
    decide +kernel
  obtain ⟨hviolations, hwarnings⟩ := readBytes_of_written hreport
  refine ⟨hreport, hviolations.trans ?_, hwarnings⟩
  decide +kernel

end GroovyFindings.Report
