import Mathlib
import GroovyFindings.Analysis.Basic
import GroovyFindings.Proofs.Disk.Kind
import GroovyFindings.Proofs.Report.Truncation

/-!
# Reports that cannot be read

A report can fail to be opened, fail to be read once it is open, and fail to be a
report once it is read.  Whether a report that is not there counts as an empty one
is decided where it is opened; everything behind that point is the business of the
reader of documents, a byte that cannot be read included.

Up to such a byte a document is read as any document is that goes on from there.
So either the reader meets that byte and says so, or it has found a fault before
it that no further bytes would have mended.

## Main definitions

* `continued` — what a token and its rest are in a longer document.
* `EndsReading` — what is wrong with a document that cannot be read to its end.
* `outcome` — what becomes of a report, by what opening it gave.

## Main results

* `Token.next_fault`, `eventsFrom_fault` — reading up to a byte that cannot be read.
* `exists_error_of_fault` — a document that cannot be read to its end is no report.
* `outcome_by_opening` — which failure is given, and when there is none.
* `readReport_of_isDir` — a directory where the report is looked for.
-/

namespace GroovyFindings.Xml

variable {f : Disk.Fault}

/-! ## Tokens before a fault -/

/-- The same token, with more behind the bytes that are left. -/
def continued (more : List UInt8) (p : Token × List UInt8) : Token × List UInt8 :=
  (p.1, p.2 ++ more)

namespace Token

section Fault

variable (whole whole' bytes more : List UInt8)

theorem upToBracket_fault :
    upToBracket ⟨whole, some f⟩ bytes = .error (.unreadable f) ∨
      ∃ content rest, upToBracket ⟨whole, some f⟩ bytes = .ok (content, rest) ∧
        upToBracket ⟨whole', none⟩ (bytes ++ more) = .ok (content, rest ++ more) := by
  by_cases hclosed : 0x3E ∈ bytes
  · obtain ⟨content, rest, rfl, hcontent⟩ := List.eq_append_cons_of_mem hclosed
    right
    refine ⟨content, rest, upToBracket_append _ hcontent rest, ?_⟩
    rw [List.append_assoc, List.cons_append]
    exact upToBracket_append _ hcontent (rest ++ more)
  · left
    have hend : bytes.dropWhile (· != 0x3E) = [] := by
      rw [List.dropWhile_eq_nil_iff]
      intro b hb
      simp only [bne_iff_ne, ne_eq]
      rintro rfl
      exact hclosed hb
    rw [upToBracket, hend]
    rfl

theorem bangWith_fault (construct : Construct) (done : List UInt8 → Bool)
    (ofContent : List UInt8 → Except Error Token) :
    bangWith ⟨whole, some f⟩ construct done ofContent bytes = .error (.unreadable f) ∨
      bangWith ⟨whole', none⟩ construct done ofContent (bytes ++ more) =
        (bangWith ⟨whole, some f⟩ construct done ofContent bytes).map (continued more) := by
  cases hsplit : splitBang done [] bytes with
  | none =>
      left
      simp only [bangWith, hsplit]
      rfl
  | some p =>
      obtain ⟨content, rest⟩ := p
      obtain ⟨_, rfl, rfl, first⟩ := eq_append_of_splitBang hsplit
      have hlonger := splitBang_append first (rest ++ more)
      right
      rw [List.reverse_nil, List.nil_append] at hlonger
      simp only [bangWith, hsplit, List.append_assoc, List.cons_append, hlonger]
      cases ofContent _ <;> rfl

theorem bang_fault :
    bang ⟨whole, some f⟩ bytes = .error (.unreadable f) ∨
      bang ⟨whole', none⟩ (bytes ++ more) =
        (bang ⟨whole, some f⟩ bytes).map (continued more) := by
  cases bytes with
  | nil => exact .inl rfl
  | cons b rest =>
      simp only [bang, List.cons_append]
      split
      · exact bangWith_fault _ _ (b :: rest) _ _ _ _
      split
      · exact bangWith_fault _ _ (b :: rest) _ _ _ _
      split
      · exact bangWith_fault _ _ (b :: rest) _ _ _ _
      · exact .inr rfl

theorem markup_fault :
    markup ⟨whole, some f⟩ bytes = .error (.unreadable f) ∨
      markup ⟨whole', none⟩ (bytes ++ more) =
        (markup ⟨whole, some f⟩ bytes).map (Option.map (continued more)) := by
  cases bytes with
  | nil => exact .inl rfl
  | cons b rest =>
      simp only [markup, List.cons_append]
      split
      · rcases bang_fault (f := f) whole whole' rest more with hfault | hsame
        · exact .inl (by rw [hfault]; rfl)
        · right
          rw [hsame]
          cases bang ⟨whole, some f⟩ rest <;> rfl
      split
      · rcases upToBracket_fault (f := f) whole whole' rest more with
          hfault | ⟨content, left, hread, hmore⟩
        · exact .inl (by rw [hfault])
        · exact .inr (by rw [hread, hmore]; rfl)
      split
      · rcases upToBracket_fault (f := f) whole whole' rest more with
          hfault | ⟨content, left, hread, hmore⟩
        · exact .inl (by rw [hfault])
        · right
          rw [hread, hmore]
          simp only
          cases ofInstruction content <;> rfl
      · rcases hsplit : splitTag none (b :: rest) with ⟨content, _ | left⟩
        · exact .inl rfl
        · obtain ⟨hbytes, closed⟩ := eq_append_of_splitTag hsplit
          have hmore : splitTag none (b :: (rest ++ more)) = (content, some (left ++ more)) := by
            rw [← List.cons_append, hbytes, List.append_assoc]
            exact splitTag_append closed (left ++ more)
          exact .inr (by rw [hmore]; rfl)

end Fault

/-- A byte that cannot be read is met, or the token ends before it. -/
theorem next_fault (bytes more : List UInt8) :
    next ⟨bytes, some f⟩ = .error (.unreadable f) ∨
      next ⟨bytes ++ more, none⟩ = (next ⟨bytes, some f⟩).map (Option.map (continued more)) := by
  cases hink : bytes.dropWhile isSpace with
  | nil =>
      left
      simp only [next, hink]
      rfl
  | cons b rest =>
      have hlonger : (bytes ++ more).dropWhile isSpace = b :: (rest ++ more) := by
        rw [List.dropWhile_append, hink]
        rfl
      by_cases hb : b = 0x3C
      · simp only [next, hink, hlonger, if_pos hb]
        exact markup_fault bytes (bytes ++ more) rest more
      · simp only [next, hink, hlonger, if_neg hb]
        cases hbehind : (b :: rest).dropWhile (· != 0x3C) with
        | nil => exact .inl rfl
        | cons c left =>
            have hdrop : (b :: (rest ++ more)).dropWhile (· != 0x3C) = c :: (left ++ more) := by
              rw [← List.cons_append, List.dropWhile_append, hbehind]
              rfl
            have hshorter : ((b :: rest).takeWhile (· != 0x3C)).length ≠ (b :: rest).length := by
              intro hall
              have hsplit := congrArg List.length
                ((b :: rest).takeWhile_append_dropWhile (p := (· != 0x3C)))
              rw [List.length_append, hbehind, List.length_cons, hall] at hsplit
              omega
            have htake : (b :: (rest ++ more)).takeWhile (· != 0x3C) =
                (b :: rest).takeWhile (· != 0x3C) := by
              rw [← List.cons_append, List.takeWhile_append, if_neg hshorter]
            right
            simp only [hdrop, htake]
            rfl

/-- A document does not end before the byte that cannot be read. -/
theorem next_fault_ne_end (bytes : List UInt8) : next ⟨bytes, some f⟩ ≠ .ok none := by
  intro hend
  unfold next at hend
  split at hend
  · cases hend
  split at hend
  · unfold markup at hend
    split at hend
    · cases hend
    split at hend
    · next rest _ _ =>
        cases hbang : bang ⟨bytes, some f⟩ rest with
        | error e => rw [hbang] at hend; cases hend
        | ok p => rw [hbang] at hend; cases hend
    split at hend
    · split at hend <;> cases hend
    split at hend
    · split at hend
      · split at hend <;> cases hend
      · cases hend
    · split at hend <;> cases hend
  · simp only at hend
    split at hend <;> cases hend

end Token

/-- In text without markup the byte that cannot be read is met. -/
theorem Token.next_fault_of_text {text : List UInt8} (plain : 0x3C ∉ text) :
    next ⟨text, some f⟩ = .error (.unreadable f) := by
  have hink : ∀ b ∈ text.dropWhile isSpace, (b != 0x3C) = true := by
    intro b hb
    simp only [bne_iff_ne, ne_eq]
    rintro rfl
    exact plain ((List.dropWhile_suffix _).subset hb)
  cases hskip : text.dropWhile isSpace with
  | nil =>
      simp only [next, hskip]
      rfl
  | cons b ink =>
      rw [hskip] at hink
      have hend := List.dropWhile_eq_nil_iff.2 hink
      have hb : b ≠ 0x3C := by simpa using hink b (by simp)
      simp only [next, hskip, if_neg hb, hend]
      rfl

/-! ## Documents before a fault -/

/-- Up to a byte that cannot be read, a document is read as one that goes on from
there; unless that byte is met, nothing that goes on makes a difference. -/
theorem eventsFrom_fault (opened : List (List UInt8)) (bytes : List UInt8) :
    ∃ events e, eventsFrom (some f) opened bytes = (events, some e) ∧
      ((e = .unreadable f ∧ ∀ more, ∃ left : List Event × Option Error,
          eventsFrom none opened (bytes ++ more) = (events ++ left.1, left.2)) ∨
        ∀ more, eventsFrom none opened (bytes ++ more) = (events, some e)) := by
  induction hn : bytes.length using Nat.strongRecOn generalizing opened bytes with
  | _ n ih =>
      by_cases hmet : Token.next ⟨bytes, some f⟩ = .error (.unreadable f)
      · refine ⟨[], .unreadable f, eventsFrom_of_error hmet, .inl ⟨rfl, fun more => ?_⟩⟩
        exact ⟨eventsFrom none opened (bytes ++ more), rfl⟩
      · have hsame := fun more => (Token.next_fault (f := f) bytes more).resolve_left hmet
        cases hnext : Token.next ⟨bytes, some f⟩ with
        | error e =>
            refine ⟨[], e, eventsFrom_of_error hnext, .inr fun more => ?_⟩
            exact eventsFrom_of_error (by rw [hsame more, hnext]; rfl)
        | ok token? =>
            obtain _ | ⟨token, rest⟩ := token?
            · exact absurd hnext (Token.next_fault_ne_end bytes)
            have hmore (more : List UInt8) :
                Token.next ⟨bytes ++ more, none⟩ = .ok (some (token, rest ++ more)) := by
              rw [hsame more, hnext]
              rfl
            rw [eventsFrom_of_token hnext]
            cases taken : Event.ofToken opened token with
            | error e =>
                refine ⟨[], e, rfl, .inr fun more => ?_⟩
                rw [eventsFrom_of_token (hmore more), taken]
            | ok p =>
                obtain ⟨event, opened'⟩ := p
                have hlt : rest.length < n := hn ▸ Token.next_length_lt hnext
                obtain ⟨events, e, hfault, hrest⟩ := ih rest.length hlt opened' rest rfl
                refine ⟨event.toList ++ events, e, by simp only [hfault], ?_⟩
                rcases hrest with ⟨he, hleft⟩ | hsame
                · refine .inl ⟨he, fun more => ?_⟩
                  obtain ⟨left, hread⟩ := hleft more
                  refine ⟨left, ?_⟩
                  rw [eventsFrom_of_token (hmore more), taken]
                  simp only [hread, List.append_assoc]
                · refine .inr fun more => ?_
                  rw [eventsFrom_of_token (hmore more), taken]
                  simp only [hsame more]

end GroovyFindings.Xml

namespace GroovyFindings.Report

variable {f : Disk.Fault}

/-! ## Reports -/

/-- The error is that the byte behind `bytes` cannot be read, or one that no bytes
in its place would have mended. -/
def EndsReading (bytes : List UInt8) (f : Disk.Fault) (e : Error) : Prop :=
  e = .xml (.unreadable f) ∨ ∀ more, (readBytes (bytes ++ more)).violations = .error e

/-- A document that cannot be read to its end is no report. -/
theorem exists_error_of_fault (bytes : List UInt8) (f : Disk.Fault) :
    ∃ e, (read ⟨bytes, some f⟩).error = some e ∧ EndsReading bytes f e := by
  have hreading : read ⟨bytes, some f⟩ =
      resume {} (Xml.eventsFrom (some f) [] (Xml.withoutMark bytes)) := rfl
  rw [hreading]
  by_cases hplain : 0x3C ∈ Xml.withoutMark bytes
  · obtain ⟨events, e, hfault, hwhole⟩ :=
      Xml.eventsFrom_fault (f := f) [] (Xml.withoutMark bytes)
    have hmore (more : List UInt8) : readBytes (bytes ++ more) =
        resume {} (Xml.eventsFrom none [] (Xml.withoutMark bytes ++ more)) := by
      rw [readBytes_eq_resume, withoutMark_append hplain]
    rw [hfault]
    rcases hwhole with ⟨rfl, hleft⟩ | hsame
    · rcases hrun : run {} events with ⟨items, e | s⟩
      -- What has been read has a fault of its own already.
      · refine ⟨e, by simp only [resume, hrun], .inr fun more => ?_⟩
        obtain ⟨left, hread⟩ := hleft more
        rw [Reading.violations_eq_error_iff, hmore, hread, resume, run_append, hrun]
      · exact ⟨.xml (.unreadable f), by simp only [resume, hrun], .inl rfl⟩
    · rcases herror : (resume {} (events, some e)).error with _ | e'
      · cases (resume_eq_of_error_none herror).choose_spec.2.1
      · refine ⟨e', rfl, .inr fun more => ?_⟩
        rw [Reading.violations_eq_error_iff, hmore, hsame more, herror]
  · rw [Xml.eventsFrom_of_error (Xml.Token.next_fault_of_text hplain)]
    exact ⟨_, rfl, .inl rfl⟩

/-- What becomes of the report at `path`, by what opening it gave. -/
def outcome (path : Path) (opening : Except Disk.Fault Xml.Input) :
    Except Failure (List Violation) :=
  match readOpened opening with
  | .error f => .error (.file path f)
  | .ok r => r.violations.mapError (.report path)

theorem readReport_eq_outcome (d : Disk) (path : Path) :
    (Analysis.readReport d path).2 = outcome path (openReport d path) := by
  unfold Analysis.readReport outcome
  cases readOpened (openReport d path) <;> rfl

theorem outcome_of_missing (path : Path) : outcome path (.error .missing) = .ok [] := rfl

theorem outcome_of_unopened (path : Path) (other : f ≠ .missing) :
    outcome path (.error f) = .error (.file path f) := by
  cases f with
  | missing => exact absurd rfl other
  | _ => rfl

theorem outcome_of_ok {path : Path} {bytes : List UInt8} {vs : List Violation}
    (accepted : (readBytes bytes).violations = .ok vs) :
    outcome path (.ok ⟨bytes, none⟩) = .ok vs := by
  show (readBytes bytes).violations.mapError (Failure.report path) = _
  rw [accepted]
  rfl

theorem outcome_of_error {path : Path} {input : Xml.Input} {e : Error}
    (refused : (read input).error = some e) :
    outcome path (.ok input) = .error (.report path e) := by
  show (read input).violations.mapError (Failure.report path) = _
  rw [Reading.violations_eq_error_iff.2 refused]
  rfl

theorem outcome_eq_ok_iff {path : Path} {opening : Except Disk.Fault Xml.Input}
    {vs : List Violation} :
    outcome path opening = .ok vs ↔
      (opening = .error .missing ∧ vs = []) ∨
        ∃ bytes, opening = .ok ⟨bytes, none⟩ ∧ (readBytes bytes).violations = .ok vs := by
  constructor
  · intro hok
    rcases opening with f | ⟨bytes, _ | f⟩
    · by_cases hf : f = .missing
      · subst hf
        rw [outcome_of_missing] at hok
        exact .inl ⟨rfl, (Except.ok.inj hok).symm⟩
      · rw [outcome_of_unopened path hf] at hok
        cases hok
    · cases hread : (readBytes bytes).violations with
      | ok ws =>
          rw [outcome_of_ok hread] at hok
          exact .inr ⟨bytes, rfl, hread.trans (congrArg _ (Except.ok.inj hok))⟩
      | error e =>
          rw [outcome_of_error (Reading.violations_eq_error_iff.1 hread)] at hok
          cases hok
    · obtain ⟨e, herror, -⟩ := exists_error_of_fault bytes f
      rw [outcome_of_error herror] at hok
      cases hok
  · rintro (⟨rfl, rfl⟩ | ⟨bytes, rfl, accepted⟩)
    · exact outcome_of_missing path
    · exact outcome_of_ok accepted

theorem outcome_eq_error_iff {path : Path} {opening : Except Disk.Fault Xml.Input}
    {failure : Failure} :
    outcome path opening = .error failure ↔
      (∃ f, f ≠ .missing ∧ opening = .error f ∧ failure = .file path f) ∨
        (∃ bytes e, opening = .ok ⟨bytes, none⟩ ∧
          (readBytes bytes).violations = .error e ∧ failure = .report path e) ∨
        ∃ bytes f e, opening = .ok ⟨bytes, some f⟩ ∧ (read ⟨bytes, some f⟩).error = some e ∧
          EndsReading bytes f e ∧ failure = .report path e := by
  constructor
  · intro hfailed
    rcases opening with f | ⟨bytes, _ | f⟩
    · by_cases hf : f = .missing
      · subst hf
        cases hfailed
      · rw [outcome_of_unopened path hf] at hfailed
        exact .inl ⟨f, hf, rfl, (Except.error.inj hfailed).symm⟩
    · cases hread : (readBytes bytes).violations with
      | ok ws =>
          rw [outcome_of_ok hread] at hfailed
          cases hfailed
      | error e =>
          rw [outcome_of_error (Reading.violations_eq_error_iff.1 hread)] at hfailed
          exact .inr (.inl ⟨bytes, e, rfl, hread, (Except.error.inj hfailed).symm⟩)
    · obtain ⟨e, herror, hends⟩ := exists_error_of_fault bytes f
      rw [outcome_of_error herror] at hfailed
      exact .inr (.inr ⟨bytes, f, e, rfl, herror, hends, (Except.error.inj hfailed).symm⟩)
  · rintro (⟨f, hf, rfl, rfl⟩ | ⟨bytes, e, rfl, refused, rfl⟩ |
      ⟨bytes, f, e, rfl, herror, -, rfl⟩)
    · exact outcome_of_unopened path hf
    · exact outcome_of_error (Reading.violations_eq_error_iff.1 refused)
    · exact outcome_of_error herror

/-- **Which failure a report ends in.** There are no violations, and no failure,
for a report that is not there; there are those of an accepted document that has
been read to its end.  The file is at fault if it is there and cannot be opened.
The document is at fault if it is read to its end and refused, and it is at fault
also if it cannot be read to its end. -/
theorem outcome_by_opening (path : Path) (opening : Except Disk.Fault Xml.Input) :
    (∀ vs, outcome path opening = .ok vs ↔
        (opening = .error .missing ∧ vs = []) ∨
          ∃ bytes, opening = .ok ⟨bytes, none⟩ ∧ (readBytes bytes).violations = .ok vs) ∧
      (∀ failure, outcome path opening = .error failure ↔
        (∃ f, f ≠ .missing ∧ opening = .error f ∧ failure = .file path f) ∨
          (∃ bytes e, opening = .ok ⟨bytes, none⟩ ∧
            (readBytes bytes).violations = .error e ∧ failure = .report path e) ∨
          ∃ bytes f e, opening = .ok ⟨bytes, some f⟩ ∧ (read ⟨bytes, some f⟩).error = some e ∧
            EndsReading bytes f e ∧ failure = .report path e) ∧
      (∀ bytes f, ∃ e, outcome path (.ok ⟨bytes, some f⟩) = .error (.report path e)) ∧
      ∀ d, (Analysis.readReport d path).2 = outcome path (openReport d path) := by
  refine ⟨fun _ => outcome_eq_ok_iff, fun _ => outcome_eq_error_iff, fun bytes f => ?_,
    fun d => readReport_eq_outcome d path⟩
  obtain ⟨e, herror, -⟩ := exists_error_of_fault bytes f
  exact ⟨e, outcome_of_error herror⟩

/-! ## A directory -/

/-- A directory can be opened, and no byte of it can be read. -/
theorem openReport_of_isDir {d : Disk} {path : Path} (isDir : d.isDir path = true) :
    openReport d path = .ok ⟨[], some .isDirectory⟩ := by
  obtain ⟨place, hresolve⟩ := Disk.resolve_of_isDir isDir
  have hopened : d.opened path = .ok .dir := by
    rw [Disk.opened, Disk.find, hresolve]
    rfl
  simp only [openReport, hopened, Disk.Node.content]

theorem readReport_of_isDir {d : Disk} {path : Path} (isDir : d.isDir path = true) :
    (Analysis.readReport d path).2 =
      .error (.report path (.xml (.unreadable .isDirectory))) := by
  have herror : (read ⟨[], some .isDirectory⟩).error =
      some (.xml (.unreadable .isDirectory)) := by
    decide +kernel
  rw [readReport_eq_outcome, openReport_of_isDir isDir, outcome_of_error herror]

/-- A disk with a directory where the report is looked for. -/
def directoryDisk : Disk := ⟨[([['d']], .dir)], []⟩

/-- What cannot be read is not told apart from what is malformed. -/
theorem readReport_directoryDisk :
    openReport directoryDisk (.ofString "d") = .ok ⟨[], some .isDirectory⟩ ∧
      (Analysis.readReport directoryDisk (.ofString "d")).2 =
        .error (.report (.ofString "d") (.xml (.unreadable .isDirectory))) ∧
      ∀ f, (Analysis.readReport directoryDisk (.ofString "d")).2 ≠
        .error (.file (.ofString "d") f) := by
  have isDir : directoryDisk.isDir (.ofString "d") = true := by cbv
  refine ⟨openReport_of_isDir isDir, readReport_of_isDir isDir, fun f => ?_⟩
  rw [readReport_of_isDir isDir]
  simp

end GroovyFindings.Report
