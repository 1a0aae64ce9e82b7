import Mathlib
import GroovyFindings.Program
import GroovyFindings.Proofs.Analysis.Course
import GroovyFindings.Proofs.Issue.Ledger
import GroovyFindings.Proofs.Rendering.Colour
import GroovyFindings.Proofs.Rendering.Json

/-!
# How the program ends

An analysis that has been asked for ends in one of two ways.  A stage fails, the
settings, the scan, the profile or the analysis itself, and the program complains
and prints nothing.  Or all of them succeed, and the program prints the result of
the one run that there was.  The issues that are printed, the counts below them
and the exit code are found in three places; the sink of the program takes every
issue that it is offered, and so they agree.  What is printed tells the issues and the
counts: JSON is read back to them, and for people they are its lines.

## Main definitions

* `Summary.Tallies` — counts that fit the issues.
* `Program.Begins`, `Program.Fails` — the stages succeed, or one of them fails.
* `Rendering.Conveys` — a text from which a result is known.
* `Program.Reports` — an ending that fits a run.

## Main results

* `Analysis.Course.tallies` — the counts of a run fit its issues.
* `Rendering.conveys_rendered` — what is printed tells the result.
* `Program.fails_or_begins` — there is no third way.
* `Program.run_agrees_with_its_ending` — the exit code, what is printed and the run
  agree.
-/

namespace GroovyFindings

variable {κ : Type}

/-! ## A sink that takes everything -/

/-- Counts that fit a list of issues: nothing else became of a violation than an
issue of the list, an unknown rule or an unknown file. -/
structure Summary.Tallies (s : Summary) (issues : List Issue) : Prop where
  unattached : s.unattached = 0
  issues : s.issues = issues.length
  violations : s.violations = s.issues + s.unknownRules + s.unknownFiles

theorem Summary.Tallies.nothing : Summary.Tallies {} [] := ⟨rfl, rfl, rfl⟩

theorem Sink.foldl_accept_all (taken issues : List Issue) :
    issues.foldl Sink.all.accept taken = taken ++ issues := by
  induction issues generalizing taken with
  | nil => exact (List.append_nil taken).symm
  | cons issue issues ih =>
      rw [List.foldl_cons, ih]
      show taken ++ [issue] ++ issues = taken ++ issue :: issues
      rw [List.append_assoc, List.singleton_append]

section All

variable {c : Catalog} {s t : List Issue} {entries : List (Entry (List Issue))}

/-- Nothing is declined by a sink that takes everything. -/
theorem Entry.Justified.emission_ne_unattached {e : Entry (List Issue)}
    (h : e.Justified c .all) : e.emission ≠ .unattached := by
  cases h with
  | unknownRule _ => simp
  | unknownFile _ _ => simp
  | unattached _ _ declined => exact absurd declined Bool.noConfusion
  | emitted _ _ _ => simp

theorem Ledger.count_unattached_all (h : Ledger c .all s entries t) :
    (entries.map (·.emission)).count .unattached = 0 := by
  rw [List.count_eq_zero]
  intro mem
  obtain ⟨e, he, unattached⟩ := List.mem_map.1 mem
  exact (h.justified e he).emission_ne_unattached unattached

/-- What such a sink ends up with are the issues of the account. -/
theorem Ledger.eq_issues_all (h : Ledger c .all [] entries t) :
    t = entries.filterMap (·.issue) := by
  rw [← h.foldl_accept_eq, Sink.foldl_accept_all, List.nil_append]

theorem Catalog.process_all_tallies (c : Catalog) (vs : List Report.Violation) :
    (c.process .all [] vs).2.Tallies (c.process .all [] vs).1 := by
  obtain ⟨entries, t, ledger, rfl⟩ := exists_ledger c .all [] vs
  have unattached := ledger.count_unattached_all
  have total := length_eq_counts (entries.map (·.emission))
  rw [List.length_map, unattached, Nat.add_zero] at total
  have length := ledger.length_issues
  rw [← ledger.eq_issues_all] at length
  rw [ledger.process_counted]
  exact ⟨unattached, length.symm, total⟩

end All

/-! ## The counts of a run -/

namespace Analysis

variable {a : Analysis} {linter : LinterRunner κ} {k : κ} {d : Disk} {outcome : Outcome}

theorem conclude_tallies {path : Path}
    (h : (a.conclude .all k d [] path).result = .ok outcome) :
    outcome.summary.Tallies (a.conclude .all k d [] path).sink := by
  unfold conclude at h ⊢
  split at h
  · cases h
  · next violations _ =>
    cases h
    exact a.catalog.process_all_tallies violations

/-- The counts of a run fit the issues that it has found. -/
theorem Course.tallies {calls : List Invocation} {r : Run κ (List Issue)}
    (h : a.Course linter .all k d [] calls r) (ok : r.result = .ok outcome) :
    outcome.summary.Tallies r.sink := by
  cases h with
  | skipped unwanted =>
      cases ok
      exact .nothing
  | told wanted configured => exact conclude_tallies ok
  | unprepared wanted fresh prepared => cases ok
  | failed wanted fresh prepared ended => cases ok
  | reported wanted fresh prepared ended => exact conclude_tallies ok

end Analysis

/-! ## What is printed -/

namespace Rendering

/-- A result is known from a text.  From JSON its account is recovered.  For people
there is a line for each issue and one for the counts; in colours this is what a
terminal shows, if no text of an issue has an escape character in it. -/
structure Conveys (output : String) (colours : Bool) (issues : List Issue) (outcome : Outcome)
    (printed : String) : Prop where
  account : output = "json" → ∃ members,
    Json.read? printed.toList = some (.object members) ∧
      Account.read? (.object members) = some (Account.of issues outcome)
  plain : output ≠ "json" → colours = false → printed = ofLines plainLine issues outcome
  coloured : output ≠ "json" → colours = true → (∀ i ∈ issues, Unescaped i) →
    Text.shown printed = ofLines iconLine issues outcome

theorem conveys_rendered (output : String) (colours : Bool) (issues : List Issue)
    (outcome : Outcome) :
    Conveys output colours issues outcome (rendered output colours issues outcome) where
  account := by
    rintro rfl
    exact ⟨_, read?_rendered colours issues outcome, Account.read?_json issues outcome⟩
  plain := by
    rintro forPeople rfl
    exact rendered_plain forPeople outcome
  coloured := by
    rintro forPeople rfl unescaped
    exact shown_rendered forPeople unescaped outcome

end Rendering

namespace Program

/-! ## The stages -/

/-- The settings are settled, the sources scanned and the profile loaded. -/
structure Begins (d : Disk) (o : Settings.Options) (settings : Settings.Effective)
    (files : List TrackedFile) (rules : List ActiveRule) : Prop where
  settled : Settings.resolve d o = .ok settings
  scanned : scan d settings.baseDir settings.mainDirs settings.testDirs settings.suffixes =
    .ok files
  loaded : Profile.load d settings.profile settings.profileConfigured = .ok rules

/-- The one run of an analysis: its issues are collected. -/
def collect (linter : List String → LinterRunner κ) (k : κ) (d : Disk)
    (settings : Settings.Effective) (files : List TrackedFile) (rules : List ActiveRule) :
    Analysis.Run κ (List Issue) :=
  (Analysis.ofProfile settings.plan rules files).run (linter settings.command) .all k d []

theorem collect_tallies {linter : List String → LinterRunner κ} {k : κ} {d : Disk}
    {settings : Settings.Effective} {files : List TrackedFile} {rules : List ActiveRule}
    {outcome : Outcome} (ok : (collect linter k d settings files rules).result = .ok outcome) :
    outcome.summary.Tallies (collect linter k d settings files rules).sink := by
  obtain ⟨calls, course⟩ := Analysis.exists_course
    (.ofProfile settings.plan rules files) (linter settings.command) .all k d []
  exact course.tallies ok

/-- The first stage that fails, and why. -/
inductive Fails (linter : List String → LinterRunner κ) (k : κ) (d : Disk)
    (o : Settings.Options) : Failure → Prop
  | settings {e : Settings.Error} (failed : Settings.resolve d o = .error e) :
      Fails linter k d o (.settings e)
  | scan {settings : Settings.Effective} {e : Scan.Error}
      (settled : Settings.resolve d o = .ok settings)
      (failed : scan d settings.baseDir settings.mainDirs settings.testDirs settings.suffixes =
        .error e) :
      Fails linter k d o (.scan e)
  | profile {settings : Settings.Effective} {files : List TrackedFile} {e : Profile.Error}
      (settled : Settings.resolve d o = .ok settings)
      (scanned : scan d settings.baseDir settings.mainDirs settings.testDirs settings.suffixes =
        .ok files)
      (failed : Profile.load d settings.profile settings.profileConfigured = .error e) :
      Fails linter k d o (.profile settings.profile e)
  | analysis {settings : Settings.Effective} {files : List TrackedFile}
      {rules : List ActiveRule} {e : Failure} (begins : Begins d o settings files rules)
      (failed : (collect linter k d settings files rules).result = .error e) :
      Fails linter k d o e

section Stages

variable {linter : List String → LinterRunner κ} {k : κ} {d : Disk} {o : Settings.Options}
  {settings : Settings.Effective} {files : List TrackedFile} {rules : List ActiveRule}
  {colours check : Bool}

/-- A stage fails, or all of them succeed. -/
theorem fails_or_begins (linter : List String → LinterRunner κ) (k : κ) (d : Disk)
    (o : Settings.Options) : (∃ e, Fails linter k d o e) ∨
      ∃ settings files rules outcome, Begins d o settings files rules ∧
        (collect linter k d settings files rules).result = .ok outcome := by
  cases settled : Settings.resolve d o with
  | error e => exact .inl ⟨_, .settings settled⟩
  | ok settings =>
    cases scanned : scan d settings.baseDir settings.mainDirs settings.testDirs
        settings.suffixes with
    | error e => exact .inl ⟨_, .scan settled scanned⟩
    | ok files =>
      cases loaded : Profile.load d settings.profile settings.profileConfigured with
      | error e => exact .inl ⟨_, .profile settled scanned loaded⟩
      | ok rules =>
        have begins : Begins d o settings files rules := ⟨settled, scanned, loaded⟩
        cases ended : (collect linter k d settings files rules).result with
        | error e => exact .inl ⟨_, .analysis begins ended⟩
        | ok outcome => exact .inr ⟨_, _, _, _, begins, ended⟩

/-- The stages before the analysis leave no choice. -/
theorem Begins.unique {settings' : Settings.Effective} {files' : List TrackedFile}
    {rules' : List ActiveRule} (begins : Begins d o settings files rules)
    (begins' : Begins d o settings' files' rules') :
    settings = settings' ∧ files = files' ∧ rules = rules' := by
  obtain rfl := Except.ok.inj (begins.settled.symm.trans begins'.settled)
  have sameFiles := begins.scanned.symm.trans begins'.scanned
  have sameRules := begins.loaded.symm.trans begins'.loaded
  exact ⟨rfl, Except.ok.inj sameFiles, Except.ok.inj sameRules⟩

/-- Behind them only the analysis can fail. -/
theorem Begins.result_of_fails {e : Failure} (begins : Begins d o settings files rules)
    (fails : Fails linter k d o e) :
    (collect linter k d settings files rules).result = .error e := by
  cases fails with
  | settings failed =>
      rw [begins.settled] at failed
      cases failed
  | scan settled failed =>
      obtain rfl := Except.ok.inj (begins.settled.symm.trans settled)
      rw [begins.scanned] at failed
      cases failed
  | profile settled scanned failed =>
      obtain rfl := Except.ok.inj (begins.settled.symm.trans settled)
      rw [begins.loaded] at failed
      cases failed
  | analysis begins' failed =>
      obtain ⟨rfl, rfl, rfl⟩ := begins.unique begins'
      exact failed

/-- A stage that succeeds hands its result on. -/
theorem mapError_bind_ok {ε α β : Type} {x : Except ε α} {a : α} (h : x = .ok a)
    (name : ε → Failure) (next : α → Except Failure β) : (x.mapError name >>= next) = next a := by
  rw [h]
  rfl

/-- A stage that fails is the last one. -/
theorem mapError_bind_error {ε α β : Type} {x : Except ε α} {e : ε} (h : x = .error e)
    (name : ε → Failure) (next : α → Except Failure β) :
    (x.mapError name >>= next) = .error (name e) := by
  rw [h]
  rfl

theorem Begins.prepare_eq (begins : Begins d o settings files rules) :
    prepare d o = .ok ⟨settings, .ofProfile settings.plan rules files⟩ := by
  rw [prepare, mapError_bind_ok begins.settled, mapError_bind_ok begins.scanned,
    mapError_bind_ok begins.loaded]
  rfl

theorem analyze_of_unprepared {e : Failure} (failed : prepare d o = .error e) :
    (analyze linter k d colours o check).ending = .ofFailure colours e := by
  rw [analyze, failed]

/-- What the program leaves is what the run leaves. -/
theorem Begins.analyze_eq (begins : Begins d o settings files rules) :
    analyze linter k d colours o check =
      { linter := (collect linter k d settings files rules).linter
        disk := (collect linter k d settings files rules).disk
        warnings := (collect linter k d settings files rules).warnings
        ending := endingOf settings.output colours check
          (collect linter k d settings files rules) } := by
  rw [analyze, begins.prepare_eq]
  rfl

/-- Whichever stage fails, it is what the program complains about. -/
theorem Fails.ending_eq {e : Failure} (fails : Fails linter k d o e) :
    (analyze linter k d colours o check).ending = .ofFailure colours e := by
  cases fails with
  | settings failed =>
      apply analyze_of_unprepared
      rw [prepare, mapError_bind_error failed]
  | scan settled failed =>
      apply analyze_of_unprepared
      rw [prepare, mapError_bind_ok settled, mapError_bind_error failed]
  | profile settled scanned failed =>
      apply analyze_of_unprepared
      rw [prepare, mapError_bind_ok settled, mapError_bind_ok scanned,
        mapError_bind_error failed]
  | analysis begins failed => rw [begins.analyze_eq, endingOf, failed]

end Stages

/-! ## The ending with a result -/

/-- Issues make the program fail if they are to, and nothing else does. -/
theorem code_ofOutcome {output : String} {colours check : Bool} {issues : List Issue}
    {outcome : Outcome} :
    (Ending.ofOutcome output colours check issues outcome).code =
      if check = true ∧ 0 < issues.length then 1 else 0 := by
  rw [Ending.ofOutcome]
  cases check <;> cases issues <;> simp

/-- What the program leaves and shows after a run that has succeeded. -/
structure Reports (output : String) (colours check : Bool) (r : Analysis.Run κ (List Issue))
    (outcome : Outcome) (ended : Result κ) : Prop where
  linter : ended.linter = r.linter
  disk : ended.disk = r.disk
  warnings : ended.warnings = r.warnings
  complaint : ended.ending.complaint = none
  printed : ended.ending.printed = Rendering.rendered output colours r.sink outcome
  conveys : Rendering.Conveys output colours r.sink outcome ended.ending.printed
  tallies : outcome.summary.Tallies r.sink
  one : ended.ending.code = 1 ↔ check = true ∧ 0 < outcome.summary.issues
  zero : ended.ending.code = 0 ↔ ¬ (check = true ∧ 0 < outcome.summary.issues)
  skipped : outcome = .skipped → ended.ending.code = 0

theorem Begins.reports {linter : List String → LinterRunner κ} {k : κ} {d : Disk}
    {o : Settings.Options} {settings : Settings.Effective} {files : List TrackedFile}
    {rules : List ActiveRule} {outcome : Outcome} {colours check : Bool}
    (begins : Begins d o settings files rules)
    (ok : (collect linter k d settings files rules).result = .ok outcome) :
    Reports settings.output colours check (collect linter k d settings files rules) outcome
      (analyze linter k d colours o check) := by
  have tallies := collect_tallies ok
  have ended : (analyze linter k d colours o check).ending =
      .ofOutcome settings.output colours check (collect linter k d settings files rules).sink
        outcome := by
    rw [begins.analyze_eq, endingOf, ok]
  -- The code looks at the list of issues, the statement at the counts.
  have code : (analyze linter k d colours o check).ending.code =
      if check = true ∧ 0 < outcome.summary.issues then 1 else 0 := by
    rw [ended, code_ofOutcome, tallies.issues]
  refine ⟨?_, ?_, ?_, ?_, ?_, ?_, tallies, ?_, ?_, ?_⟩
  · rw [begins.analyze_eq]
  · rw [begins.analyze_eq]
  · rw [begins.analyze_eq]
  · rw [ended]
    rfl
  · rw [ended]
    rfl
  · rw [ended]
    exact Rendering.conveys_rendered ..
  · rw [code]
    split <;> simp [*]
  · rw [code]
    split <;> simp [*]
  · rintro rfl
    rw [code]
    exact if_neg fun ⟨_, positive⟩ => Nat.lt_irrefl 0 positive

/-- **Exit code, printed result and run agree.**  The arguments ask for an
analysis.  The exit code is 2 exactly if the settings, the scan, the profile or the
analysis fails, and then nothing is printed.  Otherwise all stages succeed, what is
printed is the rendering of the issues and the outcome of the one run and conveys
them, the counts fit the issues, and the exit code is 1 exactly if issues are to make
the program fail and are counted. -/
theorem run_agrees_with_its_ending (linter : List String → LinterRunner κ) (k : κ) (d : Disk)
    (colours : Bool) {arguments : List String} {verbosity : Nat} {o : Settings.Options}
    {check : Bool} (parsed : CommandLine.parse arguments = .ok ⟨verbosity, .analyze o check⟩) :
    ((run linter k d colours arguments).ending.code = 2 ↔ ∃ e, Fails linter k d o e) ∧
    (∀ e, Fails linter k d o e → (run linter k d colours arguments).ending =
      { code := 2
        printed := ""
        complaint := some (Rendering.errorPrefix colours ++ " " ++ e.message) }) ∧
    ((¬ ∃ e, Fails linter k d o e) → ∃ settings files rules outcome,
      Begins d o settings files rules ∧
      (collect linter k d settings files rules).result = .ok outcome ∧
      Reports settings.output colours check (collect linter k d settings files rules) outcome
        (run linter k d colours arguments)) := by
  have asked : run linter k d colours arguments = analyze linter k d colours o check := by
    rw [run, parsed]
  rw [asked]
  refine ⟨⟨?_, ?_⟩, ?_, ?_⟩
  · intro two
    cases fails_or_begins linter k d o with
    | inl fails => exact fails
    | inr succeeds =>
        obtain ⟨settings, files, rules, outcome, begins, ok⟩ := succeeds
        have reports : Reports settings.output colours check
            (collect linter k d settings files rules) outcome
            (analyze linter k d colours o check) := begins.reports ok
        -- With a result the code is one of the other two.
        exfalso
        by_cases failing : check = true ∧ 0 < outcome.summary.issues
        · have one := reports.one.2 failing
          omega
        · have zero := reports.zero.2 failing
          omega
  · intro ⟨e, fails⟩
    rw [fails.ending_eq]
    rfl
  · intro e fails
    rw [fails.ending_eq]
    rfl
  · intro noFailure
    obtain ⟨settings, files, rules, outcome, begins, ok⟩ :=
      (fails_or_begins linter k d o).resolve_left noFailure
    exact ⟨settings, files, rules, outcome, begins, ok, begins.reports ok⟩

/-! ## A project with an issue -/

/-- A disk with a profile of one rule, a source and a report of one violation. -/
def flawedProject : Disk where
  entries := [(["narcbridge.toml".toList], .file []),
    ([['q']], .file (Utf8.ofString "[[rules]]\nkey = 'E'\nconfig_key = 'E'")),
    ([['r']], .file (Utf8.ofString
      "<R><File name='A.groovy'><Violation ruleName='E'/></File></R>")),
    ([['s']], .dir), ([['s'], "A.groovy".toList], .file [])]
  cwd := []

/-- The arguments that lead to them. -/
def flawedArguments : List String :=
  ["analyze", "--check", "--profile=q", "--report-path=r", "--source-dir=s"]

/-- What the arguments say. -/
def flawedOptions : Settings.Options where
  profile := some "q"
  reportPath := some "r"
  sourceDirs := ["s"]

/-- The settings in effect. -/
def flawedSettings : Settings.Effective where
  baseDir := .ofString "/"
  profile := .ofString "/q"
  profileConfigured := true
  output := "human"
  workDir := .ofString "/.narcbridge"
  title := "project"
  mainDirs := [.ofString "/s"]
  testDirs := [.ofString "/src/test/groovy"]
  suffixes := [".groovy"]
  reportPath := some (.ofString "/r")
  command := ["codenarc"]

/-- The source. -/
def flawedSource : TrackedFile :=
  ⟨"A.groovy", .ofString "/s/A.groovy", some groovyLanguage, .main⟩

/-- The rule. -/
def flawedRule : ActiveRule := ⟨⟨linterRepository, "E"⟩, "E", "E", .major, .empty⟩

/-- A linter that is not needed. -/
def noLinter : List String → LinterRunner Unit := fun _ => ⟨fun k d _ => (k, d, .ok ())⟩

theorem parse_flawedArguments :
    CommandLine.parse flawedArguments = .ok ⟨0, .analyze flawedOptions true⟩ := by
  cbv

theorem resolve_flawedProject :
    Settings.resolve flawedProject flawedOptions = .ok flawedSettings := by
  cbv

theorem scan_flawedProject :
    scan flawedProject flawedSettings.baseDir flawedSettings.mainDirs flawedSettings.testDirs
      flawedSettings.suffixes = .ok [flawedSource] := by
  cbv

theorem load_flawedProject :
    Profile.load flawedProject flawedSettings.profile flawedSettings.profileConfigured =
      .ok [flawedRule] := by
  cbv

theorem collect_flawedProject :
    (collect noLinter () flawedProject flawedSettings [flawedSource] [flawedRule]).result =
      .ok (.completed ⟨1, 1, 0, 0, 0⟩) := by
  cbv

/-- The run finds one issue, prints its line above the counts, and ends with code 1. -/
theorem run_agrees_with_its_ending_flawed :
    let ended := run noLinter () flawedProject false flawedArguments
    ended.ending.code = 1 ∧ ∃ issue,
      ended.ending.printed =
        Rendering.rendered "human" false [issue] (.completed ⟨1, 1, 0, 0, 0⟩) ∧
      ended.ending.printed =
        Rendering.ofLines Rendering.plainLine [issue] (.completed ⟨1, 1, 0, 0, 0⟩) := by
  intro ended
  have begins : Begins flawedProject flawedOptions flawedSettings [flawedSource] [flawedRule] :=
    ⟨resolve_flawedProject, scan_flawedProject, load_flawedProject⟩
  have noFailure : ¬ ∃ e, Fails noLinter () flawedProject flawedOptions e := by
    intro ⟨e, fails⟩
    have failed := begins.result_of_fails fails
    rw [collect_flawedProject] at failed
    cases failed
  obtain ⟨settings, files, rules, outcome, begins', ok, reports⟩ :=
    (run_agrees_with_its_ending noLinter () flawedProject false parse_flawedArguments).2.2 noFailure
  obtain ⟨rfl, rfl, rfl⟩ := begins.unique begins'
  obtain rfl := Except.ok.inj (collect_flawedProject.symm.trans ok)
  obtain ⟨issue, single⟩ := List.length_eq_one_iff.1 reports.tallies.issues.symm
  refine ⟨reports.one.2 ⟨rfl, Nat.one_pos⟩, issue, ?_⟩
  rw [← single]
  exact ⟨reports.printed, reports.conveys.plain (by decide) rfl⟩

end Program

end GroovyFindings
