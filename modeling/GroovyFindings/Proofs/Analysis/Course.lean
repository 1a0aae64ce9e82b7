import GroovyFindings.Analysis.Basic

/-!
# The course of an analysis

What an analysis does is said once, by the stage in which it ends: it is
skipped, it reads the report it is told to, it cannot prepare the linter's
work, the linter fails, or it reads what the linter leaves.  Along with the
end goes the list of the linter's invocations, which a linter with a record
shows to be the real one.

From the five courses it follows what an analysis leaves alone: the sink is
offered nothing before the report has been read to its end.

## Main definitions

* `Invocation`, `LinterRunner.recording` — what a linter is started on, and a
  linter that keeps a record of it.
* `Analysis.conclude` — the last stage.
* `Analysis.Course` — the five courses.

## Main results

* `Analysis.exists_course`, `Analysis.run_recording` — a run takes one of the
  courses, and its invocations are those of the course.
* `Analysis.run_leaves_untouched` — what a run does not touch.
-/

namespace GroovyFindings

variable {κ σ : Type}

/-! ## The linter's record -/

/-- One start of the linter, and what came of it. -/
structure Invocation where
  /-- The disk that the linter finds. -/
  before : Disk
  request : Linter.Request
  /-- The disk that it leaves. -/
  after : Disk
  result : Except Failure Unit

/-- The linter with a record of its invocations. -/
def LinterRunner.recording (linter : LinterRunner κ) : LinterRunner (κ × List Invocation) where
  run k d request :=
    let ended := linter.run k.1 d request
    ((ended.1, k.2 ++ [⟨d, request, ended.2.1, ended.2.2⟩]), ended.2.1, ended.2.2)

namespace Analysis

/-- The run with another memory of the linter's. -/
def Run.withLinter {κ' : Type} (r : Run κ σ) (k : κ') : Run κ' σ :=
  ⟨k, r.disk, r.sink, r.warnings, r.result⟩

/-- The last stage of an analysis: the report is read, and if it is one its
violations are offered to the sink. -/
def conclude (a : Analysis) (sink : Sink σ) (k : κ) (d : Disk) (s : σ) (path : Path) :
    Run κ σ :=
  match readReport d path with
  | (warnings, .error e) => ⟨k, d, s, warnings, .error e⟩
  | (warnings, .ok violations) =>
      ⟨k, d, (a.catalog.process sink s violations).1, warnings,
        .ok (.completed (a.catalog.process sink s violations).2)⟩

/-! ## The five courses -/

/-- How an analysis may go, with the linter's invocations on the way. -/
inductive Course (a : Analysis) (linter : LinterRunner κ) (sink : Sink σ) (k : κ) (d : Disk)
    (s : σ) : List Invocation → Run κ σ → Prop
  | skipped (unwanted : a.wanted = false) :
      Course a linter sink k d s [] ⟨k, d, s, [], .ok .skipped⟩
  | told {path : Path} (wanted : a.wanted = true)
      (configured : a.plan.configuredReport = some path) :
      Course a linter sink k d s [] (a.conclude sink k d s path)
  | unprepared {d' : Disk} {e : Failure} (wanted : a.wanted = true)
      (fresh : a.plan.configuredReport = none) (prepared : a.prepare d = (d', .error e)) :
      Course a linter sink k d s [] ⟨k, d', s, [], .error e⟩
  | failed {d' d'' : Disk} {k' : κ} {e : Failure} (wanted : a.wanted = true)
      (fresh : a.plan.configuredReport = none) (prepared : a.prepare d = (d', .ok ()))
      (ended : linter.run k d' a.plan.request = (k', d'', .error e)) :
      Course a linter sink k d s [⟨d', a.plan.request, d'', .error e⟩]
        ⟨k', d'', s, [], .error e⟩
  | reported {d' d'' : Disk} {k' : κ} (wanted : a.wanted = true)
      (fresh : a.plan.configuredReport = none) (prepared : a.prepare d = (d', .ok ()))
      (ended : linter.run k d' a.plan.request = (k', d'', .ok ())) :
      Course a linter sink k d s [⟨d', a.plan.request, d'', .ok ()⟩]
        (a.conclude sink k' d'' s a.plan.generatedReport)

variable {a : Analysis} {linter : LinterRunner κ} {sink : Sink σ} {k : κ} {d : Disk} {s : σ}
  {calls : List Invocation} {r : Run κ σ}

/-- Where a report has been found, the last stage follows. -/
theorem run_of_found {k' : κ} {d' : Disk} {path : Path} (wanted : a.wanted = true)
    (found : a.findReport linter k d = (k', d', .ok path)) :
    a.run linter sink k d s = a.conclude sink k' d' s path := by
  obtain ⟨warnings, reading, hread⟩ : ∃ warnings reading,
      readReport d' path = (warnings, reading) := ⟨_, _, rfl⟩
  cases reading <;> simp [run, wanted, found, conclude, hread]

/-- Where none has been found, nothing follows. -/
theorem run_of_not_found {k' : κ} {d' : Disk} {e : Failure} (wanted : a.wanted = true)
    (failed : a.findReport linter k d = (k', d', .error e)) :
    a.run linter sink k d s = ⟨k', d', s, [], .error e⟩ := by
  simp [run, wanted, failed]

/-- A course determines the run. -/
theorem Course.run_eq (h : a.Course linter sink k d s calls r) :
    a.run linter sink k d s = r := by
  cases h with
  | skipped unwanted => simp [run, unwanted]
  | told wanted configured => exact run_of_found wanted (by simp [findReport, configured])
  | unprepared wanted fresh prepared =>
      exact run_of_not_found wanted (by simp [findReport, fresh, prepared])
  | failed wanted fresh prepared ended =>
      exact run_of_not_found wanted (by simp [findReport, fresh, prepared, ended])
  | reported wanted fresh prepared ended =>
      exact run_of_found wanted (by simp [findReport, fresh, prepared, ended])

theorem exists_course (a : Analysis) (linter : LinterRunner κ) (sink : Sink σ) (k : κ)
    (d : Disk) (s : σ) : ∃ calls, a.Course linter sink k d s calls (a.run linter sink k d s) := by
  have hcourse : ∃ calls r, a.Course linter sink k d s calls r := by
    cases wanted : a.wanted with
    | false => exact ⟨_, _, .skipped wanted⟩
    | true =>
        cases configured : a.plan.configuredReport with
        | some path => exact ⟨_, _, .told wanted configured⟩
        | none =>
            obtain ⟨d', result, prepared⟩ : ∃ d' result, a.prepare d = (d', result) :=
              ⟨_, _, rfl⟩
            cases result with
            | error e => exact ⟨_, _, .unprepared wanted configured prepared⟩
            | ok _ =>
                obtain ⟨k', d'', result, ended⟩ : ∃ k' d'' result,
                    linter.run k d' a.plan.request = (k', d'', result) := ⟨_, _, _, rfl⟩
                cases result with
                | error e => exact ⟨_, _, .failed wanted configured prepared ended⟩
                | ok _ => exact ⟨_, _, .reported wanted configured prepared ended⟩
  obtain ⟨calls, r, h⟩ := hcourse
  exact ⟨calls, h.run_eq ▸ h⟩

/-- The last stage does not look at the linter's memory. -/
theorem conclude_withLinter {κ' : Type} (k' : κ') {path : Path} :
    a.conclude sink k' d s path = (a.conclude sink k d s path).withLinter k' := by
  unfold conclude
  split <;> rfl

theorem conclude_linter {path : Path} : (a.conclude sink k d s path).linter = k := by
  unfold conclude
  split <;> rfl

theorem conclude_disk {path : Path} : (a.conclude sink k d s path).disk = d := by
  unfold conclude
  split <;> rfl

/-- A linter with a record takes the same course. -/
theorem Course.recording (h : a.Course linter sink k d s calls r) (log : List Invocation) :
    a.Course linter.recording sink (k, log) d s calls (r.withLinter (r.linter, log ++ calls)) := by
  cases h with
  | skipped unwanted => simpa [Run.withLinter] using .skipped unwanted
  | told wanted configured =>
      rw [conclude_linter, List.append_nil, ← conclude_withLinter]
      exact .told wanted configured
  | unprepared wanted fresh prepared =>
      simpa [Run.withLinter] using .unprepared wanted fresh prepared
  | failed wanted fresh prepared ended =>
      exact .failed wanted fresh prepared (by simp [LinterRunner.recording, ended])
  | reported wanted fresh prepared ended =>
      rw [conclude_linter, ← conclude_withLinter]
      exact .reported wanted fresh prepared (by simp [LinterRunner.recording, ended])

/-- The record of a run shows the invocations of its course, and the run is
otherwise that of the linter without a record. -/
theorem run_recording (a : Analysis) (linter : LinterRunner κ) (sink : Sink σ) (k : κ)
    (log : List Invocation) (d : Disk) (s : σ) :
    ∃ calls, a.Course linter sink k d s calls (a.run linter sink k d s) ∧
      a.run linter.recording sink (k, log) d s =
        (a.run linter sink k d s).withLinter ((a.run linter sink k d s).linter, log ++ calls) := by
  obtain ⟨calls, hcourse⟩ := exists_course a linter sink k d s
  exact ⟨calls, hcourse, (hcourse.recording log).run_eq⟩

/-! ## What a run leaves alone -/

theorem wanted_eq_false_iff :
    a.wanted = false ↔ a.rules = [] ∨ ∀ f ∈ a.files, f.language ≠ some groovyLanguage := by
  rw [Decidable.or_iff_not_imp_left]
  simp [wanted, hasGroovy, TrackedFile.isGroovy]

theorem rules_ofProfile_eq_nil_iff {plan : Plan} {profile : List ActiveRule}
    {files : List TrackedFile} :
    (ofProfile plan profile files).rules = [] ↔
      ∀ rule ∈ profile, rule.ref.repository ≠ linterRepository := by
  simp [ofProfile, inRepository, List.filter_eq_nil_iff]

/-- The last stage is not reached in vain: it skips nothing. -/
theorem conclude_result_ne_skipped {path : Path} :
    (a.conclude sink k d s path).result ≠ .ok .skipped := by
  unfold conclude
  split <;> simp

/-- A report that is none leaves the sink as it is, whichever sink it is. -/
theorem conclude_of_error {path : Path} {e : Failure}
    (h : (a.conclude sink k d s path).result = .error e) (sink' : Sink σ) :
    a.conclude sink' k d s path = a.conclude sink k d s path ∧
      (a.conclude sink k d s path).sink = s := by
  unfold conclude at h ⊢
  split at h
  · exact ⟨rfl, rfl⟩
  · cases h

namespace Course

/-- A run that ends in an error has taken a course on which the sink is not
used. -/
theorem of_error {e : Failure} (h : a.Course linter sink k d s calls r)
    (failed : r.result = .error e) (sink' : Sink σ) :
    a.Course linter sink' k d s calls r ∧ r.sink = s := by
  cases h with
  | skipped => cases failed
  | told wanted configured =>
      obtain ⟨hsink, hs⟩ := conclude_of_error failed sink'
      exact ⟨hsink ▸ .told wanted configured, hs⟩
  | unprepared wanted fresh prepared => exact ⟨.unprepared wanted fresh prepared, rfl⟩
  | failed wanted fresh prepared ended => exact ⟨.failed wanted fresh prepared ended, rfl⟩
  | reported wanted fresh prepared ended =>
      obtain ⟨hsink, hs⟩ := conclude_of_error failed sink'
      exact ⟨hsink ▸ .reported wanted fresh prepared ended, hs⟩

theorem result_eq_skipped_iff (h : a.Course linter sink k d s calls r) :
    r.result = .ok .skipped ↔ a.wanted = false := by
  cases h with
  | skipped unwanted => simp [unwanted]
  | told wanted => simp [wanted, conclude_result_ne_skipped]
  | unprepared wanted => simp [wanted]
  | failed wanted => simp [wanted]
  | reported wanted => simp [wanted, conclude_result_ne_skipped]

/-- A run that is told which report to read starts nothing and writes
nothing. -/
theorem of_configured {path : Path} (h : a.Course linter sink k d s calls r)
    (configured : a.plan.configuredReport = some path) :
    calls = [] ∧ r.linter = k ∧ r.disk = d := by
  cases h with
  | skipped => exact ⟨rfl, rfl, rfl⟩
  | told => exact ⟨rfl, conclude_linter, conclude_disk⟩
  | unprepared _ fresh => simp [fresh] at configured
  | failed _ fresh => simp [fresh] at configured
  | reported _ fresh => simp [fresh] at configured

/-- A linter that fails makes the run fail, whatever it has written. -/
theorem of_failed_call (h : a.Course linter sink k d s calls r) {call : Invocation}
    (mem : call ∈ calls) {e : Failure} (failed : call.result = .error e) :
    r.result = .error e := by
  cases h with
  | skipped => cases mem
  | told => cases mem
  | unprepared => cases mem
  | failed =>
      obtain rfl := List.mem_singleton.1 mem
      cases failed
      rfl
  | reported =>
      obtain rfl := List.mem_singleton.1 mem
      cases failed

end Course

/-- **A run that does not complete leaves the host untouched.**  Of a run that
fails the sink has taken nothing and has not been asked anything, and a failure
of the linter is one of the run.  A run is skipped exactly if no rule is active
or no file of any kind is in Groovy, and then the linter is not started and
the disk is neither read nor written.  A run that has a report to read starts
no linter and writes nothing. -/
theorem run_leaves_untouched (a : Analysis) (linter : LinterRunner κ) (sink : Sink σ)
    (k : κ) (d : Disk) (s : σ) :
    (∀ e, (a.run linter sink k d s).result = .error e →
      (a.run linter sink k d s).sink = s ∧
      ∀ sink' : Sink σ, a.run linter sink' k d s = a.run linter sink k d s) ∧
    (∀ call ∈ (a.run linter.recording sink (k, []) d s).linter.2, ∀ e,
      call.result = .error e → (a.run linter sink k d s).result = .error e) ∧
    ((a.run linter sink k d s).result = .ok .skipped ↔
      a.rules = [] ∨ ∀ f ∈ a.files, f.language ≠ some groovyLanguage) ∧
    (∀ plan profile files, a = ofProfile plan profile files →
      (a.rules = [] ↔ ∀ rule ∈ profile, rule.ref.repository ≠ linterRepository)) ∧
    ((a.run linter sink k d s).result = .ok .skipped → ∀ d',
      a.run linter sink k d' s = ⟨k, d', s, [], .ok .skipped⟩ ∧
      (a.run linter.recording sink (k, []) d' s).linter = (k, [])) ∧
    (∀ path, a.plan.reportPath = some path → path.chars ≠ [] →
      (a.run linter.recording sink (k, []) d s).linter = (k, []) ∧
      (a.run linter sink k d s).disk = d) := by
  obtain ⟨calls, hcourse, hrecord⟩ := run_recording a linter sink k [] d s
  refine ⟨?_, ?_, ?_, ?_, ?_, ?_⟩
  · intro e failed
    refine ⟨(hcourse.of_error failed sink).2, fun sink' => ?_⟩
    exact (hcourse.of_error failed sink').1.run_eq
  · intro call mem e failed
    rw [hrecord] at mem
    exact hcourse.of_failed_call mem failed
  · rw [hcourse.result_eq_skipped_iff, wanted_eq_false_iff]
  · rintro plan profile files rfl
    exact rules_ofProfile_eq_nil_iff
  · intro skipped d'
    have unwanted := hcourse.result_eq_skipped_iff.1 skipped
    exact ⟨(Course.skipped unwanted).run_eq, by rw [(Course.skipped unwanted).run_eq]⟩
  · intro path hpath hchars
    have configured : a.plan.configuredReport = some path := by
      simp [Plan.configuredReport, hpath, hchars]
    obtain ⟨rfl, hlinter, hdisk⟩ := hcourse.of_configured configured
    rw [hrecord]
    exact ⟨by simp [Run.withLinter, hlinter], hdisk⟩

end Analysis

end GroovyFindings
