import GroovyFindings.Proofs.Analysis.Leftover

/-!
# Sessions

A session is a sequence of analyses with one linter and one host; between them
the disk may change in any way, and each is about rules and files of its own.
No run of a session sees or reports what earlier runs have left in the work
directory, and sessions that begin on disks with different work files are alike,
run by run.

## Main definitions

* `Round`, `Episode`, `episodes` — a session, and its runs with what each starts
  from.
* `Run.visible` — a run but for its disk.
* `Round.Blind` — a round that looks at no old work file by itself.

## Main results

* `Analysis.Course.fresh`, `Analysis.Course.reportsOnly` — one run.
* `Analysis.run_congr` — one run on disks that differ in work files.
* `session_untouched_by_leftovers` — all runs of a session.
-/

namespace GroovyFindings

variable {κ σ : Type}

/-! ## A session -/

/-- A change of the disk, and the analysis after it. -/
structure Round where
  edit : Disk → Disk
  analysis : Analysis

/-- A run of a session: its analysis, and what it starts from. -/
structure Episode (κ σ : Type) where
  analysis : Analysis
  linter : κ
  disk : Disk
  sink : σ

namespace Episode

/-- The run. -/
def run (e : Episode κ σ) (linter : LinterRunner κ) (sink : Sink σ) :
    Analysis.Run κ σ :=
  e.analysis.run linter sink e.linter e.disk e.sink

/-- The run with a record of the linter's invocations. -/
def recorded (e : Episode κ σ) (linter : LinterRunner κ) (sink : Sink σ) :
    Analysis.Run (κ × List Invocation) σ :=
  e.analysis.run linter.recording sink (e.linter, []) e.disk e.sink

/-- The linter's invocations. -/
def calls (e : Episode κ σ) (linter : LinterRunner κ) (sink : Sink σ) : List Invocation :=
  (e.recorded linter sink).linter.2

end Episode

/-- The runs of a session: each starts from what the one before it has left. -/
def episodes (linter : LinterRunner κ) (sink : Sink σ) :
    List Round → κ → Disk → σ → List (Episode κ σ)
  | [], _, _, _ => []
  | round :: later, k, d, s =>
      let e : Episode κ σ := ⟨round.analysis, k, round.edit d, s⟩
      let r := e.run linter sink
      e :: episodes linter sink later r.linter r.disk r.sink

/-- A run but for the disk it leaves. -/
def Analysis.Run.visible (r : Analysis.Run κ σ) :
    κ × σ × List Report.Warning × Except Failure Outcome :=
  (r.linter, r.sink, r.warnings, r.result)

namespace Analysis

variable {a : Analysis} {linter : LinterRunner κ} {sink : Sink σ} {k : κ} {d d' : Disk} {s : σ}
  {dir : Place}

/-! ## One run -/

/-- What a run reports is what the linter has left in this invocation: what a run
reports that is told to read the same bytes, wherever they are, or no violation
if there are none. -/
structure ReportsOnly (a : Analysis) (sink : Sink σ) (s : σ) (call : Invocation)
    (r : Run κ σ) : Prop where
  left : ∀ bytes, call.after.read a.plan.generatedReport = .ok bytes →
    ∀ (plan : Plan) (path : Path) (linter' : LinterRunner κ) (k' : κ) (d' : Disk),
      plan.configuredReport = some path → d'.read path = .ok bytes →
      { a with plan := plan }.run linter' sink k' d' s =
        ⟨k', d', r.sink, r.warnings, r.result.mapError (·.naming path)⟩
  nothing : call.after.opened a.plan.generatedReport = .error .missing →
    r.sink = s ∧ r.warnings = [] ∧ r.result = .ok (.completed {})

theorem Course.fresh {calls : List Invocation} {r : Run κ σ}
    (h : a.Course linter sink k d s calls r)
    (plain : a.plan.WorkFilesPlain (d.mkdirs a.plan.workDir).1) :
    ∀ call ∈ calls, call.Fresh a := by
  intro call mem
  cases h with
  | skipped => cases mem
  | told => cases mem
  | unprepared => cases mem
  | failed _ _ prepared =>
      obtain rfl := List.mem_singleton.1 mem
      obtain ⟨dir, work, rfl⟩ := exists_prepared prepared plain
      exact fresh_of_prepared work _ _
  | reported _ _ prepared =>
      obtain rfl := List.mem_singleton.1 mem
      obtain ⟨dir, work, rfl⟩ := exists_prepared prepared plain
      exact fresh_of_prepared work _ _

theorem Course.reportsOnly {calls : List Invocation} {r : Run κ σ}
    (h : a.Course linter sink k d s calls r) :
    ∀ call ∈ calls, call.result = .ok () → a.ReportsOnly sink s call r := by
  intro call mem succeeded
  cases h with
  | skipped => cases mem
  | told => cases mem
  | unprepared => cases mem
  | failed =>
      obtain rfl := List.mem_singleton.1 mem
      cases succeeded
  | @reported _ _ k' wanted =>
      obtain rfl := List.mem_singleton.1 mem
      constructor
      · intro bytes left plan path linter' k'' d'' configured told
        have course : { a with plan := plan }.Course linter' sink k'' d'' s []
            ({ a with plan := plan }.conclude sink k'' d'' s path) := .told wanted configured
        rw [course.run_eq]
        exact conclude_of_read (a := a) (k := k') left told
      · intro missing
        rw [conclude_of_missing missing]
        exact ⟨rfl, rfl, rfl⟩

/-- Runs on disks that differ in old work files are alike, and behind them the
disks are the same or still differ in work files only. -/
theorem run_congr (linter : LinterRunner κ) (sink : Sink σ) (k : κ) (s : σ)
    (same : SameButWorkFiles a.plan.workDir dir d d')
    (fresh : a.plan.configuredReport = none) :
    (a.run linter sink k d s).visible = (a.run linter sink k d' s).visible ∧
      ((a.run linter sink k d s).disk = (a.run linter sink k d' s).disk ∨
        SameButWorkFiles a.plan.workDir dir (a.run linter sink k d s).disk
          (a.run linter sink k d' s).disk) := by
  cases wanted : a.wanted with
  | false =>
      rw [(Course.skipped wanted).run_eq, (Course.skipped wanted).run_eq]
      exact ⟨rfl, .inr same⟩
  | true =>
      obtain ⟨d₁, hd, hd'⟩ | ⟨e, hd, hd'⟩ := prepare_congr same
      · have one : a.findReport linter k d = a.findReport linter k d' := by
          simp only [findReport, fresh, hd, hd']
        have runs : a.run linter sink k d s = a.run linter sink k d' s := by
          simp only [run, wanted, if_true, one]
        exact ⟨by rw [runs], .inl (by rw [runs])⟩
      · rw [(Course.unprepared wanted fresh hd).run_eq,
          (Course.unprepared wanted fresh hd').run_eq]
        exact ⟨rfl, .inr same⟩

end Analysis

/-! ## All runs of a session -/

/-- A round that reads no configured report, works in the directory `w`, and
whose change of the disk does not depend on old work files. -/
structure Round.Blind (w : Path) (dir : Place) (round : Round) : Prop where
  workDir : round.analysis.plan.workDir = w
  fresh : round.analysis.plan.configuredReport = none
  edit : ∀ d d', SameButWorkFiles w dir d d' →
    round.edit d = round.edit d' ∨ SameButWorkFiles w dir (round.edit d) (round.edit d')

/-- Sessions that begin on disks with different work files are alike. -/
theorem episodes_congr {linter : LinterRunner κ} {sink : Sink σ} {w : Path} {dir : Place}
    {rounds : List Round} (blind : ∀ round ∈ rounds, round.Blind w dir) (k : κ) {d d' : Disk} (s : σ)
    (same : SameButWorkFiles w dir d d') :
    (episodes linter sink rounds k d s).map (fun e => (e.recorded linter sink).visible) =
      (episodes linter sink rounds k d' s).map (fun e => (e.recorded linter sink).visible) := by
  induction rounds generalizing k d d' s with
  | nil => rfl
  | cons round later ih =>
      obtain ⟨rfl, fresh, edit⟩ := blind round (by simp)
      have later_blind : ∀ r ∈ later, r.Blind round.analysis.plan.workDir dir :=
        fun r hr => blind r (by simp [hr])
      obtain one | same := edit d d' same
      · simp only [episodes, one]
      · obtain ⟨recorded, -⟩ := Analysis.run_congr linter.recording sink (k, []) s same fresh
        obtain ⟨visible, disks⟩ := Analysis.run_congr linter sink k s same fresh
        have linters := congrArg (·.1) visible
        have sinks := congrArg (·.2.1) visible
        simp only [Analysis.Run.visible] at linters sinks
        simp only [episodes, List.map_cons, Episode.recorded, Episode.run, recorded, linters, sinks]
        congr 1
        obtain one | same := disks
        · rw [one]
        · exact ih later_blind _ _ same

/-- **No run of a session sees or reports leftovers of an earlier one.**  Whatever
the session and the linter, in a run whose work files are missing or plain files
the linter finds the rule set of the rules that are active and no report, and where
it succeeds the run reports what it has left in that invocation and nothing else.
So sessions that begin on disks with different work files, and whose changes of the
disk do not look at them, are alike in all that the linter is asked for and finds,
in the issues, the warnings and the outcomes. -/
theorem session_untouched_by_leftovers (linter : LinterRunner κ) (sink : Sink σ)
    (rounds : List Round) (k : κ) (d : Disk) (s : σ) :
    (∀ e ∈ episodes linter sink rounds k d s,
      e.analysis.plan.WorkFilesPlain (e.disk.mkdirs e.analysis.plan.workDir).1 →
      ∀ call ∈ e.calls linter sink, call.Fresh e.analysis ∧
        (call.result = .ok () → e.analysis.ReportsOnly sink e.sink call (e.run linter sink))) ∧
    (∀ w dir, (∀ round ∈ rounds, round.Blind w dir) → ∀ d', SameButWorkFiles w dir d d' →
      (episodes linter sink rounds k d s).map (fun e => (e.recorded linter sink).visible) =
        (episodes linter sink rounds k d' s).map (fun e => (e.recorded linter sink).visible)) := by
  constructor
  · intro e _ plain call mem
    obtain ⟨calls, hcourse, hrecord⟩ :=
      Analysis.run_recording e.analysis linter sink e.linter [] e.disk e.sink
    rw [Episode.calls, Episode.recorded, hrecord] at mem
    exact ⟨hcourse.fresh plain call mem, hcourse.reportsOnly call mem⟩
  · intro w dir blind d' same
    exact episodes_congr blind k s same

/-! ## A report that has been left behind -/

/-- A disk with an empty work directory. -/
def emptyWork : Disk := ⟨[([['w']], .dir)], []⟩

/-- The disk with a report of an earlier run. -/
def staleWork : Disk :=
  emptyWork.put (Plan.reportPlace [['w']])
    (.file (Utf8.ofString "<R><File name='A'><Violation ruleName='E'/></File></R>"))

/-- An analysis with one rule and one file. -/
def smallAnalysis : Analysis where
  plan := ⟨none, [], .ofString "/w", "", ""⟩
  rules := [⟨⟨linterRepository, "E"⟩, "E", "E", .minor, .empty⟩]
  files := [⟨"A", .ofString "/A", some groovyLanguage, .main⟩]

/-- A linter that leaves nothing. -/
def idleLinter : LinterRunner Unit where
  run _ d _ := ((), d, .ok ())

theorem sameButWorkFiles_stale :
    SameButWorkFiles smallAnalysis.plan.workDir [['w']] emptyWork staleWork := by
  have isDir : emptyWork.dirPlace? smallAnalysis.plan.workDir = some [['w']] :=
    Disk.dirPlace_of_leadsInto ⟨by decide, _, .silent (.inl rfl)
      (.dir ⟨by decide, by decide, by decide, by decide⟩ rfl .here)⟩ (by decide)
  refine sameButWorkFiles_put isDir ?_ ?_ (.inr rfl) _ <;>
    simp [Disk.PlainAt, emptyWork, Plan.reportPlace, Plan.ruleSetPlace, Disk.node?]

/-- A linter that leaves nothing finds no old report, and reports nothing. -/
theorem session_untouched_by_leftovers_stale :
    let first : Episode Unit (List Issue) := ⟨smallAnalysis, (), staleWork, []⟩
    let rounds : List Round := [⟨id, smallAnalysis⟩, ⟨id, smallAnalysis⟩]
    (∃ call, first.calls idleLinter .all = [call] ∧ call.Fresh smallAnalysis ∧
      smallAnalysis.ReportsOnly .all [] call (first.run idleLinter .all)) ∧
    (episodes idleLinter .all rounds () emptyWork []).map
        (fun e => (e.recorded idleLinter .all).visible) =
      (episodes idleLinter .all rounds () staleWork []).map
        (fun e => (e.recorded idleLinter .all).visible) := by
  intro first rounds
  have same := sameButWorkFiles_stale
  have work : smallAnalysis.plan.WorksIn staleWork [['w']] :=
    ⟨Disk.leadsInto_of_dirPlace same.isDir', by decide, same.ruleSet', same.report'⟩
  have made := Disk.mkdirs_of_dirPlace same.isDir'
  constructor
  · have plain : smallAnalysis.plan.WorkFilesPlain
        (staleWork.mkdirs smallAnalysis.plan.workDir).1 := by
      rw [made]
      intro dir isDir
      obtain rfl := Option.some.inj (same.isDir'.symm.trans isDir)
      exact ⟨same.ruleSet', same.report'⟩
    have course : smallAnalysis.Course idleLinter .all () staleWork [] _ _ :=
      .reported (by decide) rfl (Analysis.prepare_eq made work) rfl
    have called : first.calls idleLinter .all = [_] :=
      congrArg (·.linter.2) (course.recording []).run_eq
    have mem : first ∈ episodes idleLinter .all rounds () staleWork [] := List.mem_cons_self
    have untouched := (session_untouched_by_leftovers idleLinter .all rounds () staleWork []).1
      first mem plain _ (by rw [called]; exact List.mem_cons_self)
    exact ⟨_, called, untouched.1, untouched.2 rfl⟩
  · refine (session_untouched_by_leftovers idleLinter .all rounds () emptyWork []).2 _ _ ?_ _ same
    have blind : (Round.mk id smallAnalysis).Blind smallAnalysis.plan.workDir [['w']] :=
      ⟨rfl, rfl, fun _ _ => .inr⟩
    simp [rounds, blind]

end GroovyFindings
