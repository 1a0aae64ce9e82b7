import GroovyFindings.Proofs.Analysis.Course
import GroovyFindings.Proofs.Disk.Entry

/-!
# What earlier runs leave behind

An analysis that runs the linter keeps two files in the work directory, the
rule set and the report.  Before the linter starts the first is written anew
and the second is removed, so that nothing of what they held goes into the run:
not into what the linter is asked for, not into what is read behind it.

## Main definitions

* `Plan.WorksIn`, `Plan.WorkFilesPlain`, `SameButWorkFiles` — work files that can
  be written, and disks that differ in nothing else.
* `Invocation.Fresh` — what the linter finds.

## Main results

* `Analysis.exists_prepared`, `Analysis.prepare_congr` — what preparing the work
  directory makes of a disk, and that it does not depend on old work files.
* `Analysis.fresh_of_prepared` — the linter finds nothing old.
* `Analysis.conclude_of_read`, `Analysis.conclude_of_missing` — the end of a run
  depends on the bytes of the report alone.
-/

namespace GroovyFindings

variable {κ σ : Type}

/-! ## Places put and emptied -/

namespace Disk

theorem erase_of_none {d : Disk} {place : Place} (h : d.node? place = none) :
    d.erase place = d := by
  have nonempty : place ≠ [] := by
    rintro rfl
    simp at h
  rw [node?, if_neg nonempty, Option.map_eq_none_iff, List.find?_eq_none] at h
  have all : d.entries.filter (fun e => e.1 ≠ place) = d.entries := by
    rw [List.filter_eq_self]
    intro e he
    simpa using h e he
  rw [erase, all]

/-- Something put at one place, and another place emptied. -/
theorem erase_put {d : Disk} {place other : Place} (node : Node) (h : place ≠ other) :
    (d.put place node).erase other =
      ⟨(place, node) :: ((d.erase place).erase other).entries, d.cwd⟩ := by
  simp [put, erase, h]

theorem erase_put_self (d : Disk) (place : Place) (node : Node) :
    (d.put place node).erase place = d.erase place := by
  simp [put, erase]

theorem erase_comm (d : Disk) (place other : Place) :
    (d.erase place).erase other = (d.erase other).erase place := by
  simp only [erase, List.filter_filter, Bool.and_comm]

end Disk

/-! ## Work files -/

namespace Plan

/-- The name of the rule set in the work directory. -/
def ruleSetName : String := "codenarc-ruleset.xml"

/-- The name of the report in the work directory. -/
def reportName : String := "codenarc-report.xml"

theorem isFileName_ruleSetName : Disk.IsFileName ruleSetName where
  ne_nil := by decide
  ne_dot := by decide
  ne_dots := by decide
  short := by decide
  noSlash := by decide
  noNul := by decide

theorem isFileName_reportName : Disk.IsFileName reportName where
  ne_nil := by decide
  ne_dot := by decide
  ne_dots := by decide
  short := by decide
  noSlash := by decide
  noNul := by decide

/-- The place of the rule set in the work directory. -/
def ruleSetPlace (dir : Place) : Place := dir ++ [ruleSetName.toList]

/-- The place of the report in the work directory. -/
def reportPlace (dir : Place) : Place := dir ++ [reportName.toList]

theorem ruleSetPlace_ne_reportPlace (dir : Place) : ruleSetPlace dir ≠ reportPlace dir := by
  intro h
  have names : ruleSetName.toList = reportName.toList := by
    simpa [ruleSetPlace, reportPlace] using h
  exact absurd names (by decide)

/-- The work files are entries of a directory, and each of them is missing or a
file. -/
structure WorksIn (p : Plan) (d : Disk) (dir : Place) : Prop where
  leads : d.LeadsInto p.workDir dir
  fits : Utf8.byteLength p.ruleSetPath.chars ≤ Disk.maxPath
  ruleSet : d.PlainAt (ruleSetPlace dir)
  report : d.PlainAt (reportPlace dir)

/-- Where the work directory is there, each of the work files is missing or a
file. -/
def WorkFilesPlain (p : Plan) (d : Disk) : Prop :=
  ∀ dir, d.dirPlace? p.workDir = some dir →
    d.PlainAt (ruleSetPlace dir) ∧ d.PlainAt (reportPlace dir)

end Plan

/-- Two disks that differ at most in the work files of the directory `w`, which
is the place `dir`; each work file is missing or a file. -/
structure SameButWorkFiles (w : Path) (dir : Place) (d d' : Disk) : Prop where
  isDir : d.dirPlace? w = some dir
  ruleSet : d.PlainAt (Plan.ruleSetPlace dir)
  report : d.PlainAt (Plan.reportPlace dir)
  ruleSet' : d'.PlainAt (Plan.ruleSetPlace dir)
  report' : d'.PlainAt (Plan.reportPlace dir)
  rest : (d.erase (Plan.ruleSetPlace dir)).erase (Plan.reportPlace dir) =
    (d'.erase (Plan.ruleSetPlace dir)).erase (Plan.reportPlace dir)

/-- The other disk has the directory in the same place. -/
theorem SameButWorkFiles.isDir' {w : Path} {dir : Place} {d d' : Disk}
    (same : SameButWorkFiles w dir d d') : d'.dirPlace? w = some dir := by
  have down : d.Keeps ((d.erase (Plan.ruleSetPlace dir)).erase (Plan.reportPlace dir)) :=
    same.ruleSet.keeps_erase.trans (same.report.erase _).keeps_erase
  have up : ((d'.erase (Plan.ruleSetPlace dir)).erase (Plan.reportPlace dir)).Keeps d' :=
    (Disk.keeps_of_erase _ _).trans (Disk.keeps_of_erase _ _)
  have keeps : d.Keeps d' := (same.rest ▸ down).trans up
  exact Disk.dirPlace_of_leadsInto ((Disk.leadsInto_of_dirPlace same.isDir).keeps keeps)
    (Disk.fits_of_dirPlace same.isDir)

/-- Whatever a work file is made to hold, the disk differs in work files only. -/
theorem sameButWorkFiles_put {w : Path} {dir place : Place} {d : Disk}
    (isDir : d.dirPlace? w = some dir) (ruleSet : d.PlainAt (Plan.ruleSetPlace dir))
    (report : d.PlainAt (Plan.reportPlace dir))
    (work : place = Plan.ruleSetPlace dir ∨ place = Plan.reportPlace dir)
    (content : List UInt8) : SameButWorkFiles w dir d (d.put place (.file content)) where
  isDir := isDir
  ruleSet := ruleSet
  report := report
  ruleSet' := ruleSet.put _ _
  report' := report.put _ _
  rest := by
    obtain rfl | rfl := work
    · rw [Disk.erase_put_self]
    · rw [Disk.erase_comm (d.put _ _), Disk.erase_put_self, Disk.erase_comm]

/-! ## Preparing the work directory -/

namespace Plan.WorksIn

variable {p : Plan} {d : Disk} {dir : Place}

/-- The path of the report is shorter than that of the rule set. -/
theorem report_fits (work : p.WorksIn d dir) :
    Utf8.byteLength p.generatedReport.chars ≤ Disk.maxPath :=
  Nat.le_trans (Path.byteLength_child_le isFileName_reportName.noSlash
    isFileName_ruleSetName.noSlash (by decide)) work.fits

/-- The work files stay where they are when the rule set is written. -/
theorem put (work : p.WorksIn d dir) (content : List UInt8) :
    p.WorksIn (d.put (ruleSetPlace dir) (.file content)) dir where
  leads := work.leads.keeps (work.ruleSet.keeps_put _)
  fits := work.fits
  ruleSet := work.ruleSet.put _ _
  report := work.report.put _ _

/-- The work files stay where they are when the report is removed. -/
theorem erase (work : p.WorksIn d dir) : p.WorksIn (d.erase (reportPlace dir)) dir where
  leads := work.leads.keeps work.report.keeps_erase
  fits := work.fits
  ruleSet := work.ruleSet.erase _
  report := work.report.erase _

end Plan.WorksIn

/-- The linter is started on the request of the analysis, finds the rule set of
the rules that are active, and finds no report, not even a link by its name. -/
structure Invocation.Fresh (call : Invocation) (a : Analysis) : Prop where
  request : call.request = a.plan.request
  noReport : call.before.find false a.plan.generatedReport = .error .missing
  absent : call.before.present a.plan.generatedReport = false
  ruleSet : call.before.read a.plan.ruleSetPath = .ok (Utf8.ofString (ruleSet a.rules))

/-- The failure with another path named in it. -/
def Failure.naming (path : Path) : Failure → Failure
  | .file _ fault => .file path fault
  | .report _ e => .report path e
  | e => e

/-- What can be read from a path is what a report is read from. -/
theorem Report.openReport_of_read {d : Disk} {path : Path} {bytes : List UInt8}
    (h : d.read path = .ok bytes) : Report.openReport d path = .ok ⟨bytes, none⟩ := by
  unfold Disk.read at h
  unfold Report.openReport
  cases hopened : d.opened path with
  | error f => simp [hopened] at h
  | ok node =>
      rw [hopened] at h
      simp only [h]

namespace Analysis

variable {a : Analysis} {linter : LinterRunner κ} {sink : Sink σ} {k : κ} {d d' : Disk} {s : σ}
  {dir : Place}

/-- The disk with the rule set written and no report. -/
def prepared (a : Analysis) (dir : Place) (d : Disk) : Disk :=
  (d.put (Plan.ruleSetPlace dir) (.file (Utf8.ofString (ruleSet a.rules)))).erase
    (Plan.reportPlace dir)

theorem writeRuleSet_eq (work : a.plan.WorksIn d dir) :
    a.writeRuleSet d =
      .ok (d.put (Plan.ruleSetPlace dir) (.file (Utf8.ofString (ruleSet a.rules)))) := by
  have written := Disk.write_child work.leads Plan.isFileName_ruleSetName work.fits work.ruleSet
    (Utf8.ofString (ruleSet a.rules))
  rw [writeRuleSet, Plan.ruleSetPath, ← Plan.ruleSetName, written]
  rfl

theorem writeRuleSet_of_error {fault : Disk.Fault}
    (h : d.resolve true a.plan.ruleSetPath = .error fault) :
    a.writeRuleSet d = .error (.file a.plan.ruleSetPath fault) := by
  rw [writeRuleSet, Disk.write, h]
  rfl

/-- Whether there is an old report or not, behind its removal there is none. -/
theorem removeStale_eq (work : a.plan.WorksIn d dir) :
    a.removeStale d = .ok (d.erase (Plan.reportPlace dir)) := by
  rw [removeStale]
  cases hnode : d.node? (Plan.reportPlace dir) with
  | none =>
      have absent := Disk.present_child_of_none work.leads Plan.isFileName_reportName
        work.report_fits hnode
      rw [Plan.generatedReport, ← Plan.reportName, absent, Disk.erase_of_none hnode]
      rfl
  | some node =>
      obtain ⟨content, rfl⟩ := work.report node hnode
      have there := Disk.present_child_of_file work.leads Plan.isFileName_reportName
        work.report_fits hnode
      have removed := Disk.remove_child work.leads Plan.isFileName_reportName
        work.report_fits hnode
      rw [Plan.generatedReport, ← Plan.reportName, there, removed]
      rfl

theorem prepare_eq (made : d.mkdirs a.plan.workDir = (d', .ok ()))
    (work : a.plan.WorksIn d' dir) : a.prepare d = (a.prepared dir d', .ok ()) := by
  rw [prepare, made]
  simp only [writeRuleSet_eq work, removeStale_eq (work.put _)]
  rfl

/-- Where the work directory has been prepared, the rule set has been written
into it and the report removed from it. -/
theorem exists_prepared (h : a.prepare d = (d', .ok ()))
    (plain : a.plan.WorkFilesPlain (d.mkdirs a.plan.workDir).1) :
    ∃ dir, a.plan.WorksIn (d.mkdirs a.plan.workDir).1 dir ∧
      d' = a.prepared dir (d.mkdirs a.plan.workDir).1 := by
  obtain ⟨d₁, made, hmade⟩ : ∃ d₁ made, d.mkdirs a.plan.workDir = (d₁, made) := ⟨_, _, rfl⟩
  rw [hmade] at plain ⊢
  cases made with
  | error f => simp [prepare, hmade] at h
  | ok _ =>
      obtain ⟨target, htarget⟩ : ∃ target, d₁.resolve true a.plan.ruleSetPath = .ok target := by
        cases hresolve : d₁.resolve true a.plan.ruleSetPath with
        | ok target => exact ⟨target, rfl⟩
        | error fault => simp [prepare, hmade, writeRuleSet_of_error hresolve] at h
      obtain ⟨⟨dir, leads⟩, fits⟩ := Disk.exists_leadsInto Plan.isFileName_ruleSetName htarget
      have isDir : d₁.dirPlace? a.plan.workDir = some dir :=
        Disk.dirPlace_of_leadsInto leads
          (Nat.le_trans (Path.byteLength_le_child Plan.isFileName_ruleSetName.noSlash) fits)
      have work : a.plan.WorksIn d₁ dir := ⟨leads, fits, (plain dir isDir).1, (plain dir isDir).2⟩
      rw [prepare_eq hmade work] at h
      cases h
      exact ⟨dir, work, rfl⟩

/-- A disk on which the path of the rule set is too long is not prepared. -/
theorem prepare_of_long (isDir : d.dirPlace? a.plan.workDir = some dir)
    (long : Disk.maxPath < Utf8.byteLength a.plan.ruleSetPath.chars) :
    a.prepare d = (d, .error (.file a.plan.ruleSetPath .nameTooLong)) := by
  have tooLong := Disk.resolve_child_of_long (d := d) Plan.isFileName_ruleSetName
    (Disk.leadsInto_of_dirPlace isDir).1 long true
  rw [prepare, Disk.mkdirs_of_dirPlace isDir]
  simp only [writeRuleSet_of_error tooLong]

/-- Disks that differ in old work files are prepared to one disk, or none of them
is prepared and both stay as they are. -/
theorem prepare_congr (same : SameButWorkFiles a.plan.workDir dir d d') :
    (∃ d₁, a.prepare d = (d₁, .ok ()) ∧ a.prepare d' = (d₁, .ok ())) ∨
    (∃ e, a.prepare d = (d, .error e) ∧ a.prepare d' = (d', .error e)) := by
  by_cases fits : Utf8.byteLength a.plan.ruleSetPath.chars ≤ Disk.maxPath
  · have work : a.plan.WorksIn d dir :=
      ⟨Disk.leadsInto_of_dirPlace same.isDir, fits, same.ruleSet, same.report⟩
    have work' : a.plan.WorksIn d' dir :=
      ⟨Disk.leadsInto_of_dirPlace same.isDir', fits, same.ruleSet', same.report'⟩
    have one : a.prepared dir d = a.prepared dir d' := by
      have cwd : d.cwd = d'.cwd := by
        show ((d.erase (Plan.ruleSetPlace dir)).erase (Plan.reportPlace dir)).cwd = d'.cwd
        rw [same.rest]
        rfl
      rw [prepared, prepared, Disk.erase_put _ (Plan.ruleSetPlace_ne_reportPlace dir),
        Disk.erase_put _ (Plan.ruleSetPlace_ne_reportPlace dir), same.rest, cwd]
    exact .inl ⟨_, prepare_eq (Disk.mkdirs_of_dirPlace same.isDir) work,
      one ▸ prepare_eq (Disk.mkdirs_of_dirPlace same.isDir') work'⟩
  · have long := Nat.not_le.1 fits
    exact .inr ⟨_, prepare_of_long same.isDir long, prepare_of_long same.isDir' long⟩

/-- On the prepared disk there is no report, and the rule set is that of the
active rules. -/
theorem fresh_of_prepared (work : a.plan.WorksIn d dir) (after : Disk) (result : Except Failure Unit) :
    Invocation.Fresh ⟨a.prepared dir d, a.plan.request, after, result⟩ a := by
  have behind : a.plan.WorksIn (a.prepared dir d) dir := (work.put _).erase
  have noReport : (a.prepared dir d).node? (Plan.reportPlace dir) = none :=
    Disk.node?_erase_self _ work.report.ne_nil
  have written : (a.prepared dir d).node? (Plan.ruleSetPlace dir) =
      some (.file (Utf8.ofString (ruleSet a.rules))) := by
    rw [prepared, Disk.node?_erase_of_ne _ (Plan.ruleSetPlace_ne_reportPlace dir),
      Disk.node?_put_self _ _ work.ruleSet.ne_nil]
  exact {
    request := rfl
    noReport := Disk.find_child_of_none behind.leads Plan.isFileName_reportName
      behind.report_fits noReport false
    absent := Disk.present_child_of_none behind.leads Plan.isFileName_reportName
      behind.report_fits noReport
    ruleSet := Disk.read_child behind.leads Plan.isFileName_ruleSetName behind.fits written }

/-! ## Reading what the linter leaves -/

/-- The end of a run depends on the bytes of the report alone, but for the path
that is named in a failure. -/
theorem conclude_of_read {path path' : Path} {bytes : List UInt8} {k' : κ}
    (h : d.read path = .ok bytes) (h' : d'.read path' = .ok bytes) :
    a.conclude sink k' d' s path' =
      ⟨k', d', (a.conclude sink k d s path).sink, (a.conclude sink k d s path).warnings,
        (a.conclude sink k d s path).result.mapError (·.naming path')⟩ := by
  have reading : ∀ {d : Disk} {path : Path}, d.read path = .ok bytes →
      readReport d path = ((Report.readBytes bytes).warnings,
        (Report.readBytes bytes).violations.mapError (.report path)) := by
    intro d path h
    rw [readReport, Report.openReport_of_read h]
    rfl
  unfold conclude
  rw [reading h, reading h']
  cases (Report.readBytes bytes).violations <;> rfl

/-- Where the linter has left nothing, there are no violations. -/
theorem conclude_of_missing {path : Path} (h : d.opened path = .error .missing) :
    a.conclude sink k d s path = ⟨k, d, s, [], .ok (.completed {})⟩ := by
  have reading : readReport d path = ([], .ok []) := by
    rw [readReport, Report.openReport, h]
    rfl
  rw [conclude, reading]
  rfl

end Analysis

end GroovyFindings
