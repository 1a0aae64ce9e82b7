import GroovyFindings.Analysis.Basic
import GroovyFindings.Proofs.Issue.Ledger
import GroovyFindings.Proofs.Source.Found

/-!
# No finding is dropped

A violation that names an active rule and spells the relative path of a source
is handed to the host, whichever other rules and files there are: the searches
for its rule and for its file may find others than the ones it was made of, but
they find some.  Only the host can decline it then.

In the other direction, what the host is handed names a rule that is active for
the linter and a Groovy file of the main sources.

## Main definitions

* `Traceable` — a violation of an active rule in a source.

## Main results

* `Entry.Justified.emitted_or_unattached` — what becomes of a violation whose
  rule and file are found.
* `Entry.Justified.exists_names` — what an issue names.
* `process_drops_no_finding` — both, over a whole report.
-/

namespace GroovyFindings

variable {σ : Type} {c : Catalog} {sink : Sink σ} {e : Entry σ}

/-- The violation names the rule, which is active for the linter, and spells the
relative path of the file, which is a Groovy file of the main sources. -/
structure Traceable (profile : List ActiveRule) (files : List TrackedFile)
    (v : Report.Violation) (r : ActiveRule) (f : TrackedFile) : Prop where
  active : r ∈ profile
  ours : r.ref.repository = linterRepository
  named : v.ruleKey = r.configKey ∨ v.ruleKey = r.name
  tracked : f ∈ files
  groovy : f.language = some groovyLanguage
  main : f.kind = .main
  plain : PlainRelative f.relative.toList
  reported : ReportedAs f.relative v.file

/-- The rules that an analysis of a profile goes by. -/
theorem mem_inRepository {profile : List ActiveRule} {repository : String} {r : ActiveRule} :
    r ∈ inRepository profile repository ↔ r ∈ profile ∧ r.ref.repository = repository := by
  rw [inRepository, List.mem_filter, beq_iff_eq]

/-- A violation whose rule and file are found is handed over, or the host
declines the file that is found. -/
theorem Entry.Justified.emitted_or_unattached (h : e.Justified c sink)
    (named : ∃ r ∈ c.rules, r.configKey = e.violation.ruleKey ∨ r.name = e.violation.ruleKey)
    (tracked : ∃ g, fileFor? c.files e.violation.file = some g) :
    e.emission = .emitted ∨ e.emission = .unattached ∧
      ∃ g, fileFor? c.files e.violation.file = some g ∧ sink.accepts e.state g = false := by
  cases h with
  | unknownRule unnamed =>
      obtain ⟨r, hr, hkey⟩ := named
      have other := unnamed r hr
      cases hkey with
      | inl config => exact absurd config other.1
      | inr name => exact absurd name other.2
  | unknownFile _ untracked =>
      obtain ⟨g, hg⟩ := tracked
      exact absurd (untracked.symm.trans hg) (by simp)
  | @unattached s v r g _ found declined => exact .inr ⟨rfl, g, found, declined⟩
  | emitted => exact .inl rfl

/-- An issue names an active rule and a source. -/
theorem Entry.Justified.exists_names (h : e.Justified c sink) {issue : Issue}
    (handed : e.issue = some issue) :
    ∃ r ∈ c.rules, ∃ f ∈ groovySources c.files,
      issue.rule = r.ref ∧ issue.severity = r.severity ∧
        issue.file = f.relative ∧ issue.absolute = f.absolute := by
  cases h with
  | unknownRule => cases handed
  | unknownFile => cases handed
  | unattached => cases handed
  | @emitted s v r f named found _ =>
      cases handed
      obtain ⟨before, after, hrules, -⟩ := named
      have active : r ∈ c.rules := by simp [hrules]
      exact ⟨r, active, f, mem_of_fileFor?_eq_some found, rfl, rfl, rfl, rfl⟩

/-- What is traceable has a rule and a file that are found. -/
theorem Traceable.exists_found {profile : List ActiveRule} {files : List TrackedFile}
    {v : Report.Violation} {r : ActiveRule} {f : TrackedFile} (h : Traceable profile files v r f)
    (plan : Plan) :
    (∃ r ∈ (Analysis.ofProfile plan profile files).catalog.rules,
      r.configKey = v.ruleKey ∨ r.name = v.ruleKey) ∧
    ∃ g ∈ groovySources files, fileFor? files v.file = some g := by
  constructor
  · exact ⟨r, mem_inRepository.2 ⟨h.active, h.ours⟩, h.named.imp Eq.symm Eq.symm⟩
  · have mem : f ∈ groovySources files := mem_groovySources.2 ⟨h.tracked, h.groovy, h.main⟩
    exact exists_fileFor?_of_reportedAs mem h.plain h.reported

/-- **No finding about a tracked file and an active rule is dropped.**  A run has
a ledger whose counts are its own, and in it every violation of an active rule in
a source was handed to the host, or declined by it for the file that was found;
none counts as unknown.  And whatever the host was handed names a rule that is
active for the linter and a Groovy file of the main sources. -/
theorem process_drops_no_finding (plan : Plan) (profile : List ActiveRule)
    (files : List TrackedFile) (sink : Sink σ) (s : σ) (vs : List Report.Violation) :
    let c := (Analysis.ofProfile plan profile files).catalog
    (∃ entries : List (Entry σ),
      Ledger c sink s entries (c.process sink s vs).1 ∧
      entries.map (·.violation) = vs ∧
      (c.process sink s vs).2 =
        { violations := vs.length
          issues := (entries.map (·.emission)).count .emitted
          unknownRules := (entries.map (·.emission)).count .unknownRule
          unknownFiles := (entries.map (·.emission)).count .unknownFile
          unattached := (entries.map (·.emission)).count .unattached } ∧
      ∀ e ∈ entries, ∀ r f, Traceable profile files e.violation r f →
        e.emission = .emitted ∨ e.emission = .unattached ∧
          ∃ g ∈ files, fileFor? files e.violation.file = some g ∧
            sink.accepts e.state g = false) ∧
    ∀ issue ∈ (c.process sink.recording (s, []) vs).1.2,
      ∃ r ∈ profile, r.ref.repository = linterRepository ∧ issue.rule = r.ref ∧
        issue.severity = r.severity ∧
        ∃ f ∈ files, f.language = some groovyLanguage ∧ f.kind = .main ∧
          issue.file = f.relative ∧ issue.absolute = f.absolute := by
  intro c
  obtain ⟨entries, t, ledger, rfl⟩ := exists_ledger c sink s vs
  constructor
  · rw [ledger.process_counted]
    refine ⟨entries, ledger, rfl, by rw [List.length_map], ?_⟩
    intro e he r f traceable
    obtain ⟨named, g, source, found⟩ := traceable.exists_found plan
    have outcome := (ledger.justified e he).emitted_or_unattached named ⟨g, found⟩
    refine outcome.imp_right fun ⟨unattached, g', found', declined⟩ => ?_
    have tracked := (mem_groovySources.1 (mem_of_fileFor?_eq_some found')).1
    exact ⟨unattached, g', tracked, found', declined⟩
  · intro issue mem
    rw [ledger.process_recording] at mem
    obtain ⟨e, he, handed⟩ := List.mem_filterMap.1 mem
    obtain ⟨r, hr, f, hf, hrule, hseverity, hfile, habsolute⟩ :=
      (ledger.justified e he).exists_names handed
    have active := mem_inRepository.1 hr
    have source := mem_groovySources.1 hf
    exact ⟨r, active.1, active.2, hrule, hseverity, f, source.1, source.2.1, source.2.2, hfile,
      habsolute⟩

/-! ## A path behind dots and slashes -/

/-- The rule of another repository comes first, and the file of the tests has the
shorter path; the violation is counted as an issue all the same, and the one issue
names the rule and the source. -/
theorem process_drops_no_finding_behind_dots :
    let ours : ActiveRule := ⟨⟨linterRepository, "E"⟩, "org.E", "E", .minor, .empty⟩
    let other : ActiveRule := ⟨⟨"other", "E"⟩, "org.E", "E", .major, .empty⟩
    let source : TrackedFile := ⟨"a/A", .ofString "/p/a/A", some groovyLanguage, .main⟩
    let test : TrackedFile := ⟨"A", .ofString "/t/a/A", some groovyLanguage, .test⟩
    let v : Report.Violation := ⟨"org.E", "/.//./a/A", none, ""⟩
    let plan : Plan := ⟨none, [], .ofString "/w", "", ""⟩
    let c := (Analysis.ofProfile plan [other, ours] [test, source]).catalog
    Traceable [other, ours] [test, source] v ours source ∧
    (c.process .all [] [v]).2 = ⟨1, 1, 0, 0, 0⟩ ∧
    ∃ issue, (c.process (Sink.recording .all) ([], []) [v]).1.2 = [issue] ∧
      issue.rule = ours.ref ∧ issue.severity = ours.severity ∧
      issue.file = source.relative ∧ issue.absolute = source.absolute := by
  intro ours other source test v plan c
  have traceable : Traceable [other, ours] [test, source] v ours source := {
    active := by simp
    ours := rfl
    named := .inl rfl
    tracked := by simp
    groovy := rfl
    main := rfl
    plain := ⟨by decide, by decide, by decide, by simp [source]⟩
    reported := .behind "/.//." }
  obtain ⟨⟨entries, ledger, violations, counts, outcome⟩, names⟩ :=
    process_drops_no_finding plan [other, ours] [test, source] .all [] [v]
  obtain ⟨e, rfl, hv⟩ := List.map_eq_singleton_iff.1 violations
  have emitted : e.emission = .emitted := by
    cases outcome e List.mem_cons_self ours source (hv ▸ traceable) with
    | inl emitted => exact emitted
    | inr unattached =>
        obtain ⟨-, g, -, -, declined⟩ := unattached
        exact absurd declined (by simp [Sink.all])
  have recorded := ledger.process_recording
  rw [violations] at recorded
  have one : ([e].filterMap (·.issue)).length = 1 := by
    rw [ledger.length_issues, List.map_singleton, emitted]
    rfl
  obtain ⟨issue, single⟩ := List.length_eq_one_iff.1 one
  have record : (c.process (Sink.recording .all) ([], []) [v]).1.2 = [issue] := by
    rw [recorded]
    exact single
  obtain ⟨r, hr, repository, hrule, hseverity, f, hf, -, main, hfile, habsolute⟩ :=
    names issue (record ▸ List.mem_singleton_self issue)
  -- The other rule is not one of the linter, and the other file is one of the tests.
  obtain rfl : r = ours := by
    obtain rfl | hr := List.mem_cons.1 hr
    · exact absurd repository (by decide)
    · exact List.mem_singleton.1 hr
  obtain rfl : f = source := by
    obtain rfl | hf := List.mem_cons.1 hf
    · cases main
    · exact List.mem_singleton.1 hf
  refine ⟨traceable, ?_, issue, record, hrule, hseverity, hfile, habsolute⟩
  rw [counts, List.map_singleton, emitted]
  rfl

end GroovyFindings
