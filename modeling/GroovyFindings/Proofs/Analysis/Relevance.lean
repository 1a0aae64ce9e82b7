import GroovyFindings.Proofs.Analysis.Course
import GroovyFindings.Proofs.Issue.Ledger

/-!
# What an analysis does not look at

Of a profile an analysis looks at the rules of the linter's repository, and of
the tracked files at the Groovy files of the main sources; of all other files it
only asks whether one of them is in Groovy.  Two analyses that agree in this
much cannot be told apart by the linter, by the host or by their outcomes, at
whichever stage the rules and the files are looked up.

## Main definitions

* `Inserted` — a list with further elements anywhere in it.
* `Irrelevant` — a file that does not matter beside others.
* `Analysis.Alike` — analyses that look at the same things.
* `Analysis.Indistinguishable` — analyses that show the same.

## Main results

* `Ledger.transfer` — the account of violations is the same.
* `Analysis.Course.transfer`, `Analysis.Alike.run_eq` — so is the run.
* `irrelevant_input_changes_nothing` — rules and files that are not looked at
  change nothing.
-/

namespace GroovyFindings

variable {κ σ : Type}

/-! ## Further elements in a list -/

/-- The second list is the first one with further elements, anywhere in it, that
satisfy `extra`. -/
inductive Inserted {α : Type} (extra : α → Prop) : List α → List α → Prop
  | nil : Inserted extra [] []
  | kept {x : α} {xs ys : List α} (h : Inserted extra xs ys) :
      Inserted extra (x :: xs) (x :: ys)
  | added {x : α} {xs ys : List α} (hx : extra x) (h : Inserted extra xs ys) :
      Inserted extra xs (x :: ys)

namespace Inserted

variable {α : Type} {extra : α → Prop} {xs ys : List α}

/-- A filter that lets none of the further elements through does not see them. -/
theorem filter_eq (h : Inserted extra xs ys) {keep : α → Bool}
    (drops : ∀ x, extra x → keep x = false) : xs.filter keep = ys.filter keep := by
  induction h with
  | nil => rfl
  | kept h ih => rw [List.filter_cons, List.filter_cons, ih]
  | @added x xs ys hx h ih => rw [ih, List.filter_cons_of_neg (by simp [drops x hx])]

theorem subset (h : Inserted extra xs ys) : xs ⊆ ys := by
  induction h with
  | nil => exact List.Subset.refl _
  | kept h ih => exact List.cons_subset_cons _ ih
  | added hx h ih => exact List.subset_cons_of_subset _ ih

theorem mem_or_extra (h : Inserted extra xs ys) {y : α} (hy : y ∈ ys) : y ∈ xs ∨ extra y := by
  induction h with
  | nil => exact .inl hy
  | kept h ih =>
      cases List.mem_cons.1 hy with
      | inl first => exact .inl (first ▸ List.mem_cons_self)
      | inr later => exact (ih later).imp_left (List.mem_cons_of_mem _)
  | added hx h ih =>
      cases List.mem_cons.1 hy with
      | inl first => exact .inr (first ▸ hx)
      | inr later => exact ih later

end Inserted

/-- Beside the given files a file does not matter if it is not in Groovy, or if
it belongs to the tests and one of the others is in Groovy. -/
def Irrelevant (files : List TrackedFile) (f : TrackedFile) : Prop :=
  f.language ≠ some groovyLanguage ∨
    f.kind = .test ∧ ∃ g ∈ files, g.language = some groovyLanguage

section Irrelevant

variable {files files' : List TrackedFile}

theorem hasGroovy_iff :
    hasGroovy files = true ↔ ∃ f ∈ files, f.language = some groovyLanguage := by
  simp [hasGroovy, TrackedFile.isGroovy]

theorem groovySources_of_inserted (h : Inserted (Irrelevant files) files files') :
    groovySources files = groovySources files' := by
  apply h.filter_eq
  intro f irrelevant
  cases irrelevant with
  | inl other => simp [TrackedFile.isGroovy, other]
  | inr test => simp [test.1]

theorem hasGroovy_of_inserted (h : Inserted (Irrelevant files) files files') :
    hasGroovy files = hasGroovy files' := by
  rw [Bool.eq_iff_iff, hasGroovy_iff, hasGroovy_iff]
  constructor
  · intro ⟨f, hf, groovy⟩
    exact ⟨f, h.subset hf, groovy⟩
  · intro ⟨f, hf, groovy⟩
    cases h.mem_or_extra hf with
    | inl there => exact ⟨f, there, groovy⟩
    | inr irrelevant =>
        cases irrelevant with
        | inl other => exact absurd groovy other
        | inr test => exact test.2

end Irrelevant

theorem inRepository_of_inserted {profile profile' : List ActiveRule} {repository : String}
    (h : Inserted (·.ref.repository ≠ repository) profile profile') :
    inRepository profile repository = inRepository profile' repository := by
  apply h.filter_eq
  intro rule other
  simp [other]

/-! ## The same rules and sources -/

/-- Catalogs with the same rules and the same Groovy sources. -/
structure Catalog.Alike (c c' : Catalog) : Prop where
  rules : c.rules = c'.rules
  sources : groovySources c.files = groovySources c'.files

section Catalog

variable {c c' : Catalog} {sink : Sink σ} {s t : σ}

/-- Whatever path is reported, files that are no sources do not change what it
means. -/
theorem Catalog.Alike.fileFor?_eq (alike : c.Alike c') (reported : String) :
    fileFor? c.files reported = fileFor? c'.files reported := by
  simp only [fileFor?, alike.sources]

theorem Entry.Justified.transfer {e : Entry σ} (h : e.Justified c sink) (alike : c.Alike c') :
    e.Justified c' sink := by
  cases h with
  | unknownRule unnamed => exact .unknownRule (alike.rules ▸ unnamed)
  | unknownFile named untracked =>
      exact .unknownFile (alike.rules ▸ named) (alike.fileFor?_eq _ ▸ untracked)
  | unattached named tracked declined =>
      exact .unattached (alike.rules ▸ named) (alike.fileFor?_eq _ ▸ tracked) declined
  | emitted named tracked taken =>
      exact .emitted (alike.rules ▸ named) (alike.fileFor?_eq _ ▸ tracked) taken

/-- The account of violations, with all that the host is asked and handed. -/
theorem Ledger.transfer {entries : List (Entry σ)} (h : Ledger c sink s entries t)
    (alike : c.Alike c') : Ledger c' sink s entries t := by
  induction h with
  | nil => exact .nil
  | cons justified following ih => exact .cons (justified.transfer alike) ih

theorem Catalog.Alike.process_eq (alike : c.Alike c') (vs : List Report.Violation) :
    c.process sink s vs = c'.process sink s vs := by
  obtain ⟨entries, t, ledger, rfl⟩ := exists_ledger c sink s vs
  rw [ledger.process_eq, (ledger.transfer alike).process_eq]

end Catalog

/-! ## The same run -/

namespace Analysis

/-- Analyses with the same plan, the same rules and the same Groovy sources that
agree on whether there is a Groovy file. -/
structure Alike (a a' : Analysis) : Prop where
  plan : a.plan = a'.plan
  rules : a.rules = a'.rules
  sources : groovySources a.files = groovySources a'.files
  groovy : hasGroovy a.files = hasGroovy a'.files

namespace Alike

variable {a a' : Analysis} {linter : LinterRunner κ} {sink : Sink σ} {k : κ} {d : Disk} {s : σ}

theorem symm (alike : a.Alike a') : a'.Alike a :=
  ⟨alike.plan.symm, alike.rules.symm, alike.sources.symm, alike.groovy.symm⟩

theorem catalog (alike : a.Alike a') : a.catalog.Alike a'.catalog := ⟨alike.rules, alike.sources⟩

/-- The gate looks at all rules and at the files of every kind. -/
theorem wanted_eq (alike : a.Alike a') : a.wanted = a'.wanted := by
  rw [wanted, wanted, alike.rules, alike.groovy]

/-- The rule set is written, and an old report removed, without a look at the
files. -/
theorem prepare_eq (alike : a.Alike a') : a.prepare d = a'.prepare d := by
  simp only [prepare, writeRuleSet, removeStale, alike.plan, alike.rules]

theorem conclude_eq (alike : a.Alike a') (path : Path) :
    a.conclude sink k d s path = a'.conclude sink k d s path := by
  simp only [conclude, alike.catalog.process_eq]

end Alike

variable {a a' : Analysis} {linter : LinterRunner κ} {sink : Sink σ} {k : κ} {d : Disk} {s : σ}

/-- The other analysis takes the same course, with the same invocations of the
linter. -/
theorem Course.transfer {calls : List Invocation} {r : Run κ σ}
    (h : a.Course linter sink k d s calls r) (alike : a.Alike a') :
    a'.Course linter sink k d s calls r := by
  cases h with
  | skipped unwanted => exact .skipped (alike.wanted_eq ▸ unwanted)
  | told wanted configured =>
      rw [alike.conclude_eq]
      exact .told (alike.wanted_eq ▸ wanted) (alike.plan ▸ configured)
  | unprepared wanted fresh prepared =>
      exact .unprepared (alike.wanted_eq ▸ wanted) (alike.plan ▸ fresh)
        (alike.prepare_eq ▸ prepared)
  | failed wanted fresh prepared ended =>
      rw [alike.plan] at fresh ended ⊢
      exact .failed (alike.wanted_eq ▸ wanted) fresh (alike.prepare_eq ▸ prepared) ended
  | reported wanted fresh prepared ended =>
      rw [alike.conclude_eq]
      rw [alike.plan] at fresh ended ⊢
      exact .reported (alike.wanted_eq ▸ wanted) fresh (alike.prepare_eq ▸ prepared) ended

theorem Alike.run_eq (alike : a.Alike a') (linter : LinterRunner κ) (sink : Sink σ) (k : κ)
    (d : Disk) (s : σ) : a.run linter sink k d s = a'.run linter sink k d s := by
  obtain ⟨calls, course⟩ := exists_course a linter sink k d s
  exact (course.transfer alike).run_eq.symm

/-- Analyses that show the same to everyone. -/
structure Indistinguishable (a a' : Analysis) : Prop where
  /-- Both take place, or neither does. -/
  decision : a.wanted = a'.wanted
  /-- The linter is started with the same requests, on the same disks with the same
  rule set on them. -/
  requests : ∀ {κ σ : Type} (linter : LinterRunner κ) (sink : Sink σ) (k : κ) (d : Disk) (s : σ),
    (a.run linter.recording sink (k, []) d s).linter.2 =
      (a'.run linter.recording sink (k, []) d s).linter.2
  /-- The host is asked about the same files and handed the same issues, whatever
  the violations are. -/
  accounts : ∀ {σ : Type} (sink : Sink σ) (s : σ) (entries : List (Entry σ)) (t : σ),
    Ledger a.catalog sink s entries t ↔ Ledger a'.catalog sink s entries t
  /-- The host is handed the same issues in the end. -/
  issues : ∀ {κ σ : Type} (linter : LinterRunner κ) (sink : Sink σ) (k : κ) (d : Disk) (s : σ),
    (a.run linter sink.recording k d (s, [])).sink.2 =
      (a'.run linter sink.recording k d (s, [])).sink.2
  /-- The outcome is the same, and so is all that is left behind. -/
  run : ∀ {κ σ : Type} (linter : LinterRunner κ) (sink : Sink σ) (k : κ) (d : Disk) (s : σ),
    a.run linter sink k d s = a'.run linter sink k d s

theorem Alike.indistinguishable (alike : a.Alike a') : a.Indistinguishable a' where
  decision := alike.wanted_eq
  requests linter sink k d s := by rw [alike.run_eq]
  accounts sink s entries t :=
    ⟨fun h => h.transfer alike.catalog, fun h => h.transfer alike.symm.catalog⟩
  issues linter sink k d s := by rw [alike.run_eq]
  run linter sink k d s := alike.run_eq linter sink k d s

end Analysis

/-- **Irrelevant rules and files cannot influence a run.**  Analyses of one plan
are indistinguishable if their profiles have the same rules of the linter's
repository, in the same order, and their files the same Groovy sources, and if
they agree on whether there is a Groovy file.  So rules of other repositories,
files in other languages, and tests in Groovy beside another Groovy file may be
inserted anywhere. -/
theorem irrelevant_input_changes_nothing (plan : Plan) :
    (∀ profile profile' files files',
      inRepository profile linterRepository = inRepository profile' linterRepository →
      groovySources files = groovySources files' → hasGroovy files = hasGroovy files' →
      (Analysis.ofProfile plan profile files).Indistinguishable
        (.ofProfile plan profile' files')) ∧
    (∀ profile profile' files files',
      Inserted (·.ref.repository ≠ linterRepository) profile profile' →
      Inserted (Irrelevant files) files files' →
      (Analysis.ofProfile plan profile files).Indistinguishable
        (.ofProfile plan profile' files')) := by
  have general : ∀ profile profile' files files',
      inRepository profile linterRepository = inRepository profile' linterRepository →
      groovySources files = groovySources files' → hasGroovy files = hasGroovy files' →
      (Analysis.ofProfile plan profile files).Indistinguishable
        (.ofProfile plan profile' files') := by
    intro profile profile' files files' rules sources groovy
    exact Analysis.Alike.indistinguishable ⟨rfl, rules, sources, groovy⟩
  refine ⟨general, ?_⟩
  intro profile profile' files files' rules others
  exact general profile profile' files files' (inRepository_of_inserted rules)
    (groovySources_of_inserted others) (hasGroovy_of_inserted others)

/-- A rule of another repository that has the same name, a test that has the same
path and a text are put in front of and behind what matters. -/
theorem irrelevant_input_changes_nothing_around :
    let plan : Plan := ⟨none, [], .ofString "/w", "", ""⟩
    let ours : ActiveRule := ⟨⟨linterRepository, "E"⟩, "org.E", "E", .minor, .empty⟩
    let other : ActiveRule := ⟨⟨"other", "E"⟩, "org.E", "E", .major, .empty⟩
    let source : TrackedFile := ⟨"A", .ofString "/p/A", some groovyLanguage, .main⟩
    let test : TrackedFile := ⟨"A", .ofString "/t/A", some groovyLanguage, .test⟩
    let text : TrackedFile := ⟨"A", .ofString "/p/A", none, .main⟩
    Inserted (·.ref.repository ≠ linterRepository) [ours] [other, ours, other] ∧
    Inserted (Irrelevant [source]) [source] [test, text, source, test] ∧
    (Analysis.ofProfile plan [ours] [source]).Indistinguishable
      (.ofProfile plan [other, ours, other] [test, text, source, test]) := by
  intro plan ours other source test text
  have foreign : other.ref.repository ≠ linterRepository := by decide
  have noSource : Irrelevant [source] test := .inr ⟨rfl, source, List.mem_singleton_self _, rfl⟩
  have noGroovy : Irrelevant [source] text := .inl (by decide)
  have rules : Inserted (·.ref.repository ≠ linterRepository) [ours] [other, ours, other] :=
    .added foreign (.kept (.added foreign .nil))
  have files : Inserted (Irrelevant [source]) [source] [test, text, source, test] :=
    .added noSource (.added noGroovy (.kept (.added noSource .nil)))
  exact ⟨rules, files, (irrelevant_input_changes_nothing plan).2 _ _ _ _ rules files⟩

end GroovyFindings
