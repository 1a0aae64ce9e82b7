import GroovyFindings.Issue.Tally

/-!
# The account of a report's violations

Turning violations into issues keeps no books but five counters.  This file
keeps them: a ledger has one entry for each violation, which says how the
violation found the sink, what became of it and why, which file the sink was
asked about and which issue it was handed.  Every run has a ledger, and a
ledger determines the run.

What an entry says about the sink is what the run does with it.  A sink that
records what it is handed ends up with the issues of the entries, and a sink
that would answer other questions differently makes no difference.

## Main definitions

* `FirstNamed` — the rule that a key means.
* `Entry`, `Entry.Justified` — one line of the account, and when it is right.
* `Ledger` — the account of a run.
* `Sink.recording` — a sink that keeps what it is handed.

## Main results

* `exists_ledger`, `Ledger.process_eq` — every run has a ledger, which
  determines it.
* `process_accounts_for_each` — every violation is accounted for once.
-/

namespace GroovyFindings

variable {σ : Type}

/-! ## The rule that a key means -/

/-- `r` is the first of the rules that has `key` as its class or as its
name. -/
def FirstNamed (rules : List ActiveRule) (key : String) (r : ActiveRule) : Prop :=
  ∃ before after, rules = before ++ r :: after ∧ (r.configKey = key ∨ r.name = key) ∧
    ∀ q ∈ before, q.configKey ≠ key ∧ q.name ≠ key

theorem ActiveRule.answersTo_eq_true {r : ActiveRule} {key : String} :
    r.answersTo key = true ↔ r.configKey = key ∨ r.name = key := by
  simp [answersTo]

theorem ActiveRule.answersTo_eq_false {r : ActiveRule} {key : String} :
    r.answersTo key = false ↔ r.configKey ≠ key ∧ r.name ≠ key := by
  simp [answersTo]

theorem ruleFor?_eq_some_iff {rules : List ActiveRule} {key : String} {r : ActiveRule} :
    ruleFor? rules key = some r ↔ FirstNamed rules key r := by
  simp only [ruleFor?, List.find?_eq_some_iff_append, ActiveRule.answersTo_eq_true,
    Bool.not_eq_true', ActiveRule.answersTo_eq_false, FirstNamed]
  constructor
  · rintro ⟨named, before, after, rfl, unnamed⟩
    exact ⟨before, after, rfl, named, unnamed⟩
  · rintro ⟨before, after, rfl, named, unnamed⟩
    exact ⟨named, before, after, rfl, unnamed⟩

theorem ruleFor?_eq_none_iff {rules : List ActiveRule} {key : String} :
    ruleFor? rules key = none ↔ ∀ r ∈ rules, r.configKey ≠ key ∧ r.name ≠ key := by
  simp only [ruleFor?, List.find?_eq_none, Bool.not_eq_true, ActiveRule.answersTo_eq_false]

/-! ## Counting -/

theorem foldl_count (emissions : List Emission) (m : Summary) :
    emissions.foldl Summary.count m =
      { violations := m.violations + emissions.length
        issues := m.issues + emissions.count .emitted
        unknownRules := m.unknownRules + emissions.count .unknownRule
        unknownFiles := m.unknownFiles + emissions.count .unknownFile
        unattached := m.unattached + emissions.count .unattached } := by
  induction emissions generalizing m with
  | nil => rfl
  | cons e emissions ih =>
      rw [List.foldl_cons, ih]
      cases e <;> simp [Summary.count] <;> omega

/-- Nothing but the four things can become of a violation. -/
theorem length_eq_counts (emissions : List Emission) :
    emissions.length = emissions.count .emitted + emissions.count .unknownRule +
      emissions.count .unknownFile + emissions.count .unattached := by
  induction emissions with
  | nil => rfl
  | cons e emissions ih => cases e <;> simp [ih] <;> omega

/-! ## One entry -/

/-- One line of the account. -/
structure Entry (σ : Type) where
  /-- How the violation found the sink. -/
  state : σ
  violation : Report.Violation
  emission : Emission
  /-- The file that the sink was asked about. -/
  asked : Option TrackedFile
  /-- What the sink was handed. -/
  issue : Option Issue

namespace Entry

/-- The sink behind an entry. -/
def behind (sink : Sink σ) (e : Entry σ) : σ := e.issue.elim e.state (sink.accept e.state)

/-- When an entry is right.  A rule that is not active decides whatever the
file is, and the sink is asked only if both have been found. -/
inductive Justified (c : Catalog) (sink : Sink σ) : Entry σ → Prop
  | unknownRule {s : σ} {v : Report.Violation}
      (unnamed : ∀ r ∈ c.rules, r.configKey ≠ v.ruleKey ∧ r.name ≠ v.ruleKey) :
      Justified c sink ⟨s, v, .unknownRule, none, none⟩
  | unknownFile {s : σ} {v : Report.Violation} {r : ActiveRule}
      (named : FirstNamed c.rules v.ruleKey r)
      (untracked : fileFor? c.files v.file = none) :
      Justified c sink ⟨s, v, .unknownFile, none, none⟩
  | unattached {s : σ} {v : Report.Violation} {r : ActiveRule} {f : TrackedFile}
      (named : FirstNamed c.rules v.ruleKey r)
      (tracked : fileFor? c.files v.file = some f)
      (declined : sink.accepts s f = false) :
      Justified c sink ⟨s, v, .unattached, some f, none⟩
  | emitted {s : σ} {v : Report.Violation} {r : ActiveRule} {f : TrackedFile}
      (named : FirstNamed c.rules v.ruleKey r)
      (tracked : fileFor? c.files v.file = some f)
      (taken : sink.accepts s f = true) :
      Justified c sink ⟨s, v, .emitted, some f, some
        { rule := r.ref
          severity := r.severity
          file := f.relative
          absolute := f.absolute
          line := v.line
          message := if Text.isBlankText v.message then r.name else v.message }⟩

variable {c : Catalog} {sink : Sink σ} {e : Entry σ}

/-- A right entry says what offering the violation does. -/
theorem Justified.offer_eq (h : e.Justified c sink) :
    c.offer sink e.state e.violation = (e.behind sink, e.emission) := by
  cases h with
  | unknownRule unnamed =>
      have hrule := ruleFor?_eq_none_iff.2 unnamed
      simp [Catalog.offer, hrule, emit, behind]
  | unknownFile named untracked =>
      have hrule := ruleFor?_eq_some_iff.2 named
      simp [Catalog.offer, hrule, untracked, emit, behind]
  | unattached named tracked declined =>
      have hrule := ruleFor?_eq_some_iff.2 named
      simp [Catalog.offer, hrule, tracked, emit, declined, behind]
  | emitted named tracked taken =>
      have hrule := ruleFor?_eq_some_iff.2 named
      simp [Catalog.offer, hrule, tracked, emit, taken, behind, Issue.of]

/-- Every violation has a right entry, whatever the sink is. -/
theorem exists_justified (c : Catalog) (sink : Sink σ) (s : σ) (v : Report.Violation) :
    ∃ e : Entry σ, e.Justified c sink ∧ e.state = s ∧ e.violation = v := by
  cases hrule : ruleFor? c.rules v.ruleKey with
  | none => exact ⟨_, .unknownRule (ruleFor?_eq_none_iff.1 hrule), rfl, rfl⟩
  | some r =>
      have named := ruleFor?_eq_some_iff.1 hrule
      cases hfile : fileFor? c.files v.file with
      | none => exact ⟨_, .unknownFile named hfile, rfl, rfl⟩
      | some f =>
          cases hsink : sink.accepts s f with
          | false => exact ⟨_, .unattached named hfile hsink, rfl, rfl⟩
          | true => exact ⟨_, .emitted named hfile hsink, rfl, rfl⟩

/-- An issue is handed over where the account says so. -/
theorem Justified.isSome_issue (h : e.Justified c sink) :
    e.issue.isSome = (e.emission == .emitted) := by
  cases h <;> rfl

/-- An entry is as right for any sink that gives the same answer to the
question it was asked. -/
theorem Justified.congr {sink' : Sink σ} (h : e.Justified c sink)
    (same : ∀ f, e.asked = some f → sink'.accepts e.state f = sink.accepts e.state f) :
    e.Justified c sink' := by
  cases h with
  | unknownRule unnamed => exact .unknownRule unnamed
  | unknownFile named untracked => exact .unknownFile named untracked
  | unattached named tracked declined =>
      exact .unattached named tracked ((same _ rfl).trans declined)
  | emitted named tracked taken =>
      exact .emitted named tracked ((same _ rfl).trans taken)

end Entry

/-! ## The account of a run -/

/-- The account of a run from one state of the sink to another: its entries
are right, and each finds the sink as the one before has left it. -/
inductive Ledger (c : Catalog) (sink : Sink σ) : σ → List (Entry σ) → σ → Prop
  | nil {s : σ} : Ledger c sink s [] s
  | cons {e : Entry σ} {entries : List (Entry σ)} {t : σ} (justified : e.Justified c sink)
      (following : Ledger c sink (e.behind sink) entries t) :
      Ledger c sink e.state (e :: entries) t

variable {c : Catalog} {sink : Sink σ} {s t : σ} {entries : List (Entry σ)}

theorem exists_ledger (c : Catalog) (sink : Sink σ) (s : σ) (vs : List Report.Violation) :
    ∃ entries t, Ledger c sink s entries t ∧ entries.map (·.violation) = vs := by
  induction vs generalizing s with
  | nil => exact ⟨[], s, .nil, rfl⟩
  | cons v vs ih =>
      obtain ⟨e, justified, rfl, rfl⟩ := Entry.exists_justified c sink s v
      obtain ⟨entries, t, following, rfl⟩ := ih (e.behind sink)
      exact ⟨e :: entries, t, .cons justified following, rfl⟩

namespace Ledger

/-- The counts grow from any beginning as the account says. -/
private theorem foldl_offer_eq (h : Ledger c sink s entries t) (m : Summary) :
    (entries.map (·.violation)).foldl
        (fun acc v => ((c.offer sink acc.1 v).1, acc.2.count (c.offer sink acc.1 v).2))
        (s, m) =
      (t, (entries.map (·.emission)).foldl Summary.count m) := by
  induction h generalizing m with
  | nil => rfl
  | cons justified following ih =>
      simp only [List.map_cons, List.foldl_cons, justified.offer_eq]
      exact ih _

/-- A ledger determines the run. -/
theorem process_eq (h : Ledger c sink s entries t) :
    c.process sink s (entries.map (·.violation)) =
      (t, (entries.map (·.emission)).foldl Summary.count {}) :=
  h.foldl_offer_eq {}

/-- The sink has taken the issues of the entries, one after the other. -/
theorem foldl_accept_eq (h : Ledger c sink s entries t) :
    (entries.filterMap (·.issue)).foldl sink.accept s = t := by
  induction h with
  | nil => rfl
  | @cons e entries t justified following ih =>
      cases hissue : e.issue with
      | none => simpa [hissue, Entry.behind] using ih
      | some issue => simpa [hissue, Entry.behind] using ih

/-- There are as many issues as violations that were emitted. -/
theorem length_issues (h : Ledger c sink s entries t) :
    (entries.filterMap (·.issue)).length = (entries.map (·.emission)).count .emitted := by
  induction h with
  | nil => rfl
  | @cons e entries t justified following ih =>
      have hsome := justified.isSome_issue
      cases hissue : e.issue with
      | none => simp_all
      | some issue => simp_all

/-- Every entry of a ledger is right. -/
theorem justified (h : Ledger c sink s entries t) : ∀ e ∈ entries, e.Justified c sink := by
  induction h with
  | nil => simp
  | cons justified following ih =>
      intro e he
      cases List.mem_cons.1 he with
      | inl first => exact first ▸ justified
      | inr later => exact ih e later

/-- The counts of a run are those of its ledger. -/
theorem process_counted (h : Ledger c sink s entries t) :
    c.process sink s (entries.map (·.violation)) =
      (t, { violations := entries.length
            issues := (entries.map (·.emission)).count .emitted
            unknownRules := (entries.map (·.emission)).count .unknownRule
            unknownFiles := (entries.map (·.emission)).count .unknownFile
            unattached := (entries.map (·.emission)).count .unattached }) := by
  rw [h.process_eq, foldl_count]
  simp only [Nat.zero_add, List.length_map]

/-- The account holds of any sink that takes issues alike and answers the
questions of the account alike. -/
theorem congr {sink' : Sink σ} (h : Ledger c sink s entries t)
    (accept : sink'.accept = sink.accept)
    (same : ∀ e ∈ entries, ∀ f, e.asked = some f →
      sink'.accepts e.state f = sink.accepts e.state f) :
    Ledger c sink' s entries t := by
  induction h with
  | nil => exact .nil
  | @cons e entries t justified following ih =>
      have hbehind : e.behind sink' = e.behind sink := by simp only [Entry.behind, accept]
      have hrest := ih fun e' he' => same e' (List.mem_cons_of_mem e he')
      rw [← hbehind] at hrest
      exact .cons (justified.congr (same e List.mem_cons_self)) hrest

end Ledger

/-! ## A sink that keeps what it is handed -/

/-- The sink with a record of what it has been handed. -/
def Sink.recording (sink : Sink σ) : Sink (σ × List Issue) where
  accepts s f := sink.accepts s.1 f
  accept s issue := (sink.accept s.1 issue, s.2 ++ [issue])

/-- The entry of a sink with a record. -/
def Entry.withRecord (e : Entry σ) (taken : List Issue) : Entry (σ × List Issue) :=
  ⟨(e.state, taken), e.violation, e.emission, e.asked, e.issue⟩

theorem Entry.Justified.withRecord {e : Entry σ} (h : e.Justified c sink)
    (taken : List Issue) : (e.withRecord taken).Justified c sink.recording := by
  cases h with
  | unknownRule unnamed => exact .unknownRule unnamed
  | unknownFile named untracked => exact .unknownFile named untracked
  | unattached named tracked declined => exact .unattached named tracked declined
  | emitted named tracked accepted => exact .emitted named tracked accepted

/-- The record of a run is the issues of its account. -/
theorem Ledger.exists_recording (h : Ledger c sink s entries t) (taken : List Issue) :
    ∃ recorded, Ledger c sink.recording (s, taken) recorded
        (t, taken ++ entries.filterMap (·.issue)) ∧
      recorded.map (·.violation) = entries.map (·.violation) ∧
      recorded.map (·.emission) = entries.map (·.emission) := by
  induction h generalizing taken with
  | nil => exact ⟨[], by simpa using .nil, rfl, rfl⟩
  | @cons e entries t justified following ih =>
      obtain ⟨recorded, hrecorded, hviolations, hemissions⟩ := ih (taken ++ e.issue.toList)
      have hbehind : (e.withRecord taken).behind sink.recording =
          (e.behind sink, taken ++ e.issue.toList) := by
        cases hissue : e.issue <;> simp [Entry.behind, Entry.withRecord, hissue, Sink.recording]
      have hissues : taken ++ (e :: entries).filterMap (·.issue) =
          taken ++ e.issue.toList ++ entries.filterMap (·.issue) := by
        cases hissue : e.issue <;> simp [hissue]
      rw [← hbehind, ← hissues] at hrecorded
      refine ⟨e.withRecord taken :: recorded, .cons (justified.withRecord taken) hrecorded, ?_, ?_⟩
      · simp [Entry.withRecord, hviolations]
      · simp [Entry.withRecord, hemissions]

/-- A sink with a record ends up with the issues of the account. -/
theorem Ledger.process_recording (h : Ledger c sink s entries t) :
    c.process sink.recording (s, []) (entries.map (·.violation)) =
      ((t, entries.filterMap (·.issue)), (c.process sink s (entries.map (·.violation))).2) := by
  obtain ⟨recorded, hrecorded, hviolations, hemissions⟩ := h.exists_recording []
  have hrun := hrecorded.process_eq
  rw [hviolations, hemissions, List.nil_append] at hrun
  rw [hrun, h.process_eq]

/-! ## The account of every run -/

/-- **Every violation is accounted for exactly once.**  A run has a ledger with
one entry for each violation, in their order.  The counts are those of the
ledger, and each violation is in one of four of them; the sink takes the
issues of the ledger, one after the other, and no other; and of the files it
could be asked about only those of the ledger matter. -/
theorem process_accounts_for_each (c : Catalog) (sink : Sink σ) (s : σ)
    (vs : List Report.Violation) :
    ∃ entries : List (Entry σ),
      Ledger c sink s entries (c.process sink s vs).1 ∧
      entries.map (·.violation) = vs ∧
      (c.process sink s vs).2 =
        { violations := vs.length
          issues := (entries.map (·.emission)).count .emitted
          unknownRules := (entries.map (·.emission)).count .unknownRule
          unknownFiles := (entries.map (·.emission)).count .unknownFile
          unattached := (entries.map (·.emission)).count .unattached } ∧
      (c.process sink s vs).2.violations =
        (c.process sink s vs).2.issues + (c.process sink s vs).2.unknownRules +
          (c.process sink s vs).2.unknownFiles + (c.process sink s vs).2.unattached ∧
      (c.process sink s vs).2.skipped =
        (c.process sink s vs).2.violations - (c.process sink s vs).2.issues ∧
      (entries.filterMap (·.issue)).length = (c.process sink s vs).2.issues ∧
      (c.process sink s vs).1 = (entries.filterMap (·.issue)).foldl sink.accept s ∧
      c.process sink.recording (s, []) vs =
        (((c.process sink s vs).1, entries.filterMap (·.issue)), (c.process sink s vs).2) ∧
      ∀ sink' : Sink σ, sink'.accept = sink.accept →
        (∀ e ∈ entries, ∀ f, e.asked = some f →
          sink'.accepts e.state f = sink.accepts e.state f) →
        c.process sink' s vs = c.process sink s vs := by
  obtain ⟨entries, t, ledger, rfl⟩ := exists_ledger c sink s vs
  have hrecording := ledger.process_recording
  have hsum := length_eq_counts (entries.map (·.emission))
  rw [List.length_map] at hsum
  rw [ledger.process_counted] at hrecording ⊢
  refine ⟨entries, ledger, rfl, by rw [List.length_map], ?_, ?_, ledger.length_issues,
    ledger.foldl_accept_eq.symm, hrecording, ?_⟩
  · dsimp only
    omega
  · simp only [Summary.skipped]
    omega
  · intro sink' accept same
    exact (ledger.congr accept same).process_counted

end GroovyFindings
