import GroovyFindings.Proofs.Text.Decimal
import GroovyFindings.Rendering.Basic

/-!
# What a terminal shows of coloured text

A sequence for colours and the like begins with an escape character and a bracket;
parameters follow, and the letter `m` ends it.  A terminal does not show it.  What
it shows of a text that is put together from pieces is what it shows of the pieces,
as long as no piece ends within a sequence.

## Main definitions

* `Text.behindSequence?` — what follows the sequence that a text begins with.
* `Text.withoutSequences`, `Text.shown` — a text without its sequences.
* `Text.ShowsAs` — what is shown of a text, whatever follows it.
* `Rendering.Unescaped` — an issue in whose texts there is no escape character.
* `Rendering.ofLines` — a result for people with a given line for each issue.

## Main results

* `Text.ShowsAs.coloured`, `Text.ShowsAs.bold` — colours are not shown.
* `Rendering.showsAs_colouredLine` — what is shown of the line of an issue.
* `Rendering.rendered_plain`, `Rendering.shown_rendered` — a result without colours, and
  what is shown of one in colours.
* `Rendering.coloured_shows_plain` — what is shown of a result in colours.
-/

namespace GroovyFindings.Text

/-! ## Sequences -/

/-- The characters of which the parameters of a sequence consist. -/
def isParameter (c : Char) : Bool := 0x30 ≤ c.toNat && c.toNat ≤ 0x3F

/-- What follows the sequence at the beginning of a text, if there is one. -/
def behindSequence? : (text : List Char) → Option (List Char)
  | '\x1b' :: '[' :: text =>
      match text.dropWhile isParameter with
      | 'm' :: behind => some behind
      | _ => none
  | _ => none

theorem behindSequence?_length_lt {text behind : List Char}
    (h : behindSequence? text = some behind) : behind.length < text.length := by
  unfold behindSequence? at h
  split at h
  · next text =>
      split at h
      · next behind' hbehind =>
          obtain rfl := Option.some.inj h
          have hle := (List.dropWhile_suffix isParameter (l := text)).length_le
          rw [hbehind] at hle
          simp only [List.length_cons] at hle ⊢
          omega
      · cases h
  · cases h

/-- A text without the sequences in it. -/
def withoutSequences : (text : List Char) → List Char
  | [] => []
  | c :: text =>
      match _h : behindSequence? (c :: text) with
      | some behind => withoutSequences behind
      | none => c :: withoutSequences text
termination_by text => text.length
decreasing_by
  · exact behindSequence?_length_lt _h
  · simp

/-- `withoutSequences` on strings. -/
def shown (text : String) : String := String.ofList (withoutSequences text.toList)

theorem withoutSequences_of_some {text behind : List Char}
    (h : behindSequence? text = some behind) :
    withoutSequences text = withoutSequences behind := by
  cases text with
  | nil => cases h
  | cons c text =>
      rw [withoutSequences]
      split
      · next behind' h' =>
          rw [h] at h'
          rw [Option.some.inj h']
      · next h' =>
          rw [h] at h'
          cases h'

theorem withoutSequences_cons_of_none {c : Char} {text : List Char}
    (h : behindSequence? (c :: text) = none) :
    withoutSequences (c :: text) = c :: withoutSequences text := by
  rw [withoutSequences]
  split
  · next behind h' =>
      rw [h] at h'
      cases h'
  · rfl

theorem behindSequence?_of_ne {c : Char} {text : List Char} (h : c ≠ '\x1b') :
    behindSequence? (c :: text) = none := by
  unfold behindSequence?
  split
  · next heq => exact absurd (List.cons.inj heq).1 h
  · rfl

/-! ## What is shown of a text -/

/-- What is shown of a text, whatever follows it. -/
def ShowsAs (text shown : String) : Prop :=
  ∀ rest, withoutSequences (text.toList ++ rest) = shown.toList ++ withoutSequences rest

theorem ShowsAs.shown_eq {text seen : String} (h : ShowsAs text seen) : shown text = seen := by
  have whole := h []
  rw [List.append_nil, withoutSequences, List.append_nil] at whole
  rw [shown, whole, String.ofList_toList]

theorem ShowsAs.append {text text' seen seen' : String} (h : ShowsAs text seen)
    (h' : ShowsAs text' seen') : ShowsAs (text ++ text') (seen ++ seen') := by
  intro rest
  rw [String.toList_append, String.toList_append, List.append_assoc, h, h', List.append_assoc]

theorem ShowsAs.join {α : Type} {xs : List α} {text seen : α → String}
    (h : ∀ x ∈ xs, ShowsAs (text x) (seen x)) :
    ShowsAs (String.join (xs.map text)) (String.join (xs.map seen)) := by
  induction xs with
  | nil => exact fun rest => rfl
  | cons x xs ih =>
      rw [List.map_cons, List.map_cons, String.join_cons, String.join_cons]
      exact (h x List.mem_cons_self).append (ih fun y hy => h y (List.mem_cons_of_mem x hy))

/-- Text without escape characters is shown as it is. -/
theorem showsAs_self {text : String} (h : '\x1b' ∉ text.toList) : ShowsAs text text := by
  intro rest
  generalize text.toList = chars at h
  induction chars with
  | nil => rfl
  | cons c chars ih =>
      rw [List.mem_cons, not_or] at h
      rw [List.cons_append, withoutSequences_cons_of_none (behindSequence?_of_ne (Ne.symm h.1)),
        ih h.2, List.cons_append]

/-- Nothing is shown of a sequence. -/
theorem showsAs_sequence {code : String} (h : code.toList.all isParameter = true) :
    ShowsAs (sequence code) "" := by
  intro rest
  have spelled : (sequence code).toList ++ rest =
      '\x1b' :: '[' :: (code.toList ++ 'm' :: rest) := by
    simp [sequence]
  have behind : behindSequence? ((sequence code).toList ++ rest) = some rest := by
    rw [spelled, behindSequence?, List.dropWhile_append_of_pos (List.all_eq_true.1 h)]
    rfl
  rw [withoutSequences_of_some behind]
  rfl

theorem showsAs_between {start text seen ending : String} (hstart : ShowsAs start "")
    (h : ShowsAs text seen) (hending : ShowsAs ending "") :
    ShowsAs (start ++ text ++ ending) seen := by
  have whole := (hstart.append h).append hending
  rwa [String.empty_append, String.append_empty] at whole

/-- Of coloured text the text is shown. -/
theorem ShowsAs.coloured {text seen : String} (c : Colour) (h : ShowsAs text seen) :
    ShowsAs (coloured c text) seen := by
  have start : ShowsAs (sequence c.code) "" := by
    cases c <;> exact showsAs_sequence (by decide)
  exact showsAs_between start h (showsAs_sequence (by decide))

/-- Of bold text the text is shown. -/
theorem ShowsAs.bold {text seen : String} (h : ShowsAs text seen) : ShowsAs (bold text) seen :=
  showsAs_between (showsAs_sequence (by decide)) h (showsAs_sequence (by decide))

end GroovyFindings.Text

namespace GroovyFindings.Rendering

/-! ## The lines of a result -/

/-- There is no escape character in what is printed of an issue. -/
structure Unescaped (i : Issue) : Prop where
  repository : '\x1b' ∉ i.rule.repository.toList
  key : '\x1b' ∉ i.rule.key.toList
  file : '\x1b' ∉ i.file.toList
  message : '\x1b' ∉ i.message.toList

open Text

theorem escape_notMem_number (n : Nat) : '\x1b' ∉ (toString n).toList := by
  intro h
  rw [Nat.toString_eq_repr, Nat.toList_repr] at h
  exact absurd (isDigit_of_mem_toDigits h) (by decide)

theorem showsAs_icon (s : Severity) : ShowsAs (icon s) (icon s) := by
  cases s <;> exact showsAs_self (by decide)

theorem showsAs_tag (i : Issue) : ShowsAs (tag i) (tag i) := by
  refine ((showsAs_self (by decide)).append ?_).append (showsAs_self (by decide))
  cases i.severity <;> exact showsAs_self (by decide)

theorem showsAs_location {i : Issue} (h : Unescaped i) : ShowsAs (location i) (location i) := by
  unfold location
  split
  · exact ((showsAs_self h.file).append (showsAs_self (by decide))).append
      (showsAs_self (escape_notMem_number _))
  · exact showsAs_self h.file

theorem showsAs_remark {i : Issue} (h : Unescaped i) : ShowsAs (remark i) (remark i) := by
  have rule : ShowsAs i.rule.text i.rule.text :=
    ((showsAs_self h.repository).append (showsAs_self (by decide))).append (showsAs_self h.key)
  exact (((showsAs_self (by decide)).append rule).append (showsAs_self (by decide))).append
    (showsAs_self h.message)

/-- Of the line of an issue in colours its icon is shown, and the line without
colours. -/
theorem showsAs_colouredLine {i : Issue} (h : Unescaped i) :
    ShowsAs (colouredLine i) (icon i.severity ++ " " ++ plainLine i) := by
  have space : ShowsAs " " " " := showsAs_self (by decide)
  have whole := ((((((showsAs_icon i.severity).coloured (colour i.severity)).append space).append
    ((showsAs_tag i).coloured (colour i.severity)).bold).append space).append
    (showsAs_location h).bold).append (showsAs_remark h)
  simpa only [colouredLine, plainLine, String.append_assoc] using whole

theorem showsAs_summaryLine (s : Summary) : ShowsAs (summaryLine s) (summaryLine s) := by
  apply showsAs_self
  delta summaryLine
  simp only [String.toList_append, List.mem_append, not_or, escape_notMem_number]
  decide

theorem showsAs_skippedNote : ShowsAs skippedNote skippedNote := showsAs_self (by decide)

/-- The line of an issue behind the icon of its severity. -/
def iconLine (i : Issue) : String := icon i.severity ++ " " ++ plainLine i

/-- A result for people in which each issue takes such a line. -/
def ofLines (line : Issue → String) (issues : List Issue) : Outcome → String
  | .skipped => skippedNote ++ "\n"
  | .completed s =>
      String.join (issues.map fun i => line i ++ "\n") ++ (summaryLine s ++ "\n")

theorem join_map_singleton (text : String) :
    String.join ([text].map (· ++ "\n")) = text ++ "\n" := by
  rw [List.map_singleton, String.join_cons]
  exact String.append_empty

section People

variable {output : String} {issues : List Issue}

theorem rendered_of_ne (forPeople : output ≠ "json") (colours : Bool) (outcome : Outcome) :
    rendered output colours issues outcome =
      String.join ((humanLines colours issues outcome).map (· ++ "\n")) := by
  rw [rendered, if_neg forPeople, human]

/-- Without colours there are the lines of the issues, and the counts or the note. -/
theorem rendered_plain (forPeople : output ≠ "json") (outcome : Outcome) :
    rendered output false issues outcome = ofLines plainLine issues outcome := by
  rw [rendered_of_ne forPeople]
  cases outcome with
  | skipped => rw [humanLines, join_map_singleton, ofLines]
  | completed s =>
      rw [humanLines, List.map_append, String.join_append, join_map_singleton, List.map_map]
      rfl

/-- In colours the same is shown, with icons. -/
theorem shown_rendered (forPeople : output ≠ "json") (plain : ∀ i ∈ issues, Unescaped i)
    (outcome : Outcome) :
    shown (rendered output true issues outcome) = ofLines iconLine issues outcome := by
  have newLine : ShowsAs "\n" "\n" := showsAs_self (by decide)
  rw [rendered_of_ne forPeople]
  cases outcome with
  | skipped =>
      rw [humanLines, join_map_singleton]
      exact ((showsAs_skippedNote.coloured .grey).append newLine).shown_eq
  | completed s =>
      rw [humanLines, List.map_append, String.join_append, join_map_singleton, List.map_map]
      have lines := ShowsAs.join fun i hi => (showsAs_colouredLine (plain i hi)).append newLine
      exact (lines.append ((showsAs_summaryLine s).bold.append newLine)).shown_eq

end People

/-- **Colours add nothing but colours.**  Of a result in colours is shown what the
result without colours says, with the icon of its severity and a blank before the
line of each issue.  The note and the counts are the same. -/
theorem coloured_shows_plain {output : String} {issues : List Issue} (forPeople : output ≠ "json")
    (plain : ∀ i ∈ issues, Unescaped i) :
    shown (rendered output true issues .skipped) = rendered output false issues .skipped ∧
    rendered output false issues .skipped = skippedNote ++ "\n" ∧
    ∀ s, rendered output false issues (.completed s) =
        String.join (issues.map fun i => plainLine i ++ "\n") ++ (summaryLine s ++ "\n") ∧
      shown (rendered output true issues (.completed s)) =
        String.join (issues.map fun i => icon i.severity ++ " " ++ plainLine i ++ "\n") ++
          (summaryLine s ++ "\n") := by
  have seen : ∀ outcome, shown (rendered output true issues outcome) =
      ofLines iconLine issues outcome := shown_rendered forPeople plain
  have said : ∀ outcome, rendered output false issues outcome =
      ofLines plainLine issues outcome := rendered_plain forPeople
  refine ⟨?_, said .skipped, fun s => ⟨said (.completed s), seen (.completed s)⟩⟩
  rw [seen, said, ofLines, ofLines]

/-- Two issues, one of them about a whole file and in two lines. -/
def shownIssues : List Issue := [
  ⟨⟨"codenarc", "EmptyClass"⟩, .minor, "org/a/A.groovy", .ofString "/p/org/a/A.groovy", some 4,
    "empty [31m"⟩,
  ⟨⟨"codenarc", "FileEndsWithoutNewline"⟩, .blocker, "B.groovy", .ofString "/p/B.groovy", none,
    "no\nline end"⟩]

theorem unescaped_shownIssues : ∀ i ∈ shownIssues, Unescaped i := by
  simp only [shownIssues, List.forall_mem_cons]
  refine ⟨⟨?_, ?_, ?_, ?_⟩, ⟨?_, ?_, ?_, ?_⟩, by simp⟩ <;> decide

theorem coloured_shows_plain_shownIssues :
    "human" ≠ "json" ∧ (∀ i ∈ shownIssues, Unescaped i) ∧
    shown (rendered "human" true shownIssues .skipped) =
      rendered "human" false shownIssues .skipped ∧
    rendered "human" false shownIssues .skipped = skippedNote ++ "\n" ∧
    ∀ s, rendered "human" false shownIssues (.completed s) =
        String.join (shownIssues.map fun i => plainLine i ++ "\n") ++ (summaryLine s ++ "\n") ∧
      shown (rendered "human" true shownIssues (.completed s)) =
        String.join (shownIssues.map fun i => icon i.severity ++ " " ++ plainLine i ++ "\n") ++
          (summaryLine s ++ "\n") :=
  ⟨by decide, unescaped_shownIssues, coloured_shows_plain (by decide) unescaped_shownIssues⟩

end GroovyFindings.Rendering
