import GroovyFindings.Linter.Completion
import GroovyFindings.Proofs.Text.Decimal
import Mathlib.Algebra.Group.Nat.Defs

/-!
# The closing line among other output

The linter says other things before and after its closing line.  The label of
the line begins with a letter that it has in no other place, so an occurrence of
the label cannot begin in other text and end in the line; and each run of digits
is followed by a character that is no digit, so it is read as it was written.

## Main definitions

* `Passage.spelled` — a passage as the linter writes it.
* `Passage.Numbered`, `Passage.Tells` — its four runs of digits, and the numbers
  that they denote.
* `Completion.Fits`, `Completion.line` — a completion that can be told, and the
  line that tells it.

## Main results

* `passage?_eq_some_iff` — the passage at the beginning of a text.
* `firstPassage?_append` — text in which no passage begins is passed over.
* `Passage.completion?_eq_some_iff` — what a passage denotes.
* `completion?_reads_back` — the closing line is read back, and nothing else is.
-/

namespace GroovyFindings.Linter

/-! ## The passage at the beginning of a text -/

/-- Digits of any script, one at least. -/
def IsRun (digits : List Char) : Prop :=
  digits ≠ [] ∧ ∀ c ∈ digits, Text.isDecimalDigit c = true

/-- Digits are read behind a label, and no further digit is left. -/
theorem labelled?_eq_some_iff {label text digits rest : List Char} :
    labelled? label text = some (digits, rest) ↔
      text = label ++ (digits ++ rest) ∧ IsRun digits ∧
        ∀ c, rest.head? = some c → Text.isDecimalDigit c = false := by
  constructor
  · intro h
    obtain ⟨behind, hlabel, hcut⟩ := Option.bind_eq_some_iff.1 h
    obtain rfl := Text.stripStart?_eq_some_iff.1 hlabel
    dsimp only at hcut
    split at hcut
    · cases hcut
    · next nonempty =>
        obtain ⟨hdigits, hrest⟩ := Prod.mk.inj (Option.some.inj hcut)
        obtain ⟨rfl, inside, stop⟩ := Text.cut_run_iff.1 ⟨hdigits, hrest⟩
        rw [hdigits] at nonempty
        exact ⟨rfl, ⟨by simpa using nonempty, inside⟩, stop⟩
  · rintro ⟨rfl, ⟨nonempty, inside⟩, stop⟩
    obtain ⟨hdigits, hrest⟩ := Text.cut_run_iff.2 ⟨rfl, inside, stop⟩
    rw [labelled?, Text.stripStart?_eq_some_iff.2 rfl]
    dsimp only [Option.bind_eq_bind, Option.bind_some]
    rw [hdigits, hrest, if_neg (by simpa using nonempty)]

namespace Passage

/-- A passage as the linter writes it. -/
def spelled (p : Passage) : List Char :=
  "CodeNarc completed: (p1=".toList ++ (p.p1 ++ ("; p2=".toList ++ (p.p2 ++
    ("; p3=".toList ++ (p.p3 ++ (") ".toList ++ (p.millis ++ "ms".toList)))))))

/-- There are digits in each of the four places. -/
structure Numbered (p : Passage) : Prop where
  p1 : IsRun p.p1
  p2 : IsRun p.p2
  p3 : IsRun p.p3
  millis : IsRun p.millis

theorem spelled_append (p : Passage) (post : List Char) :
    p.spelled ++ post = "CodeNarc completed: (p1=".toList ++ (p.p1 ++ ("; p2=".toList ++
      (p.p2 ++ ("; p3=".toList ++ (p.p3 ++ (") ".toList ++ (p.millis ++ ("ms".toList ++
        post)))))))) := by
  delta spelled
  simp only [List.append_assoc]

end Passage

/-- A passage is read piece by piece. -/
theorem passage?_eq_some_iff_pieces {text : List Char} {p : Passage} :
    passage? text = some p ↔ ∃ text1 text2 text3 text4 post,
      labelled? "CodeNarc completed: (p1=".toList text = some (p.p1, text1) ∧
      labelled? "; p2=".toList text1 = some (p.p2, text2) ∧
      labelled? "; p3=".toList text2 = some (p.p3, text3) ∧
      labelled? ") ".toList text3 = some (p.millis, text4) ∧
      Text.stripStart? "ms".toList text4 = some post := by
  constructor
  · intro h
    simp only [passage?, Option.bind_eq_bind, Option.bind_eq_some_iff, Prod.exists] at h
    obtain ⟨p1, text1, h1, p2, text2, h2, p3, text3, h3, millis, text4, h4, post, hpost, h⟩ := h
    obtain rfl := Option.some.inj h
    exact ⟨text1, text2, text3, text4, post, h1, h2, h3, h4, hpost⟩
  · rintro ⟨text1, text2, text3, text4, post, h1, h2, h3, h4, hpost⟩
    simp only [passage?, h1, h2, h3, h4, hpost, Option.bind_eq_bind, Option.bind_some]
    rfl

/-- The passage at the beginning of a text is what is spelled there. -/
theorem passage?_eq_some_iff {text : List Char} {p : Passage} :
    passage? text = some p ↔ p.Numbered ∧ ∃ post, text = p.spelled ++ post := by
  rw [passage?_eq_some_iff_pieces]
  constructor
  · rintro ⟨text1, text2, text3, text4, post, h1, h2, h3, h4, hpost⟩
    obtain ⟨hlabel1, run1, -⟩ := labelled?_eq_some_iff.1 h1
    obtain ⟨hlabel2, run2, -⟩ := labelled?_eq_some_iff.1 h2
    obtain ⟨hlabel3, run3, -⟩ := labelled?_eq_some_iff.1 h3
    obtain ⟨hlabel4, run4, -⟩ := labelled?_eq_some_iff.1 h4
    have hms := Text.stripStart?_eq_some_iff.1 hpost
    refine ⟨⟨run1, run2, run3, run4⟩, post, ?_⟩
    rw [hlabel1, hlabel2, hlabel3, hlabel4, hms, Passage.spelled_append]
  · rintro ⟨runs, post, rfl⟩
    -- what follows a run of digits begins with no digit
    refine ⟨_, _, _, _, post,
      labelled?_eq_some_iff.2 ⟨p.spelled_append post, runs.p1, ?_⟩,
      labelled?_eq_some_iff.2 ⟨rfl, runs.p2, ?_⟩,
      labelled?_eq_some_iff.2 ⟨rfl, runs.p3, ?_⟩,
      labelled?_eq_some_iff.2 ⟨rfl, runs.millis, ?_⟩,
      Text.stripStart?_eq_some_iff.2 rfl⟩
    all_goals
      intro c hc
      obtain rfl := Option.some.inj hc
      decide

/-! ## The first passage of a text -/

theorem firstPassage?_of_passage? {text : List Char} {p : Passage} (h : passage? text = some p) :
    firstPassage? text = some p := by
  cases text with
  | nil => cases h
  | cons c rest => rw [firstPassage?, h]

/-- Text in which no passage begins is passed over. -/
theorem firstPassage?_append {pre rest : List Char}
    (h : ∀ before behind, before ++ behind = pre → behind ≠ [] → passage? (behind ++ rest) = none) :
    firstPassage? (pre ++ rest) = firstPassage? rest := by
  induction pre with
  | nil => rfl
  | cons c pre ih =>
      have whole : passage? (c :: (pre ++ rest)) = none := h [] (c :: pre) rfl (by simp)
      rw [List.cons_append, firstPassage?, whole]
      exact ih fun before behind hpre => h (c :: before) behind (by rw [← hpre]; rfl)

/-- The first passage is one of the text. -/
theorem exists_of_firstPassage? {text : List Char} {p : Passage}
    (h : firstPassage? text = some p) :
    p.Numbered ∧ ∃ pre post, text = pre ++ (p.spelled ++ post) := by
  induction text with
  | nil => cases h
  | cons c rest ih =>
      rw [firstPassage?] at h
      split at h
      · next q hq =>
          obtain rfl := Option.some.inj h
          obtain ⟨runs, post, hpost⟩ := passage?_eq_some_iff.1 hq
          exact ⟨runs, [], post, hpost⟩
      · obtain ⟨runs, pre, post, hrest⟩ := ih h
        exact ⟨runs, c :: pre, post, congrArg (c :: ·) hrest⟩

/-! ## Other text before the line -/

/-- A word whose first letter does not come again in it cannot begin in a text and
end behind it where the word stands once more. -/
theorem prefix_of_prefix_append {first : Char} {others text rest : List Char}
    (once : first ∉ others) (hne : text ≠ [])
    (h : first :: others <+: text ++ first :: rest) : first :: others <+: text := by
  obtain inside | ⟨beyond, hbeyond⟩ :=
    List.prefix_or_prefix_of_prefix h (List.prefix_append text (first :: rest))
  · exact inside
  · -- what reaches over the end of the text would begin with the first letter again
    obtain ⟨c, text, rfl⟩ := List.exists_cons_of_ne_nil hne
    rw [List.cons_append, List.cons.injEq] at hbeyond
    obtain ⟨rfl, rfl⟩ := hbeyond
    cases beyond with
    | nil => simp
    | cons d beyond =>
        rw [← List.cons_append, List.prefix_append_right_inj, List.cons_prefix_cons] at h
        exact absurd (h.1 ▸ List.mem_append_right _ List.mem_cons_self) once

/-- What every passage begins with. -/
def opening : List Char := "CodeNarc completed: (".toList

theorem opening_prefix (p : Passage) (post : List Char) : opening <+: p.spelled ++ post := by
  rw [Passage.spelled_append]
  exact List.IsPrefix.trans (by decide) (List.prefix_append _ _)

/-- A passage behind text that has no opening in it is the first one. -/
theorem firstPassage?_spelled {p : Passage} {pre post : List Char} (runs : p.Numbered)
    (other : ¬ opening <:+: pre) : firstPassage? (pre ++ (p.spelled ++ post)) = some p := by
  rw [firstPassage?_append]
  · exact firstPassage?_of_passage? (passage?_eq_some_iff.2 ⟨runs, post, rfl⟩)
  · intro before behind hpre hne
    rw [Option.eq_none_iff_forall_ne_some]
    intro q hq
    obtain ⟨-, post', hpost⟩ := passage?_eq_some_iff.1 hq
    obtain ⟨tail, htail⟩ := opening_prefix p post
    have opens : opening <+: behind ++ (p.spelled ++ post) := hpost ▸ opening_prefix q post'
    have inside : opening <+: behind :=
      prefix_of_prefix_append (by decide) hne (htail ▸ opens)
    exact other (hpre ▸ inside.isInfix.trans (List.suffix_append before behind).isInfix)

/-! ## The numbers of a passage -/

/-- The four numbers are small enough to be told. -/
structure Completion.Fits (c : Completion) : Prop where
  p1 : c.p1 < 2 ^ 32
  p2 : c.p2 < 2 ^ 32
  p3 : c.p3 < 2 ^ 32
  millis : c.millis < 2 ^ 64

namespace Passage

/-- The digits of a passage denote the numbers of a completion. -/
structure Tells (p : Passage) (c : Completion) : Prop where
  p1 : Text.Denotes p.p1 c.p1
  p2 : Text.Denotes p.p2 c.p2
  p3 : Text.Denotes p.p3 c.p3
  millis : Text.Denotes p.millis c.millis

theorem isRun_of_denotes {digits : List Char} {n : Nat} (h : Text.Denotes digits n) :
    IsRun digits :=
  ⟨h.nonempty, fun c hc => Text.isDecimalDigit_of_isDigit (h.isDigit c hc)⟩

theorem Tells.numbered {p : Passage} {c : Completion} (h : p.Tells c) : p.Numbered :=
  ⟨isRun_of_denotes h.p1, isRun_of_denotes h.p2, isRun_of_denotes h.p3, isRun_of_denotes h.millis⟩

/-- Digits are read if what they denote is within the bound. -/
theorem bounded?_eq_some_iff_of_isRun {bound n : Nat} {digits : List Char} (run : IsRun digits) :
    Text.bounded? bound digits = some n ↔ Text.Denotes digits n ∧ n ≤ bound := by
  refine Text.bounded?_eq_some_iff_of_unsigned fun hplus => ?_
  exact absurd (run.2 '+' (List.mem_of_mem_head? hplus)) (by decide)

/-- A passage reports the numbers that its digits denote, if they are small enough. -/
theorem completion?_eq_some_iff {p : Passage} {c : Completion} (runs : p.Numbered) :
    p.completion? = some c ↔ p.Tells c ∧ c.Fits := by
  simp only [completion?, Option.bind_eq_bind, Option.bind_eq_some_iff,
    bounded?_eq_some_iff_of_isRun runs.p1, bounded?_eq_some_iff_of_isRun runs.p2,
    bounded?_eq_some_iff_of_isRun runs.p3, bounded?_eq_some_iff_of_isRun runs.millis]
  have bound32 : ∀ n, n ≤ Text.maxWord32 ↔ n < 2 ^ 32 := fun n => by
    rw [Text.maxWord32]
    omega
  have bound64 : ∀ n, n ≤ Text.maxWord64 ↔ n < 2 ^ 64 := fun n => by
    rw [Text.maxWord64]
    omega
  simp only [bound32, bound64]
  constructor
  · rintro ⟨p1, ⟨h1, le1⟩, p2, ⟨h2, le2⟩, p3, ⟨h3, le3⟩, millis, ⟨h4, le4⟩, h⟩
    obtain rfl := Option.some.inj h
    exact ⟨⟨h1, h2, h3, h4⟩, ⟨le1, le2, le3, le4⟩⟩
  · rintro ⟨tells, fits⟩
    exact ⟨_, ⟨tells.p1, fits.p1⟩, _, ⟨tells.p2, fits.p2⟩, _, ⟨tells.p3, fits.p3⟩,
      _, ⟨tells.millis, fits.millis⟩, rfl⟩

end Passage

/-! ## The closing line -/

namespace Completion

/-- The closing line that tells a completion, with its numbers in decimal. -/
def line (c : Completion) : String :=
  "CodeNarc completed: (p1=" ++ toString c.p1 ++ "; p2=" ++ toString c.p2 ++ "; p3=" ++
    toString c.p3 ++ ") " ++ toString c.millis ++ "ms"

/-- The passage in the closing line. -/
def passage (c : Completion) : Passage where
  p1 := Nat.toDigits 10 c.p1
  p2 := Nat.toDigits 10 c.p2
  p3 := Nat.toDigits 10 c.p3
  millis := Nat.toDigits 10 c.millis

theorem tells_passage (c : Completion) : c.passage.Tells c where
  p1 := Text.denotes_toDigits c.p1
  p2 := Text.denotes_toDigits c.p2
  p3 := Text.denotes_toDigits c.p3
  millis := Text.denotes_toDigits c.millis

theorem toList_line (c : Completion) : c.line.toList = c.passage.spelled := by
  have whole := c.passage.spelled_append []
  rw [List.append_nil, List.append_nil] at whole
  delta line
  simp only [String.toList_append, Nat.toString_eq_repr, Nat.toList_repr, List.append_assoc, whole]
  rfl

end Completion

/-- **The closing line is read back from any output, and nothing else is.**  It may
stand behind any text that does not contain what it begins with, and before any
text at all.  Whenever a completion is reported the text has a passage of that form,
whose digits denote the four numbers. -/
theorem completion?_reads_back :
    (∀ (c : Completion) (pre post : String), c.Fits → ¬ opening <:+: pre.toList →
      completion? (pre ++ c.line ++ post) = some c) ∧
    ∀ (text : String) (c : Completion), completion? text = some c →
      c.Fits ∧ ∃ (p : Passage) (pre post : List Char),
        text.toList = pre ++ (p.spelled ++ post) ∧ p.Tells c := by
  constructor
  · intro c pre post fits other
    have runs := c.tells_passage.numbered
    rw [completion?, String.toList_append, String.toList_append, c.toList_line,
      List.append_assoc, firstPassage?_spelled runs other]
    exact (Passage.completion?_eq_some_iff runs).2 ⟨c.tells_passage, fits⟩
  · intro text c h
    obtain ⟨p, hfirst, hcompletion⟩ := Option.bind_eq_some_iff.1 h
    obtain ⟨runs, pre, post, hpost⟩ := exists_of_firstPassage? hfirst
    obtain ⟨tells, fits⟩ := (Passage.completion?_eq_some_iff runs).1 hcompletion
    exact ⟨fits, p, pre, post, hpost, tells⟩

/-- A completion with the greatest number of violations that there can be. -/
def fullCompletion : Completion := ⟨0, 3, 4294967295, 842⟩

/-- Output that ends like the beginning of a closing line. -/
def unfinishedOutput : String := "rules\nCodeNarc completed: CodeNarc "

theorem fits_fullCompletion : fullCompletion.Fits := by
  constructor <;> decide

/-- The line is found behind such output, and although another one follows it. -/
theorem completion?_reads_back_unfinished :
    ¬ opening <:+: unfinishedOutput.toList ∧
    completion? (unfinishedOutput ++ fullCompletion.line ++
      "5\nCodeNarc completed: (p1=1; p2=1; p3=1) 1ms") = some fullCompletion ∧
    fullCompletion.Fits ∧ ∃ (p : Passage) (pre post : List Char),
      (unfinishedOutput ++ fullCompletion.line ++
        "5\nCodeNarc completed: (p1=1; p2=1; p3=1) 1ms").toList = pre ++ (p.spelled ++ post) ∧
      p.Tells fullCompletion := by
  have other : ¬ opening <:+: unfinishedOutput.toList := by decide +kernel
  have read := completion?_reads_back.1 fullCompletion unfinishedOutput
    "5\nCodeNarc completed: (p1=1; p2=1; p3=1) 1ms" fits_fullCompletion other
  exact ⟨other, read, completion?_reads_back.2 _ _ read⟩

end GroovyFindings.Linter
