/-!
# Affixes, separators and lines

Cutting texts, kept as lists, at a known beginning, a known end or a
separator. Nothing here depends on what the elements are: characters of a
path, bytes of a document and segments of a name are cut by the same
functions.

## Main definitions

* `stripStart?`, `stripEnd?` — what is left of a text after a given
  beginning, or before a given end.
* `dropEndWhile` — drops a run at the end, as `List.dropWhile` does at the
  beginning.
* `replaceAll` — exchanges one element for another.
* `lines` — the lines of a text, whichever way they are ended.
-/

namespace GroovyFindings.Text

variable {α : Type}

/-- What follows `start` in `text`, when `text` begins with it. -/
def stripStart? [DecidableEq α] : (start text : List α) → Option (List α)
  | [], text => some text
  | _ :: _, [] => none
  | s :: start, c :: text => if s = c then stripStart? start text else none

theorem stripStart?_eq_some_iff [DecidableEq α] {start text rest : List α} :
    stripStart? start text = some rest ↔ text = start ++ rest := by
  induction start generalizing text with
  | nil => simp [stripStart?, eq_comm]
  | cons s start ih =>
      cases text with
      | nil => simp [stripStart?]
      | cons c text =>
          by_cases h : s = c
          · simp [stripStart?, h, ih]
          · simp only [stripStart?, h, if_false, List.cons_append,
              List.cons.injEq]
            simp [Ne.symm h]

/-- What precedes `ending` in `text`, when `text` ends with it. -/
def stripEnd? [DecidableEq α] (ending text : List α) : Option (List α) :=
  (stripStart? ending.reverse text.reverse).map List.reverse

theorem stripEnd?_eq_some_iff [DecidableEq α] {ending text head : List α} :
    stripEnd? ending text = some head ↔ text = head ++ ending := by
  constructor
  · intro h
    obtain ⟨r, hr, rfl⟩ := Option.map_eq_some_iff.1 h
    rw [stripStart?_eq_some_iff] at hr
    simpa using congrArg List.reverse hr
  · rintro rfl
    simp [stripEnd?, stripStart?_eq_some_iff.2 rfl]

/-- The text without the longest run of elements satisfying `p` at its
end. -/
def dropEndWhile (p : α → Bool) (text : List α) : List α :=
  (text.reverse.dropWhile p).reverse

/-- Dropping a run at the end leaves a beginning. -/
theorem dropEndWhile_append (p : α → Bool) (text : List α) :
    ∃ run, dropEndWhile p text ++ run = text := by
  refine ⟨(text.reverse.takeWhile p).reverse, ?_⟩
  rw [dropEndWhile, ← List.reverse_append, List.takeWhile_append_dropWhile,
    List.reverse_reverse]

/-- The last element that a dropped run leaves fails the test. -/
theorem dropEndWhile_getLast {p : α → Bool} {text : List α} {x : α}
    (h : (dropEndWhile p text).getLast? = some x) : p x = false := by
  rw [dropEndWhile, List.getLast?_reverse] at h
  have := List.head?_dropWhile_not p text.reverse
  rw [h] at this
  simpa using this

/-- Every `old` becomes `new`. -/
def replaceAll [DecidableEq α] (old new : α) (text : List α) : List α :=
  text.map fun c => if c = old then new else c

/-- One line without its ending: a line feed, or a carriage return and a
line feed. -/
private def lineBody (line : List Char) : List Char :=
  (stripEnd? ['\r'] line).getD line

/--
The lines of a text. A line feed ends a line and takes a carriage return
before it along; what follows the last line feed is a line unless it is
empty, and keeps a carriage return at its end.
-/
def lines (text : List Char) : List (List Char) :=
  let parts := text.splitOn '\n'
  parts.dropLast.map lineBody ++
    match parts.getLast? with
    | some (c :: last) => [c :: last]
    | _ => []

end GroovyFindings.Text
