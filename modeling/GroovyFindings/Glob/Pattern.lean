/-!
# Patterns for names

A pattern for paths is made of pieces between slashes. A question mark
stands for one character, an asterisk for any number of them, brackets for
one of the characters inside, or one of the others after an exclamation
mark. Two asterisks stand for any number of directories and fill a piece.

## Main definitions

* `Token`, `Error` — what a pattern is made of, and what is wrong with it.
* `tokens` — the tokens of a pattern.
* `accepts` — a name fits the tokens.
-/

namespace GroovyFindings.Glob

/-- Characters from one to another. -/
structure CharRange where
  first : Char
  last : Char
deriving DecidableEq, Repr

/-- What a pattern is made of. -/
inductive Token where
  | char (c : Char)
  | anyChar
  | anyName
  /-- Any number of directories. -/
  | anyDirs
  | oneOf (ranges : List CharRange)
  | noneOf (ranges : List CharRange)
deriving DecidableEq, Repr

/-- What is wrong with a pattern. -/
inductive Cause where
  /-- More than two asterisks. -/
  | wildcards
  /-- Two asterisks beside something else. -/
  | directories
  /-- A bracket that is not closed. -/
  | range
deriving DecidableEq, Repr

/-- A fault with the number of characters before it. -/
structure Error where
  position : Nat
  cause : Cause
deriving DecidableEq, Repr

/-- The words for what is wrong. -/
def Cause.message : Cause → String
  | .wildcards => "wildcards are either regular `*` or recursive `**`"
  | .directories => "recursive wildcards must form a single path component"
  | .range => "invalid range pattern"

/-- The words for a fault. -/
def Error.message (e : Error) : String :=
  "Pattern syntax error near position " ++ toString e.position ++ ": " ++
    e.cause.message

/-- The ranges that the text between brackets says. -/
def ranges : (text : List Char) → List CharRange
  | a :: '-' :: b :: rest => ⟨a, b⟩ :: ranges rest
  | a :: rest => ⟨a, a⟩ :: ranges rest
  | [] => []

/-- The text up to a closing bracket, and what follows it. A bracket at
the very beginning is part of the text. -/
def bracketed? : (text : List Char) → Option (List Char × List Char)
  | [] => none
  | c :: rest =>
      match rest.dropWhile (· != ']') with
      | _ :: after => some (c :: rest.takeWhile (· != ']'), after)
      | [] => none

/-- The token that follows an opening bracket, and the text after it. -/
def bracket? (text : List Char) : Option (Token × List Char) :=
  match text with
  | '!' :: more => (bracketed? more).map fun r => (.noneOf (ranges r.1), r.2)
  | _ => (bracketed? text).map fun r => (.oneOf (ranges r.1), r.2)

/-- The token that two asterisks make between `before`, if anything, and
the text after them, which is given without the slash that belongs to
them. -/
def directories (position : Nat) (before : Option Char) (after : List Char) :
    Except Error (List Char) :=
  if before = none ∨ before = some '/' then
    match after with
    | [] => .ok []
    | '/' :: rest => .ok rest
    | _ => .error ⟨position + 2, .directories⟩
  else .error ⟨position - 1, .directories⟩

theorem bracketed?_length_lt {text inner after : List Char}
    (h : bracketed? text = some (inner, after)) : after.length < text.length := by
  cases text with
  | nil => simp [bracketed?] at h
  | cons c rest =>
      have hle := (List.dropWhile_suffix (· != ']') (l := rest)).length_le
      simp only [bracketed?] at h
      split at h
      · next heq =>
        rw [heq] at hle
        simp only [Option.some.injEq, Prod.mk.injEq] at h
        obtain ⟨-, rfl⟩ := h
        simp only [List.length_cons] at hle ⊢
        omega
      · simp at h

theorem bracket?_length_lt {text after : List Char} {token : Token}
    (h : bracket? text = some (token, after)) : after.length < text.length := by
  unfold bracket? at h
  split at h
  · obtain ⟨⟨inner, rest⟩, hr, he⟩ := Option.map_eq_some_iff.1 h
    cases he
    have := bracketed?_length_lt hr
    simp only [List.length_cons]
    omega
  · obtain ⟨⟨inner, rest⟩, hr, he⟩ := Option.map_eq_some_iff.1 h
    cases he
    exact bracketed?_length_lt hr

theorem directories_length_le {position : Nat} {before : Option Char}
    {after rest : List Char} (h : directories position before after = .ok rest) :
    rest.length ≤ after.length := by
  unfold directories at h
  split at h
  · split at h
    · cases h; simp
    · cases h; simp
    · simp at h
  · simp at h

/-- The tokens of the text that follows `position` characters, the last of
which is `before`. -/
def tokensFrom (position : Nat) (before : Option Char) :
    (text : List Char) → Except Error (List Token)
  | [] => .ok []
  | c :: rest =>
      if c = '*' then
        let stars := 1 + (rest.takeWhile (· == '*')).length
        let after := rest.dropWhile (· == '*')
        if stars = 1 then
          (tokensFrom (position + 1) (some '*') rest).map (.anyName :: ·)
        else if stars = 2 then
          match _h : directories position before after with
          | .ok rest' => (tokensFrom (position + 3) (some '/') rest').map (.anyDirs :: ·)
          | .error e => .error e
        else .error ⟨position + 2, .wildcards⟩
      else if c = '?' then
        (tokensFrom (position + 1) (some c) rest).map (.anyChar :: ·)
      else if c = '[' then
        match _h : bracket? rest with
        | some (token, after) =>
            let width := 1 + (rest.length - after.length)
            (tokensFrom (position + width) (some ']') after).map (token :: ·)
        | none => .error ⟨position, .range⟩
      else (tokensFrom (position + 1) (some c) rest).map (.char c :: ·)
termination_by text => text.length
decreasing_by
  · simp
  · have hle := directories_length_le _h
    have := (List.dropWhile_suffix (· == '*') (l := rest)).length_le
    simp only [after, List.length_cons] at hle ⊢
    omega
  · simp
  · have := bracket?_length_lt _h
    simp only [List.length_cons]
    omega
  · simp

/-- The tokens of a pattern. -/
def tokens (text : List Char) : Except Error (List Token) := tokensFrom 0 none text

/-- The character is in one of the ranges. -/
def inRanges (rs : List CharRange) (c : Char) : Bool :=
  rs.any fun r => r.first ≤ c && c ≤ r.last

/-- The character fits the token. -/
def Token.acceptsChar (t : Token) (c : Char) : Bool :=
  match t with
  | .char c' => c = c'
  | .anyChar => true
  | .oneOf rs => inRanges rs c
  | .noneOf rs => !inRanges rs c
  | .anyName | .anyDirs => false

/-- The name fits the tokens. -/
def accepts : (pattern : List Token) → (name : List Char) → Bool
  | [], name => name.isEmpty
  | .anyName :: rest, [] => accepts rest []
  | .anyName :: rest, c :: name =>
      accepts rest (c :: name) || accepts (.anyName :: rest) name
  | _ :: _, [] => false
  | t :: rest, c :: name => t.acceptsChar c && accepts rest name
termination_by pattern name => pattern.length + name.length

end GroovyFindings.Glob
