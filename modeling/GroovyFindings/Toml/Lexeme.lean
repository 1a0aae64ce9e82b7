import GroovyFindings.Toml.Value

/-!
# Blanks, keys and strings of TOML

Blanks are the space and the tab; a line ends with a line feed, which a
carriage return may precede. Comments run to the end of the line. Strings
stand between quotes, literally or with escapes, on one line or on
several.

## Main definitions

* `skipBlanks`, `skipGaps`, `endLine` — what may stand between things.
* `quotedBasic`, `quotedLiteral`, `string` — strings.
* `key`, `dottedKey` — keys.

Each takes a text and gives what it has read with the rest of the text.
-/

namespace GroovyFindings.Toml

/-- What a reader gives: a result and the rest of the text. -/
abbrev Read (α : Type) := Except Fault (α × List Char)

/-- The fault of `cause` before `rest`. -/
def fail {α : Type} (cause : Cause) (rest : List Char) : Except Fault α :=
  .error ⟨cause, rest.length⟩

/-- Blanks do not end a line. -/
def isBlank (c : Char) : Bool := c == ' ' || c == '\t'

/-- A character that may stand in a comment or a string. -/
def isPlain (c : Char) : Bool := c == '\t' || (' ' ≤ c && c != '\x7f')

/-- The text without blanks at its beginning. -/
def skipBlanks (text : List Char) : List Char := text.dropWhile isBlank

/-- The text behind a line ending, if it begins with one. -/
def lineEnd? : List Char → Option (List Char)
  | '\n' :: rest => some rest
  | '\r' :: '\n' :: rest => some rest
  | _ => none

/-- The text behind blanks, line endings and comments. -/
def skipGaps : List Char → Except Fault (List Char)
  | [] => .ok []
  | c :: rest =>
      if isBlank c || c == '\n' then skipGaps rest
      else if c = '\r' then
        match rest with
        | '\n' :: rest' => skipGaps rest'
        | _ => fail .control (c :: rest)
      else if c = '#' then
        skipGaps (rest.dropWhile isPlain)
      else if isPlain c then .ok (c :: rest)
      else fail .control (c :: rest)
termination_by text => text.length
decreasing_by
  · simp
  · simp only [List.length_cons]; omega
  · have := (List.dropWhile_suffix isPlain (l := rest)).length_le
    simp only [List.length_cons]
    omega

/-- The text behind the end of a line, before which blanks and a comment
may stand. -/
def endLine (text : List Char) : Except Fault (List Char) :=
  let rest := match skipBlanks text with
    | '#' :: comment => comment.dropWhile isPlain
    | rest => rest
  match rest with
  | [] => .ok []
  | _ =>
      match lineEnd? rest with
      | some rest' => .ok rest'
      | none => fail (.expected "newline") rest

/-! ## Strings -/

/-- The value of a hexadecimal digit. -/
def hexValue? (c : Char) : Option Nat :=
  if '0' ≤ c ∧ c ≤ '9' then some (c.toNat - '0'.toNat)
  else if 'a' ≤ c ∧ c ≤ 'f' then some (c.toNat - 'a'.toNat + 10)
  else if 'A' ≤ c ∧ c ≤ 'F' then some (c.toNat - 'A'.toNat + 10)
  else none

/-- The number that digits denote in a base. -/
def numeral? (base : Nat) (digit? : Char → Option Nat) (digits : List Char) :
    Option Nat :=
  digits.foldl
    (fun value c => do
      let value ← value
      let d ← digit? c
      return base * value + d)
    (some 0)

/-- The character that `width` hexadecimal digits denote. -/
def coded? (width : Nat) (text : List Char) : Option Char := do
  let digits := text.take width
  if digits.length < width then none
  let code ← numeral? 16 hexValue? digits
  if h : code.isValidChar then return Char.ofNatAux code h else none

/-- The character after a backslash, and how many characters spell it. -/
def escaped? : (text : List Char) → Option (Char × Nat)
  | 'b' :: _ => some ('\x08', 1)
  | 't' :: _ => some ('\t', 1)
  | 'n' :: _ => some ('\n', 1)
  | 'f' :: _ => some ('\x0c', 1)
  | 'r' :: _ => some ('\r', 1)
  | 'e' :: _ => some ('\x1b', 1)
  | '"' :: _ => some ('"', 1)
  | '\\' :: _ => some ('\\', 1)
  | 'x' :: rest => (coded? 2 rest).map (·, 3)
  | 'u' :: rest => (coded? 4 rest).map (·, 5)
  | 'U' :: rest => (coded? 8 rest).map (·, 9)
  | _ => none

/-- Puts a character before what a reader gave. -/
def consRead (c : Char) (r : Read (List Char)) : Read (List Char) :=
  r.map fun (chars, rest) => (c :: chars, rest)

/-- A string with escapes, from behind its opening quote. -/
def quotedBasic : (text : List Char) → Read (List Char)
  | [] => fail .ended []
  | c :: rest =>
      if c = '"' then .ok ([], rest)
      else if c = '\\' then
        match escaped? rest with
        | some (c', width) => consRead c' (quotedBasic (rest.drop width))
        | none => fail .escape rest
      else if isPlain c then consRead c (quotedBasic rest)
      else fail .control (c :: rest)
termination_by text => text.length
decreasing_by all_goals simp; try omega

/-- A literal string, from behind its opening quote. -/
def quotedLiteral : (text : List Char) → Read (List Char)
  | [] => fail .ended []
  | c :: rest =>
      if c = '\'' then .ok ([], rest)
      else if isPlain c then consRead c (quotedLiteral rest)
      else fail .control (c :: rest)

/-- A run of quotes in a string of several lines: three of them end it, and
up to two before those belong to it. -/
def closing? (quote : Char) (text : List Char) : Option (List Char × List Char) :=
  let run := min 5 (text.takeWhile (· == quote)).length
  if run < 3 then none else some (List.replicate (run - 3) quote, text.drop run)

/-- The text behind the blanks and line endings that a backslash at the end
of a line takes with it, if there is a line ending among them. -/
def continued? (text : List Char) : Option (List Char) :=
  (lineEnd? (skipBlanks text)).map
    (List.dropWhile fun c => isBlank c || c == '\n' || c == '\r')

theorem lineEnd?_length_lt {text rest : List Char} (h : lineEnd? text = some rest) :
    rest.length < text.length := by
  unfold lineEnd? at h
  split at h
  · cases h; simp
  · cases h; simp only [List.length_cons]; omega
  · simp at h

theorem continued?_length_lt {text rest : List Char} (h : continued? text = some rest) :
    rest.length < text.length := by
  obtain ⟨r, hr, rfl⟩ := Option.map_eq_some_iff.1 h
  have h1 := lineEnd?_length_lt hr
  have h2 := (List.dropWhile_suffix isBlank (l := text)).length_le
  have h3 := (List.dropWhile_suffix
    (fun c => isBlank c || c == '\n' || c == '\r') (l := r)).length_le
  unfold skipBlanks at h1
  omega

/-- A string of several lines, from behind its opening quotes; `escapes`
says whether it has escapes. A line ending in it is a line feed. -/
def multiline (quote : Char) (escapes : Bool) : (text : List Char) → Read (List Char)
  | [] => fail .ended []
  | c :: rest =>
      match closing? quote (c :: rest) with
      | some (chars, rest') => .ok (chars, rest')
      | none =>
          match _h : lineEnd? (c :: rest) with
          | some rest' => consRead '\n' (multiline quote escapes rest')
          | none =>
              if escapes ∧ c = '\\' then
                match _h : continued? rest with
                | some rest' => multiline quote escapes rest'
                | none =>
                    match escaped? rest with
                    | some (c', width) =>
                        consRead c' (multiline quote escapes (rest.drop width))
                    | none => fail .escape rest
              else if isPlain c then consRead c (multiline quote escapes rest)
              else fail .control (c :: rest)
termination_by text => text.length
decreasing_by
  · exact lineEnd?_length_lt _h
  · have := continued?_length_lt _h
    simp only [List.length_cons]
    omega
  · simp only [List.length_cons, List.length_drop]; omega
  · simp

/-- The text without one line ending at its beginning. -/
def skipLineEnd (text : List Char) : List Char := (lineEnd? text).getD text

/-- A string of any kind, if the text begins with a quote. -/
def string? : (text : List Char) → Option (Read (List Char))
  | '"' :: '"' :: '"' :: rest => some (multiline '"' true (skipLineEnd rest))
  | '\'' :: '\'' :: '\'' :: rest => some (multiline '\'' false (skipLineEnd rest))
  | '"' :: rest => some (quotedBasic rest)
  | '\'' :: rest => some (quotedLiteral rest)
  | _ => none

/-! ## Keys -/

/-- A character of a bare key. -/
def inBareKey (c : Char) : Bool := c.isAlphanum || c == '_' || c == '-'

/-- One part of a key. -/
def key (text : List Char) : Read (List Char) :=
  match text with
  | '"' :: rest => quotedBasic rest
  | '\'' :: rest => quotedLiteral rest
  | _ =>
      let bare := text.takeWhile inBareKey
      if bare.isEmpty then fail (.expected "key") text
      else .ok (bare, text.dropWhile inBareKey)

/-- The parts of a key with dots between them, of which there are no more
than `parts`, and the text behind the blanks that follow. -/
def dottedParts : (parts : Nat) → (text : List Char) →
    Except Fault (List (List Char) × List Char)
  | 0, text => fail (.expected "key") text
  | parts + 1, text => do
      let (part, rest) ← key (skipBlanks text)
      match skipBlanks rest with
      | '.' :: rest' =>
          let (more, rest'') ← dottedParts parts rest'
          return (part :: more, rest'')
      | rest' => return ([part], rest')

/-- A key, and the text behind the blanks that follow. -/
def dottedKey (text : List Char) : Read (List (List Char)) :=
  dottedParts (text.length + 1) text

end GroovyFindings.Toml
