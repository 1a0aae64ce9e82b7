import GroovyFindings.Toml.Scalar
import GroovyFindings.Toml.Table

/-!
# TOML documents

A document is read line by line: a header, or a key with a value. Inside
brackets and braces lines may end anywhere, and the last comma may be left
in place.

## Main definitions

* `value` — a value at the beginning of a text.
* `Statement`, `statement` — a line of a document.
* `parse` — the table that a document denotes.
-/

namespace GroovyFindings.Toml

/-! ## Values -/

/-- The elements of an array, from behind its opening bracket; `value`
reads one, and there are no more than `count`. -/
def elements (value : List Char → Except Fault (Value × List Char)) :
    (count : Nat) → (text : List Char) → Except Fault (List Value × List Char)
  | 0, text => fail .ended text
  | count + 1, text => do
      match ← skipGaps text with
      | ']' :: rest => return ([], rest)
      | text =>
          let (v, rest) ← value text
          match ← skipGaps rest with
          | ',' :: rest =>
              let (vs, rest) ← elements value count rest
              return (v :: vs, rest)
          | ']' :: rest => return ([v], rest)
          | rest => fail (.expected "comma or bracket") rest

/-- Puts a key with its value into a table. -/
def put (path : List (List Char)) (v : Value) (entries : Entries) (text : List Char) :
    Except Fault Entries :=
  match define path v entries with
  | .ok entries' => .ok entries'
  | .error e => fail e text

/-- A key, the equals sign, and a value that `value` reads. `gaps` is what
may stand around the equals sign. -/
def keyValue (value : List Char → Except Fault (Value × List Char)) (text : List Char) :
    Except Fault (List (List Char) × Value × List Char) := do
  let (path, rest) ← dottedKey text
  match rest with
  | '=' :: rest =>
      let (v, rest) ← value (skipBlanks rest)
      return (path, v, rest)
  | _ => fail (.expected "equals sign") rest

/-- The entries of a table between braces, from behind its opening brace,
added to `entries`; there are no more than `count`. -/
def members (value : List Char → Except Fault (Value × List Char)) :
    (count : Nat) → (entries : Entries) → (text : List Char) →
    Except Fault (Entries × List Char)
  | 0, _, text => fail .ended text
  | count + 1, entries, text => do
      match ← skipGaps text with
      | '}' :: rest => return (entries, rest)
      | text =>
          let (path, v, rest) ← keyValue value text
          let entries ← put path v entries text
          match ← skipGaps rest with
          | ',' :: rest => members value count entries rest
          | '}' :: rest => return (entries, rest)
          | rest => fail (.expected "comma or brace") rest

/-- The value at the beginning of a text, in which no more than `depth`
values contain each other. -/
def nested : (depth : Nat) → (text : List Char) → Except Fault (Value × List Char)
  | 0, text => fail .ended text
  | depth + 1, text =>
      match string? text with
      | some r => r.map fun (chars, rest) => (.string chars, rest)
      | none =>
          match text with
          | '[' :: rest =>
              (elements (nested depth) (rest.length + 1) rest).map fun (vs, rest) =>
                (.array false vs, rest)
          | '\x7b' :: rest =>
              (members (nested depth) (rest.length + 1) [] rest).map fun (es, rest) =>
                (.table .inline es, rest)
          | _ => scalar text

/-- The value at the beginning of a text. -/
def value (text : List Char) : Except Fault (Value × List Char) :=
  nested (text.length + 1) text

/-! ## Lines -/

/-- A line that says something. -/
inductive Statement where
  | header (path : List (List Char))
  /-- The header of one more element of an array. -/
  | element (path : List (List Char))
  | entry (path : List (List Char)) (v : Value)
deriving Repr

/-- The statement at the beginning of a text. -/
def statement (text : List Char) : Except Fault (Statement × List Char) := do
  match text with
  | '[' :: '[' :: rest =>
      match ← dottedKey rest with
      | (path, ']' :: ']' :: rest) => return (.element path, rest)
      | (_, rest) => fail (.expected "two brackets") rest
  | '[' :: rest =>
      match ← dottedKey rest with
      | (path, ']' :: rest) => return (.header path, rest)
      | (_, rest) => fail (.expected "bracket") rest
  | _ =>
      let (path, v, rest) ← keyValue value text
      return (.entry path v, rest)

/-- The state of a reader between statements: the header it is under, and
the document as read. -/
structure State where
  path : List (List Char) := []
  entries : Entries := []

/-- Takes a statement. -/
def State.take (s : State) : Statement → Except Cause State
  | .header path => do
      let entries ← within path.dropLast (openTable (path.getLast?.getD [])) s.entries
      return ⟨path, entries⟩
  | .element path => do
      let entries ← within path.dropLast (openElement (path.getLast?.getD [])) s.entries
      return ⟨path, entries⟩
  | .entry path v => do
      let entries ← within s.path (define path v) s.entries
      return { s with entries := entries }

/-- Reads all statements of a text, of which there are no more than
`count`. -/
def statements : (count : Nat) → State → (text : List Char) → Except Fault State
  | 0, _, text => fail .ended text
  | count + 1, s, text => do
      match ← skipGaps text with
      | [] => return s
      | text =>
          let (st, rest) ← statement text
          match s.take st with
          | .error e => fail e text
          | .ok s => statements count s (← endLine rest)

/-- The text without a byte order mark. -/
def skipMark : (text : List Char) → List Char
  | '\ufeff' :: rest => rest
  | text => text

/-- The table that a document denotes. -/
def parse (text : List Char) : Except Error Entries :=
  match statements (text.length + 1) {} (skipMark text) with
  | .ok s => .ok s.entries
  | .error f => .error (f.error text)

end GroovyFindings.Toml
