import GroovyFindings.Shell.Word

/-!
# Tokens of a script

Between words stand signs and redirections. A number sign at the beginning
of a word hides the rest of its line, and a backslash the end of a line.

## Main definitions

* `Sign`, `Direction`, `Token` — what a script is made of.
* `tokens?` — the tokens of a script.
-/

namespace GroovyFindings.Shell

/-- What separates commands. -/
inductive Sign where
  | newline
  | semicolon
  | semicolons
  | ampersand
  | andIf
  | orIf
  | pipe
  | opening
  | closing
deriving DecidableEq, Repr

/-- What a redirection does with a descriptor. -/
inductive Direction where
  | read
  | write
  | append
  /-- Makes it the same as another one. -/
  | same
deriving DecidableEq, Repr

/-- What a script is made of. -/
inductive Token where
  /-- A word, and the line in which it begins. -/
  | word (w : Word) (line : Nat)
  | sign (s : Sign)
  /-- A redirection; the word that follows says where to. -/
  | redirect (descriptor : Nat) (direction : Direction)

/-- The sign that a text begins with, and what follows it. -/
def sign? (text : List Char) : Option (Sign × List Char) :=
  match text with
  | '\n' :: rest => some (.newline, rest)
  | ';' :: ';' :: rest => some (.semicolons, rest)
  | ';' :: rest => some (.semicolon, rest)
  | '&' :: '&' :: rest => some (.andIf, rest)
  | '&' :: rest => some (.ampersand, rest)
  | '|' :: '|' :: rest => some (.orIf, rest)
  | '|' :: rest => some (.pipe, rest)
  | '(' :: rest => some (.opening, rest)
  | ')' :: rest => some (.closing, rest)
  | _ => none

/-- The direction that a text begins with, the descriptor that goes by
itself in it, and what follows. -/
def direction? (text : List Char) : Option (Direction × Nat × List Char) :=
  match text with
  | '>' :: '>' :: rest => some (.append, 1, rest)
  | '>' :: '&' :: rest => some (.same, 1, rest)
  | '>' :: '|' :: rest => some (.write, 1, rest)
  | '>' :: rest => some (.write, 1, rest)
  | '<' :: '<' :: _ => none
  | '<' :: '&' :: rest => some (.same, 0, rest)
  | '<' :: rest => some (.read, 0, rest)
  | _ => none

/-- The redirection that a text begins with, and what follows it. -/
def redirection? (text : List Char) : Option (Token × List Char) :=
  match text with
  | [] => none
  | c :: rest =>
      if c.isDigit then
        (direction? rest).map fun r => (.redirect (c.toNat - '0'.toNat) r.1, r.2.2)
      else (direction? text).map fun r => (.redirect r.2.1 r.1, r.2.2)

/-- The number of lines that end before `rest` in a text. -/
def linesBefore (text rest : List Char) : Nat := text.count '\n' - rest.count '\n'

/-- The tokens of a text that begins in a line. -/
def tokensFrom? : (fuel : Nat) → (line : Nat) → (text : List Char) → Option (List Token)
  | 0, _, _ => none
  | _ + 1, _, [] => some []
  | fuel + 1, line, c :: rest =>
      if isSpace c then tokensFrom? fuel line rest
      else if c = '#' then tokensFrom? fuel line (rest.dropWhile (· != '\n'))
      else if c = '\\' ∧ rest.head? = some '\n' then
        tokensFrom? fuel (line + 1) (rest.drop 1)
      else
        match redirection? (c :: rest) with
        | some (token, rest) => (tokensFrom? fuel line rest).map (token :: ·)
        | none =>
            match sign? (c :: rest) with
            | some (sign, after) =>
                (tokensFrom? fuel (line + linesBefore (c :: rest) after) after).map
                  (.sign sign :: ·)
            | none => do
                let (w, after) ← word? (c :: rest)
                let more ← tokensFrom? fuel (line + linesBefore (c :: rest) after) after
                return .word w line :: more

/-- The tokens of a script. -/
def tokens? (script : List Char) : Option (List Token) :=
  tokensFrom? (script.length + 1) 1 script

end GroovyFindings.Shell
