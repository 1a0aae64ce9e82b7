import GroovyFindings.Shell.Token

/-!
# Commands of a script

A command is simple, or it is made of others. Some words introduce or close
such commands where a command can begin.

## Main definitions

* `Redirect`, `Command` — what a script says.
* `script?` — reads a script.
-/

namespace GroovyFindings.Shell

/-- What becomes of a descriptor. -/
structure Redirect where
  descriptor : Nat
  direction : Direction
  target : Word

/-- A command that is not made of others. -/
structure Simple where
  line : Nat
  assignments : List (List Char × Word) := []
  words : List Word := []
  redirects : List Redirect := []

/-- What a script says. -/
inductive Command where
  | nothing
  | simple (c : Simple)
  | redirected (line : Nat) (redirects : List Redirect) (body : Command)
  /-- What happens to the state of the shell here stays here. -/
  | subshell (body : Command)
  | pipe (left right : Command)
  | sequence (first second : Command)
  /-- The second one only if the first one succeeds. -/
  | both (first second : Command)
  /-- The second one only if the first one fails. -/
  | either (first second : Command)
  | negated (body : Command)
  | choice (condition yes : Command) (no : Option Command)
  /-- Again and again as long as the condition succeeds, or else as long as
  it fails. -/
  | loop (succeeds : Bool) (condition body : Command)
  /-- For every item, or for every argument of the script. -/
  | each (name : List Char) (items : Option (List Word)) (body : Command)
  /-- The first branch with a pattern that fits. -/
  | select (subject : Word) (branches : List (List Word × Command))

/-- The word that a token is, if it is one without quotes and values. -/
def Token.plain (t : Token) : String :=
  match t with
  | .word w _ => String.ofList ((plain? w).getD [])
  | _ => ""

/-- Words that close commands. -/
def closingWords : List String :=
  ["then", "else", "elif", "fi", "do", "done", "esac", "\x7d"]

/-- A command can begin here. -/
def begins (tokens : List Token) : Bool :=
  match tokens with
  | .word w line :: _ => (Token.word w line).plain ∉ closingWords
  | .redirect _ _ :: _ => true
  | .sign .opening :: _ => true
  | _ => false

/-- The tokens after new lines. -/
def skipNewlines : (tokens : List Token) → List Token
  | .sign .newline :: rest => skipNewlines rest
  | tokens => tokens

/-- The tokens after a certain word. -/
def after? (word : String) (tokens : List Token) : Option (List Token) :=
  match tokens with
  | t :: rest => if t.plain = word then some rest else none
  | [] => none

/-- The redirections that the tokens begin with, and the tokens after
them. -/
def redirects? : (tokens : List Token) → Option (List Redirect × List Token)
  | .redirect n direction :: .word w _ :: rest =>
      (redirects? rest).map fun r => (⟨n, direction, w⟩ :: r.1, r.2)
  | .redirect _ _ :: _ => none
  | tokens => some ([], tokens)

/-- The rest of a simple command. -/
def simple? (c : Simple) : (tokens : List Token) → Option (Simple × List Token)
  | .word w _ :: rest =>
      match if c.words.isEmpty then assignment? w else none with
      | some a => simple? { c with assignments := c.assignments ++ [a] } rest
      | none => simple? { c with words := c.words ++ [w] } rest
  | .redirect n direction :: .word w _ :: rest =>
      simple? { c with redirects := c.redirects ++ [⟨n, direction, w⟩] } rest
  | .redirect _ _ :: _ => none
  | tokens => some (c, tokens)

/-- The words that the tokens begin with, and the tokens after them. -/
def wordsOf : (tokens : List Token) → List Word × List Token
  | .word w _ :: rest => let r := wordsOf rest; (w :: r.1, r.2)
  | tokens => ([], tokens)

/-- The patterns of a branch, and the tokens after the parenthesis that
closes them. -/
def patterns? : (tokens : List Token) → Option (List Word × List Token)
  | .word w _ :: .sign .closing :: rest => some ([w], rest)
  | .word w _ :: .sign .pipe :: rest => (patterns? rest).map fun r => (w :: r.1, r.2)
  | _ => none

/-- The items of a loop, if there are any, and the tokens after them. -/
def items? (tokens : List Token) : Option (Option (List Word) × List Token) :=
  match after? "in" (skipNewlines tokens) with
  | some rest =>
      match wordsOf rest with
      | (items, .sign .newline :: rest) => some (some items, skipNewlines rest)
      | (items, .sign .semicolon :: rest) => some (some items, skipNewlines rest)
      | _ => none
  | none =>
      match tokens with
      | .sign .semicolon :: rest => some (none, skipNewlines rest)
      | _ => some (none, skipNewlines tokens)

/-- The line in which the tokens begin, as far as it is known. -/
def lineOf (tokens : List Token) : Nat :=
  (tokens.findSome? fun
    | .word _ line => some line
    | _ => none).getD 1

mutual

/-- Commands up to where none can begin. -/
def list? : (fuel : Nat) → List Token → Option (Command × List Token)
  | 0, _ => none
  | fuel + 1, tokens =>
      let tokens := skipNewlines tokens
      if begins tokens then do
        let (first, tokens) ← chain? fuel tokens
        match tokens with
        | .sign .newline :: rest | .sign .semicolon :: rest | .sign .ampersand :: rest =>
            let (more, rest) ← list? fuel rest
            return (.sequence first more, rest)
        | _ => return (first, tokens)
      else some (.nothing, tokens)

/-- Pipelines, each of which depends on how the one before it ends. -/
def chain? : (fuel : Nat) → List Token → Option (Command × List Token)
  | 0, _ => none
  | fuel + 1, tokens => do
      let (first, tokens) ← pipeline? fuel tokens
      links? fuel first tokens

/-- What follows the first pipeline of a chain. -/
def links? : (fuel : Nat) → Command → List Token → Option (Command × List Token)
  | 0, _, _ => none
  | fuel + 1, first, tokens =>
      match tokens with
      | .sign .andIf :: rest => do
          let (next, rest) ← pipeline? fuel (skipNewlines rest)
          links? fuel (.both first next) rest
      | .sign .orIf :: rest => do
          let (next, rest) ← pipeline? fuel (skipNewlines rest)
          links? fuel (.either first next) rest
      | _ => some (first, tokens)

/-- Commands, each of which reads what the one before it prints. -/
def pipeline? : (fuel : Nat) → List Token → Option (Command × List Token)
  | 0, _ => none
  | fuel + 1, tokens =>
      match after? "!" tokens with
      | some rest => (pipeline? fuel rest).map fun r => (.negated r.1, r.2)
      | none => do
          let (first, tokens) ← command? fuel tokens
          match tokens with
          | .sign .pipe :: rest =>
              let (more, rest) ← pipeline? fuel (skipNewlines rest)
              return (.pipe first more, rest)
          | _ => return (first, tokens)

/-- A command with its redirections. -/
def command? : (fuel : Nat) → List Token → Option (Command × List Token)
  | 0, _ => none
  | fuel + 1, tokens =>
      if begins tokens then
        match compound? fuel tokens with
        | some result => do
            let (body, rest) ← result
            let (redirects, rest) ← redirects? rest
            return (if redirects.isEmpty then body
              else .redirected (lineOf tokens) redirects body, rest)
        | none => (simple? ⟨lineOf tokens, [], [], []⟩ tokens).map fun r => (.simple r.1, r.2)
      else none

/-- A command made of others; nothing if the tokens do not introduce one. -/
def compound? : (fuel : Nat) → List Token → Option (Option (Command × List Token))
  | 0, _ => some none
  | fuel + 1, tokens =>
      match tokens with
      | .sign .opening :: rest => some do
          let (body, rest) ← list? fuel rest
          match rest with
          | .sign .closing :: rest => return (.subshell body, rest)
          | _ => none
      | t :: rest =>
          match t.plain with
          | "\x7b" => some do
              let (body, rest) ← list? fuel rest
              return (body, ← after? "\x7d" rest)
          | "if" => some (choice? fuel rest)
          | "while" => some (loop? fuel true rest)
          | "until" => some (loop? fuel false rest)
          | "for" => some (each? fuel rest)
          | "case" => some (select? fuel rest)
          | _ => none
      | [] => none

/-- What follows the word that introduces a choice. -/
def choice? : (fuel : Nat) → List Token → Option (Command × List Token)
  | 0, _ => none
  | fuel + 1, tokens => do
      let (condition, rest) ← list? fuel tokens
      let (yes, rest) ← list? fuel (← after? "then" rest)
      match rest with
      | [] => none
      | t :: more =>
          match t.plain with
          | "fi" => return (.choice condition yes none, more)
          | "elif" =>
              let (no, more) ← choice? fuel more
              return (.choice condition yes (some no), more)
          | "else" =>
              let (no, more) ← list? fuel more
              return (.choice condition yes (some no), ← after? "fi" more)
          | _ => none

/-- What follows the word that introduces a loop. -/
def loop? : (fuel : Nat) → (succeeds : Bool) → List Token → Option (Command × List Token)
  | 0, _, _ => none
  | fuel + 1, succeeds, tokens => do
      let (condition, rest) ← list? fuel tokens
      let (body, rest) ← list? fuel (← after? "do" rest)
      return (.loop succeeds condition body, ← after? "done" rest)

/-- What follows the word that introduces a loop over items. -/
def each? : (fuel : Nat) → List Token → Option (Command × List Token)
  | 0, _ => none
  | fuel + 1, tokens =>
      match tokens with
      | [] => none
      | t :: rest => do
          let name := t.plain.toList
          if name = [] ∨ variableName name ≠ name then none
          else
            let (items, rest) ← items? rest
            let (body, rest) ← list? fuel (← after? "do" rest)
            return (.each name items body, ← after? "done" rest)

/-- What follows the word that introduces a choice by patterns. -/
def select? : (fuel : Nat) → List Token → Option (Command × List Token)
  | 0, _ => none
  | fuel + 1, tokens =>
      match tokens with
      | .word subject _ :: rest => do
          let (branches, rest) ← branches? fuel (← after? "in" (skipNewlines rest))
          return (.select subject branches, rest)
      | _ => none

/-- Branches, and the tokens after the word that closes them. -/
def branches? : (fuel : Nat) → List Token → Option (List (List Word × Command) × List Token)
  | 0, _ => none
  | fuel + 1, tokens =>
      let tokens := skipNewlines tokens
      match after? "esac" tokens with
      | some rest => some ([], rest)
      | none => do
          let tokens := match tokens with
            | .sign .opening :: rest => rest
            | _ => tokens
          let (patterns, rest) ← patterns? tokens
          let (body, rest) ← list? fuel rest
          match rest with
          | .sign .semicolons :: rest =>
              let (more, rest) ← branches? fuel rest
              return ((patterns, body) :: more, rest)
          | _ => return ([(patterns, body)], ← after? "esac" rest)

end

/-- The command that a script is. -/
def script? (text : List Char) : Option Command := do
  let tokens ← tokens? text
  match ← list? (8 * tokens.length + 8) tokens with
  | (command, []) => return command
  | _ => none

end GroovyFindings.Shell
