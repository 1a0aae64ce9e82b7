/-!
# Words of a shell script

A word is made of characters that stand for themselves and of values that
are put in when it is used: those of parameters, and what scripts inside
the word print. Whether a part is quoted is kept, because patterns and the
division into fields depend on it.

## Main definitions

* `Operator`, `Part`, `Word` — what a word is made of.
* `word?` — reads the word that a text begins with.
-/

namespace GroovyFindings.Shell

/-- What is done with the value of a parameter. -/
inductive Operator where
  | value
  /-- The number of its characters. -/
  | length
  /-- What follows a beginning of a certain pattern. -/
  | afterStart (longest : Bool)
  /-- What precedes an end of a certain pattern. -/
  | beforeEnd (longest : Bool)
  /-- Something else if there is no value, or `emptyToo` an empty one. -/
  | otherwise (emptyToo : Bool)
  /-- Something else if there is a value, and `emptyToo` not an empty one. -/
  | instead (emptyToo : Bool)
deriving DecidableEq, Repr

/-- What a word is made of. -/
inductive Part where
  | text (quoted : Bool) (chars : List Char)
  | parameter (quoted : Bool) (name : List Char) (operator : Operator)
      (argument : List Part)
  /-- What a script prints. -/
  | output (quoted : Bool) (script : List Char)
  /-- What a script has printed. -/
  | value (quoted : Bool) (chars : List Char)

/-- A word. -/
abbrev Word := List Part

/-- A blank between words. -/
def isSpace (c : Char) : Bool := c == ' ' || c == '\t'

/-- A character that ends a word. -/
def endsWord (c : Char) : Bool := isSpace c || c ∈ "\n;&|<>()".toList

/-- A character that a name can begin with. -/
def isNameStart (c : Char) : Bool := c.isAlpha || c == '_'

/-- A character of a name. -/
def isNameChar (c : Char) : Bool := c.isAlphanum || c == '_'

/-- Parameters whose names are signs. -/
def isSpecial (c : Char) : Bool := c ∈ "@*#?$!-".toList

/-- The name of a variable that a text begins with, possibly empty. -/
def variableName (text : List Char) : List Char :=
  match text with
  | c :: _ => if isNameStart c then text.takeWhile isNameChar else []
  | [] => []

/-- The name of a parameter that a text begins with, possibly empty; `braced`
allows more than one digit. -/
def parameterName (braced : Bool) (text : List Char) : List Char :=
  match text with
  | [] => []
  | c :: _ =>
      if isSpecial c then [c]
      else if c.isDigit then if braced then text.takeWhile Char.isDigit else [c]
      else variableName text

/-- Where a part stands. -/
inductive Context where
  | bare
  /-- Between double quotes. -/
  | quotes
  /-- Between braces, which may stand between quotes themselves. -/
  | braces (quoted : Bool)
deriving DecidableEq

/-- Parts that stand here are quoted. -/
def Context.quoted : Context → Bool
  | .bare => false
  | .quotes => true
  | .braces quoted => quoted

/-- The character ends what stands here. -/
def Context.ends (context : Context) (c : Char) : Bool :=
  match context with
  | .bare => endsWord c
  | .quotes => c == '"'
  | .braces _ => c == '\x7d'

/-- What a backslash makes of the text that follows it. -/
def escaped (quoted : Bool) (text : List Char) : List Part × List Char :=
  match text with
  | [] => ([.text quoted ['\\']], [])
  | '\n' :: rest => ([], rest)
  | c :: rest =>
      if quoted && c ∉ "$\x60\"\\".toList then ([.text true ['\\', c]], rest)
      else ([.text true [c]], rest)

/-- The operator that follows the name of a parameter between braces, and
what follows the operator. -/
def operator? (text : List Char) : Option (Operator × List Char) :=
  match text with
  | '#' :: '#' :: rest => some (.afterStart true, rest)
  | '#' :: rest => some (.afterStart false, rest)
  | '%' :: '%' :: rest => some (.beforeEnd true, rest)
  | '%' :: rest => some (.beforeEnd false, rest)
  | ':' :: '-' :: rest => some (.otherwise true, rest)
  | '-' :: rest => some (.otherwise false, rest)
  | ':' :: '+' :: rest => some (.instead true, rest)
  | '+' :: rest => some (.instead false, rest)
  | '\x7d' :: _ => some (.value, text)
  | _ => none

/-- Where the argument of an operator stands: patterns are read as if there
were no quotes around the braces. -/
def Operator.context (o : Operator) (quoted : Bool) : Context :=
  match o with
  | .afterStart _ | .beforeEnd _ => .braces false
  | _ => .braces quoted

/-- The text up to the parenthesis that closes `depth` others, and what
follows it. Quotes hide parentheses. -/
def closed? (depth : Nat) (quote : Option Char) :
    (text : List Char) → Option (List Char × List Char)
  | [] => none
  | c :: rest =>
      let cons (r : List Char × List Char) := (c :: r.1, r.2)
      match quote with
      | some q => (closed? depth (if c = q then none else some q) rest).map cons
      | none =>
          if c = '\'' ∨ c = '"' then (closed? depth (some c) rest).map cons
          else if c = '(' then (closed? (depth + 1) none rest).map cons
          else if c = ')' then
            match depth with
            | 0 => some ([], rest)
            | depth + 1 => (closed? depth none rest).map cons
          else (closed? depth none rest).map cons

/-- The parts between quotes. Quotes make a word of nothing, but not of all
parameters when there are none. -/
def quotedParts (parts : List Part) : List Part :=
  match parts with
  | [.parameter true ['@'] .value []] => parts
  | _ => .text true [] :: parts

mutual

/-- The parts that stand in a context, and the text from the character that
ends it on. -/
def parts? : (fuel : Nat) → Context → List Char → Option (List Part × List Char)
  | 0, _, _ => none
  | fuel + 1, context, text =>
      match text with
      | [] => if context = .bare then some ([], []) else none
      | c :: rest =>
          if context.ends c then some ([], text)
          else do
            let (first, rest) ← part? fuel context c rest
            let (more, rest) ← parts? fuel context rest
            return (first ++ more, rest)

/-- The parts that begin with the character `c`, and the text after them. -/
def part? : (fuel : Nat) → Context → Char → List Char → Option (List Part × List Char)
  | 0, _, _, _ => none
  | fuel + 1, context, c, rest =>
      if c = '\\' then some (escaped context.quoted rest)
      else if c = '\'' ∧ context.quoted = false then
        match rest.dropWhile (· != '\'') with
        | [] => none
        | _ :: after =>
            some ([.text true (rest.takeWhile (· != '\''))], after)
      else if c = '"' then
        (parts? fuel .quotes rest).map fun r => (quotedParts r.1, r.2.drop 1)
      else if c = '$' then dollar? fuel context.quoted rest
      else if c = '\x60' then
        match rest.dropWhile (· != '\x60') with
        | [] => none
        | _ :: after =>
            some ([.output context.quoted (rest.takeWhile (· != '\x60'))], after)
      else some ([.text context.quoted [c]], rest)

/-- The part that a dollar sign makes with the text that follows it. -/
def dollar? : (fuel : Nat) → (quoted : Bool) → List Char → Option (List Part × List Char)
  | 0, _, _ => none
  | fuel + 1, quoted, text =>
      match text with
      | '(' :: rest =>
          (closed? 0 none rest).map fun r => ([.output quoted r.1], r.2)
      | '\x7b' :: rest =>
          let length := match rest with
            | '#' :: more =>
                let name := parameterName true more
                match more.drop name.length with
                | '\x7d' :: after => if name.isEmpty then none else some (name, after)
                | _ => none
            | _ => none
          match length with
          | some (name, after) => some ([.parameter quoted name .length []], after)
          | none =>
              let name := parameterName true rest
              if name.isEmpty then none
              else do
                let (operator, rest) ← operator? (rest.drop name.length)
                let (argument, rest) ← parts? fuel (operator.context quoted) rest
                return ([.parameter quoted name operator argument], rest.drop 1)
      | _ =>
          let name := parameterName false text
          if name.isEmpty then some ([.text quoted ['$']], text)
          else some ([.parameter quoted name .value []], text.drop name.length)

end

/-- The word that a text begins with, and what follows it. -/
def word? (text : List Char) : Option (Word × List Char) :=
  parts? (2 * text.length + 2) .bare text

/-- The characters of a word without quotes and values. -/
def plain? : Word → Option (List Char)
  | [] => some []
  | .text false chars :: rest => (plain? rest).map (chars ++ ·)
  | _ => none

/-- The variable that a word assigns to, and the word for its value. -/
def assignment? (w : Word) : Option (List Char × Word) :=
  let isPlain : Part → Bool
    | .text false chars => chars != ['=']
    | _ => false
  match w.dropWhile isPlain with
  | .text false ['='] :: value =>
      match plain? (w.takeWhile isPlain) with
      | some name =>
          if name ≠ [] ∧ variableName name = name then some (name, value) else none
      | none => none
  | _ => none

end GroovyFindings.Shell
