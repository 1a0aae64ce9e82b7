import GroovyFindings.Text.Utf8
import GroovyFindings.Yaml.Scalar

/-!
# The tokens of a YAML text

A text is cut into tokens. Indentation opens and closes blocks, for which
there are tokens too. Something that could be a key is remembered until a
colon shows that it was one: the token that says so is then put before it.
Such a key stays on one line and is not longer than 1024 characters.

## Main definitions

* `Token` — the tokens.
* `Scan`, `Scan.step` — how far a text has been cut, and cutting off one
  more token.
* `tokens` — all tokens of a text, with the places where they begin.
-/

namespace GroovyFindings.Yaml

/-- A piece of a text. -/
inductive Token where
  | version (major minor : Nat)
  | tagDirective (handle start : List Char)
  | documentStart
  | documentEnd
  | blockSequence
  | blockMapping
  | blockEnd
  | flowSequence
  | flowSequenceEnd
  | flowMapping
  | flowMappingEnd
  | blockEntry
  | flowEntry
  | key
  | value
  | alias (name : List Char)
  | anchor (name : List Char)
  | tag (handle suffix : List Char)
  | scalar (chars : List Char) (isPlain : Bool)
deriving DecidableEq, Repr

/-- A token and the line and column where it begins. -/
structure Placed where
  token : Token
  place : Nat × Nat
deriving Repr

/-- What could be a key. -/
structure MaybeKey where
  /-- It has to be one. -/
  required : Bool
  /-- The number of tokens before it. -/
  number : Nat
  index : Nat
  line : Nat
  column : Nat

/-- How far a text has been cut into tokens. -/
structure Scan where
  cursor : Cursor
  tokens : Array Placed := #[]
  /-- The column behind the one where the block begins, or zero. -/
  margin : Nat := 0
  /-- The margins of the blocks around it. -/
  margins : List Nat := []
  /-- What could be a key: inside the innermost brackets first. -/
  maybe : List (Option MaybeKey) := [none]
  /-- Whether a key may begin here. -/
  keyAllowed : Bool := true

namespace Scan

/-- Between brackets indentation does not count. -/
def inFlow (s : Scan) : Bool := 1 < s.maybe.length

/-- The error of `cause` here. -/
def fail {α : Type} (s : Scan) (cause : Cause) : Except Error α := s.cursor.fail cause

/-- Adds a token that begins at `at'`. -/
def add (s : Scan) (at' : Cursor) (token : Token) : Scan :=
  { s with tokens := s.tokens.push ⟨token, (at'.line, at'.column)⟩ }

/-- Puts a token before those behind the first `number`. -/
def insert (s : Scan) (number : Nat) (place : Nat × Nat) (token : Token) : Scan :=
  { s with tokens := (s.tokens.extract 0 number).push ⟨token, place⟩ ++
      s.tokens.extract number s.tokens.size }

/-! ## Keys -/

/-- What could be a key inside the innermost brackets. -/
def innermost (s : Scan) : Option MaybeKey := s.maybe.head?.join

/-- Remembers what could be a key inside the innermost brackets. -/
def setInnermost (s : Scan) (k : Option MaybeKey) : Scan :=
  { s with maybe := k :: s.maybe.drop 1 }

/-- Forgets what could have been a key, unless it has to be one. -/
def forgetKey (s : Scan) : Except Error Scan :=
  match s.innermost with
  | some k => if k.required then s.fail .noColon else .ok (s.setInnermost none)
  | none => .ok (s.setInnermost none)

/-- Remembers that what begins here could be a key. -/
def rememberKey (s : Scan) : Except Error Scan :=
  if s.keyAllowed then do
    let s ← s.forgetKey
    let c := s.cursor
    return s.setInnermost (some {
      required := !s.inFlow && s.margin == c.column + 1
      number := s.tokens.size
      index := c.index
      line := c.line
      column := c.column })
  else .ok s

/-- What could have been a key is none if it is too far back. -/
def MaybeKey.stale (k : MaybeKey) (c : Cursor) : Bool :=
  k.line < c.line || k.index + 1024 < c.index

/-- Forgets everything that is too far back to be a key. -/
def dropStale (s : Scan) : Except Error Scan :=
  let stale (k : Option MaybeKey) : Bool := k.any (MaybeKey.stale · s.cursor)
  if s.maybe.any fun k => stale k && k.any (·.required) then s.fail .noColon
  else .ok { s with maybe := s.maybe.map fun k => if stale k then none else k }

/-! ## Blocks -/

/-- Opens a block at a column, if it is to the right of the innermost one;
its token goes before those behind the first `number`. -/
def openBlock (s : Scan) (column number : Nat) (place : Nat × Nat) (token : Token) :
    Scan :=
  if !s.inFlow && s.margin ≤ column then
    { s.insert number place token with
      margin := column + 1, margins := s.margin :: s.margins }
  else s

/-- Closes the blocks given by `margins` that begin to the right of
`limit`. -/
def closeBlocks (limit : Nat) (s : Scan) : (margins : List Nat) → Scan
  | [] => s
  | outer :: margins =>
      if limit < s.margin then
        closeBlocks limit
          { s.add s.cursor .blockEnd with margin := outer, margins := margins } margins
      else s

/-- Closes the blocks that begin to the right of `limit`. -/
def unindent (s : Scan) (limit : Nat) : Scan :=
  if s.inFlow then s else closeBlocks limit s s.margins

/-! ## Tokens -/

/-- Moves on by `n` characters, which are a token. -/
def take (s : Scan) (n : Nat) (token : Token) : Scan :=
  { s.add s.cursor token with cursor := s.cursor.skip n }

/-- A line that does not begin in a block: the end of all blocks. -/
def leaveBlocks (s : Scan) : Except Error Scan := do
  let s ← (s.unindent 0).forgetKey
  return { s with keyAllowed := false }

/-- An opening bracket. -/
def openFlow (s : Scan) (token : Token) : Except Error Scan := do
  let s ← s.rememberKey
  return { s.take 1 token with maybe := none :: s.maybe, keyAllowed := true }

/-- A closing bracket. -/
def closeFlow (s : Scan) (token : Token) : Except Error Scan := do
  let s ← s.forgetKey
  let maybe := if s.inFlow then s.maybe.drop 1 else s.maybe
  return { s.take 1 token with maybe := maybe, keyAllowed := false }

/-- A comma. -/
def flowEntry (s : Scan) : Except Error Scan := do
  let s ← s.forgetKey
  return { s.take 1 .flowEntry with keyAllowed := true }

/-- The place of the cursor. -/
def here (s : Scan) : Nat × Nat := (s.cursor.line, s.cursor.column)

/-- Opens a block here, if an entry or a key may begin here. -/
def openHere (s : Scan) (token : Token) : Except Error Scan :=
  if s.inFlow then .ok s
  else if s.keyAllowed then
    .ok (s.openBlock s.cursor.column s.tokens.size s.here token)
  else s.fail .misplaced

/-- A hyphen before an entry. -/
def blockEntry (s : Scan) : Except Error Scan := do
  let s ← (← s.openHere .blockSequence).forgetKey
  return { s.take 1 .blockEntry with keyAllowed := true }

/-- A question mark before a key. -/
def explicitKey (s : Scan) : Except Error Scan := do
  let s ← (← s.openHere .blockMapping).forgetKey
  return { s.take 1 .key with keyAllowed := !s.inFlow }

/-- A colon before a value. -/
def mappingValue (s : Scan) : Except Error Scan := do
  match s.innermost with
  | some k =>
      let place := (k.line, k.column)
      let s := s.insert k.number place .key
      let s := s.openBlock k.column k.number place .blockMapping
      return { (s.setInnermost none).take 1 .value with keyAllowed := false }
  | none =>
      let s ← s.openHere .blockMapping
      return { s.take 1 .value with keyAllowed := !s.inFlow }

/-! ## Anchors, tags and directives -/

/-- What may follow a name. -/
def endsName (o : Option Char) : Bool :=
  isGap o || o.any ("?:,]\x7d%@`".toList.contains ·)

/-- An anchor or an alias. -/
def name (s : Scan) (token : List Char → Token) : Except Error Scan := do
  let s ← s.rememberKey
  let (name, c) := (s.cursor.skip 1).span isWord
  if name.isEmpty || !endsName c.rest.head? then c.fail .anchor
  return { s.add s.cursor (token name) with cursor := c, keyAllowed := false }

/-- A character of a tag that stands for itself; commas and square brackets
count if `wide`. -/
def inTag (wide : Bool) (c : Char) : Bool :=
  isWord c || ";/?:@&=+$.%!~*'()".toList.contains c || wide && ",[]".toList.contains c

/-- The bytes that percent signs and hexadecimal digits denote at the
beginning of a text, of which there are no more than `count`. -/
def percentBytes : (count : Nat) → List Char → List UInt8
  | 0, _ => []
  | count + 1, '%' :: a :: b :: rest =>
      match hexDigit? a, hexDigit? b with
      | some x, some y => UInt8.ofNat (16 * x + y) :: percentBytes count rest
      | _, _ => []
  | _, _ => []

/-- The number of bytes of the character that a byte begins, if it begins
one. -/
def width? (b : UInt8) : Option Nat :=
  if b ≤ 0x7F then some 1
  else if b &&& 0xE0 == 0xC0 then some 2
  else if b &&& 0xF0 == 0xE0 then some 3
  else if b &&& 0xF8 == 0xF0 then some 4
  else none

/-- The character that a percent sign begins, and how many characters spell
it. -/
def percent? (rest : List Char) : Option (Char × Nat) := do
  let first ← (percentBytes 1 rest).head?
  let width ← width? first
  match Utf8.decode (percentBytes width rest) with
  | .ok [c] => some (c, 3 * width)
  | _ => none

/-- The characters of a tag, of which there are no more than `count`. -/
def tagChars (wide : Bool) : (count : Nat) → Cursor → Except Error (List Char × Cursor)
  | 0, c => .ok ([], c)
  | count + 1, c =>
      match c.rest with
      | [] => .ok ([], c)
      | ch :: _ =>
          if ch = '%' then
            match percent? c.rest with
            | some (ch', width) => prepend [ch'] (tagChars wide count (c.skip width))
            | none => c.fail .tag
          else if inTag wide ch then prepend [ch] (tagChars wide count (c.skip 1))
          else .ok ([], c)

/-- The characters of a tag; there is at least one. -/
def tagText (wide : Bool) (c : Cursor) : Except Error (List Char × Cursor) := do
  let (chars, c') ← tagChars wide (c.rest.length + 1) c
  if chars.isEmpty then c.fail .tag
  return (chars, c')

/-- The handle at the beginning of a tag, between exclamation marks unless
the second one is missing. -/
def handle (c : Cursor) : List Char × Cursor :=
  let (word, c) := (c.skip 1).span isWord
  if c.at? '!' then ('!' :: word ++ ['!'], c.skip 1) else ('!' :: word, c)

/-- A tag: in full between angles, or a handle and what follows it. -/
def tagToken (c : Cursor) : Except Error (Token × Cursor) := do
  if c.peek 1 == some '<' then
    let (chars, c) ← tagText true (c.skip 2)
    if c.at? '>' then return (.tag [] chars, c.skip 1)
    c.fail .tag
  else
    let (h, c) := handle c
    if 1 < h.length && h.getLast? == some '!' then
      let (suffix, c) ← tagText false c
      return (.tag h suffix, c)
    else
      let (more, c) ← tagChars false (c.rest.length + 1) c
      match h.drop 1 ++ more with
      | [] => return (.tag [] ['!'], c)
      | suffix => return (.tag ['!'] suffix, c)

/-- A tag. -/
def tag (s : Scan) : Except Error Scan := do
  let s ← s.rememberKey
  let (token, c) ← tagToken s.cursor
  if !(s.inFlow && c.at? ',') && !isGap c.rest.head? then c.fail .tag
  return { s.add s.cursor token with cursor := c, keyAllowed := false }

/-- A number of a version. -/
def versionNumber (c : Cursor) : Except Error (Nat × Cursor) :=
  let (digits, c') := c.span Char.isDigit
  if digits.isEmpty || 9 < digits.length then c.fail .directive
  else .ok (digits.foldl (fun n d => 10 * n + (d.toNat - '0'.toNat)) 0, c')

/-- The token of a directive, from behind the percent sign. -/
def directiveToken (c : Cursor) : Except Error (Token × Cursor) := do
  let (word, c) := c.span isWord
  if !isGap c.rest.head? then c.fail .directive
  let blanks := c.skipWhile isBlank
  if word == "YAML".toList then
    let (major, c) ← versionNumber blanks
    if !c.at? '.' then c.fail .directive
    let (minor, c) ← versionNumber (c.skip 1)
    return (.version major minor, c)
  else if word == "TAG".toList then
    if !blanks.at? '!' then blanks.fail .directive
    let (h, c) := handle blanks
    if h != ['!'] && (h.length ≤ 1 || h.getLast? != some '!') then c.fail .directive
    if !c.rest.head?.any isBlank then c.fail .directive
    let (start, c) ← tagText true (c.skipWhile isBlank)
    if !isGap c.rest.head? then c.fail .directive
    return (.tagDirective h start, c)
  else c.fail .directive

/-- A directive, which fills a line. -/
def directive (s : Scan) : Except Error Scan := do
  let s ← s.leaveBlocks
  let (token, c) ← directiveToken (s.cursor.skip 1)
  let c := c.skipComment
  let s := s.add s.cursor token
  match c.rest, c.lineEnd? with
  | [], _ => return { s with cursor := c }
  | _, some (_, c) => return { s with cursor := c }
  | _, none => c.fail .directive

/-! ## Scalars -/

/-- A block scalar. -/
def blockScalar (s : Scan) (literal : Bool) : Except Error Scan := do
  let s ← s.forgetKey
  let (chars, c) ← block literal s.margin s.cursor
  return { s.add s.cursor (.scalar chars false) with cursor := c, keyAllowed := true }

/-- A quoted scalar. -/
def quotedScalar (s : Scan) (quote : Char) : Except Error Scan := do
  let s ← s.rememberKey
  let (chars, c) ← quoted quote s.cursor
  return { s.add s.cursor (.scalar chars false) with cursor := c, keyAllowed := false }

/-- A plain scalar. -/
def plainScalar (s : Scan) : Except Error Scan := do
  let s ← s.rememberKey
  let p ← plain s.inFlow s.margin s.cursor
  return { s.add s.cursor (.scalar p.chars true) with
    cursor := p.behind, keyAllowed := p.atLine }

/-- The characters with which a plain scalar does not begin. -/
def isIndicator (c : Char) : Bool :=
  "-?:,[]\x7b\x7d#&*!|>'\"%@`".toList.contains c

/-- A plain scalar begins here. -/
def atPlain (s : Scan) : Bool :=
  match s.cursor.rest with
  | [] => false
  | c :: rest =>
      !(isBlank c || isBreak c || isIndicator c) ||
        c == '-' && !rest.head?.any isBlank ||
        !s.inFlow && (c == '?' || c == ':') && !isGap rest.head?

/-! ## All tokens -/

/-- The place behind blanks, comments and line endings. Tabs count as
blanks where no key may begin. There are no more than `count` lines. -/
def toNext : (count : Nat) → Scan → Scan
  | 0, s => s
  | count + 1, s =>
      let tabs := s.inFlow || !s.keyAllowed
      let c := s.cursor.skipWhile fun ch => ch == ' ' || tabs && ch == '\t'
      let c := if c.at? '#' then c.skipWhile (!isBreak ·) else c
      match c.lineEnd? with
      | some (_, c) =>
          toNext count { s with cursor := c, keyAllowed := s.keyAllowed || !s.inFlow }
      | none => { s with cursor := c }

/-- Cuts off the token that begins here. -/
def fetch (s : Scan) (first : Char) : Except Error Scan :=
  let c := s.cursor
  let alone := isGap (c.peek 1)
  if c.column = 0 ∧ first = '%' then s.directive
  else if c.marks '-' then return (← s.leaveBlocks).take 3 .documentStart
  else if c.marks '.' then return (← s.leaveBlocks).take 3 .documentEnd
  else if first = '[' then s.openFlow .flowSequence
  else if first = '\x7b' then s.openFlow .flowMapping
  else if first = ']' then s.closeFlow .flowSequenceEnd
  else if first = '\x7d' then s.closeFlow .flowMappingEnd
  else if first = ',' then s.flowEntry
  else if first = '-' ∧ alone then s.blockEntry
  else if first = '?' ∧ (s.inFlow ∨ alone) then s.explicitKey
  else if first = ':' ∧ (s.inFlow ∨ alone) then s.mappingValue
  else if first = '*' then s.name .alias
  else if first = '&' then s.name .anchor
  else if first = '!' then s.tag
  else if first = '|' ∧ !s.inFlow then s.blockScalar true
  else if first = '>' ∧ !s.inFlow then s.blockScalar false
  else if first = '\'' ∨ first = '"' then s.quotedScalar first
  else if s.atPlain then s.plainScalar
  else s.fail .stray

/-- Cuts off one token, or ends: then all blocks are closed. -/
def step (s : Scan) : Except Error (Scan × Bool) := do
  let s := toNext (s.cursor.rest.length + 1) s
  let s ← s.dropStale
  let s := s.unindent (s.cursor.column + 1)
  match s.cursor.rest with
  | [] => return (← s.leaveBlocks, true)
  | first :: _ => return (← s.fetch first, false)

/-- Cuts off tokens up to the end, of which there are no more than
`count`. -/
def run : (count : Nat) → Scan → Except Error Scan
  | 0, s => s.fail .ended
  | count + 1, s => do
      let (s, done) ← s.step
      if done then return s
      run count s

end Scan

/-- A character that may be in a text. -/
def isAllowed (c : Char) : Bool :=
  c == '\t' || c == '\n' || c == '\r' || (' ' ≤ c && c ≤ '~') || c == '\x85' ||
    ('\xa0' ≤ c && c ≤ '\ud7ff') || ('\ue000' ≤ c && c ≤ '\ufffd') || 0x10000 ≤ c.toNat

/-- The text without a byte order mark. -/
def skipMark : (text : List Char) → List Char
  | '\ufeff' :: rest => rest
  | text => text

/-- The tokens of a text. -/
def tokens (text : List Char) : Except Error (List Placed) :=
  let text := skipMark text
  if text.all isAllowed then
    (Scan.run (text.length + 1) { cursor := { rest := text } }).map (·.tokens.toList)
  else .error ⟨.control, none⟩

end GroovyFindings.Yaml
