import GroovyFindings.Yaml.Cursor

/-!
# Scalars of a YAML text

A scalar is written between quotes, as a block behind a vertical bar or an
angle, or plainly. Lines of a scalar are folded: a single line ending is a
space, and of several all but the first remain. In literal blocks lines
stay as they are.

## Main definitions

* `Gap`, `gap` — the blanks and line endings between words of a scalar.
* `quoted`, `plain`, `block` — the three ways to write a scalar.
-/

namespace GroovyFindings.Yaml

/-- The blanks and line endings between words. -/
structure Gap where
  /-- The blanks before the first line ending. -/
  blanks : List Char := []
  /-- The first line ending, if there is one. -/
  first : Option (List Char) := none
  /-- The line endings after the first. -/
  more : List Char := []

/-- What a gap stands for. -/
def Gap.chars (g : Gap) : List Char :=
  match g.first with
  | none => g.blanks
  | some ['\n'] => if g.more.isEmpty then [' '] else g.more
  | some first => first ++ g.more

/-- Reads on in a gap. On all lines but the first no tab may stand before
the column `margin`. There are no more than `count` characters. -/
def gap (margin : Nat) : (count : Nat) → Gap → Cursor → Except Error (Gap × Cursor)
  | 0, g, c => .ok (g, c)
  | count + 1, g, c =>
      match c.rest with
      | [] => .ok (g, c)
      | ch :: _ =>
          if isBlank ch then
            if g.first.isNone then
              gap margin count { g with blanks := g.blanks ++ [ch] } (c.skip 1)
            else if ch = '\t' ∧ c.column < margin then c.fail .tab
            else gap margin count g (c.skip 1)
          else
            match c.lineEnd? with
            | some (chars, c') =>
                if g.first.isNone then
                  gap margin count { g with blanks := [], first := some chars } c'
                else gap margin count { g with more := g.more ++ chars } c'
            | none => .ok (g, c)

/-! ## Between quotes -/

/-- The value of a hexadecimal digit. -/
def hexDigit? (c : Char) : Option Nat :=
  if c.isDigit then some (c.toNat - '0'.toNat)
  else if 'a' ≤ c ∧ c ≤ 'f' then some (c.toNat - 'a'.toNat + 10)
  else if 'A' ≤ c ∧ c ≤ 'F' then some (c.toNat - 'A'.toNat + 10)
  else none

/-- The character that `width` hexadecimal digits denote. -/
def coded? (width : Nat) (text : List Char) : Option Char := do
  let digits := text.take width
  if digits.length < width then none
  let code ← digits.foldlM (fun value c => return 16 * value + (← hexDigit? c)) 0
  if h : code.isValidChar then return Char.ofNatAux code h else none

/-- The character after a backslash, and how many characters spell it. -/
def escaped? : (text : List Char) → Option (Char × Nat)
  | [] => none
  | c :: rest =>
      match c with
      | '0' => some ('\x00', 1)
      | 'a' => some ('\x07', 1)
      | 'b' => some ('\x08', 1)
      | 't' => some ('\t', 1)
      | '\t' => some ('\t', 1)
      | 'n' => some ('\n', 1)
      | 'v' => some ('\x0b', 1)
      | 'f' => some ('\x0c', 1)
      | 'r' => some ('\r', 1)
      | 'e' => some ('\x1b', 1)
      | ' ' => some (' ', 1)
      | '"' => some ('"', 1)
      | '/' => some ('/', 1)
      | '\\' => some ('\\', 1)
      | 'N' => some ('\x85', 1)
      | '_' => some ('\xa0', 1)
      | 'L' => some ('\u2028', 1)
      | 'P' => some ('\u2029', 1)
      | 'x' => (coded? 2 rest).map (·, 3)
      | 'u' => (coded? 4 rest).map (·, 5)
      | 'U' => (coded? 8 rest).map (·, 9)
      | _ => none

/-- The characters of a scalar with `chars` before what follows. -/
def prepend (chars : List Char) (r : Except Error (List Char × Cursor)) :
    Except Error (List Char × Cursor) :=
  r.map fun (more, c) => (chars ++ more, c)

/-- A quoted scalar from behind its opening quote. There are no more than
`count` characters. -/
def quotedRest (quote : Char) : (count : Nat) → Cursor →
    Except Error (List Char × Cursor)
  | 0, c => c.fail .ended
  | count + 1, c =>
      if c.atDocument then c.fail .document
      else
        match c.rest with
        | [] => c.fail .ended
        | ch :: rest =>
            if ch = quote then
              if quote = '\'' ∧ rest.head? = some '\'' then
                prepend ['\''] (quotedRest quote count (c.skip 2))
              else .ok ([], c.skip 1)
            else if quote = '"' ∧ ch = '\\' then
              match (c.skip 1).lineEnd? with
              | some (_, c') =>
                  match gap 0 c'.rest.length { first := some [] } c' with
                  | .ok (g, c'') => prepend g.chars (quotedRest quote count c'')
                  | .error e => .error e
              | none =>
                  match escaped? rest with
                  | some (ch', width) =>
                      prepend [ch'] (quotedRest quote count (c.skip (1 + width)))
                  | none => c.fail .escape
            else if isBlank ch || isBreak ch then
              match gap 0 c.rest.length {} c with
              | .ok (g, c') => prepend g.chars (quotedRest quote count c')
              | .error e => .error e
            else prepend [ch] (quotedRest quote count (c.skip 1))

/-- The quoted scalar that begins here. -/
def quoted (quote : Char) (c : Cursor) : Except Error (List Char × Cursor) :=
  quotedRest quote (c.rest.length + 1) (c.skip 1)

/-! ## Plain scalars -/

/-- A character that separates things between brackets. -/
def isFlow (c : Char) : Bool := c == ',' || c == '[' || c == ']' || c == '\x7b' || c == '\x7d'

/-- A colon that, in a plain scalar between brackets, is followed by
something that cannot be meant. -/
def badColon (inFlow : Bool) (rest : List Char) : Bool :=
  match rest with
  | ':' :: next :: _ => inFlow && (isFlow next || next == '?')
  | _ => false

/-- The plain scalar ends before `rest`. -/
def endsPlain (inFlow : Bool) (rest : List Char) : Bool :=
  match rest with
  | [] => true
  | ':' :: more => isGap more.head?
  | ch :: _ => isBlank ch || isBreak ch || inFlow && isFlow ch

/-- A word of a plain scalar. -/
def plainWord (inFlow : Bool) : (count : Nat) → Cursor →
    Except Error (List Char × Cursor)
  | 0, c => .ok ([], c)
  | count + 1, c =>
      if badColon inFlow c.rest then c.fail .colon
      else if endsPlain inFlow c.rest then .ok ([], c)
      else
        prepend (c.rest.take 1) (plainWord inFlow count (c.skip 1))

/-- What reading a plain scalar gives. -/
structure Plain where
  chars : List Char
  behind : Cursor
  /-- The scalar ends behind a line ending. -/
  atLine : Bool

/-- The rest of a plain scalar, behind the gap `g`. Its lines begin at the
column `margin` or behind it, except between brackets. There are no more
than `count` words. -/
def plainRest (inFlow : Bool) (margin : Nat) : (count : Nat) → Gap → Cursor →
    Except Error Plain
  | 0, g, c => .ok ⟨[], c, g.first.isSome⟩
  | count + 1, g, c =>
      if c.atDocument || c.at? '#' then .ok ⟨[], c, g.first.isSome⟩
      else do
        let (word, c) ← plainWord inFlow (c.rest.length + 1) c
        let chars := if word.isEmpty then [] else g.chars ++ word
        let g : Gap := if word.isEmpty then g else {}
        if (c.rest.head?.all fun ch => !(isBlank ch || isBreak ch)) then
          return ⟨chars, c, g.first.isSome⟩
        let (g, c) ← gap margin c.rest.length g c
        if !inFlow && c.column < margin then
          return ⟨chars, c, g.first.isSome⟩
        let more ← plainRest inFlow margin count g c
        return { more with chars := chars ++ more.chars }

/-- The plain scalar that begins here. -/
def plain (inFlow : Bool) (margin : Nat) (c : Cursor) : Except Error Plain :=
  plainRest inFlow margin (c.rest.length + 1) {} c

/-! ## Blocks -/

/-- What becomes of the line endings at the end of a block. -/
inductive Chomp where
  | strip
  | clip
  | keep
deriving DecidableEq

/-- The header of a block: a sign for the end of the block and a digit for
its indentation, in either order. -/
structure BlockHeader where
  chomp : Chomp := .clip
  indent : Option Nat := none

/-- A sign in the header. -/
def chomp? : Option Char → Option Chomp
  | some '+' => some .keep
  | some '-' => some .strip
  | _ => none

/-- A digit in the header, other than zero. -/
def indent? (c : Cursor) : Except Error (Option Nat × Cursor) :=
  match c.rest with
  | '0' :: _ => c.fail .blockHeader
  | ch :: _ =>
      if ch.isDigit then .ok (some (ch.toNat - '0'.toNat), c.skip 1) else .ok (none, c)
  | [] => .ok (none, c)

/-- The header of a block, and the place behind its line. -/
def blockHeader (c : Cursor) : Except Error (BlockHeader × Cursor) := do
  let (header, c) ← match chomp? c.rest.head? with
    | some chomp => do
        let (indent, c) ← indent? (c.skip 1)
        pure ((⟨chomp, indent⟩ : BlockHeader), c)
    | none => do
        let (indent, c) ← indent? c
        match indent, chomp? c.rest.head? with
        | some _, some chomp => pure (⟨chomp, indent⟩, c.skip 1)
        | _, _ => pure (⟨.clip, indent⟩, c)
  let c := c.skipComment
  match c.rest, c.lineEnd? with
  | [], _ => return (header, c)
  | _, some (_, c) => return (header, c)
  | _, none => c.fail .blockHeader

/-- The empty lines at the beginning of a block or between its lines: their
line endings, the greatest column seen, and the place behind them. The
indentation is `indent`, if it is known. -/
def blockGap (indent : Option Nat) : (count : Nat) → (chars : List Char) →
    (widest : Nat) → Cursor → Except Error (List Char × Nat × Cursor)
  | 0, chars, widest, c => .ok (chars, widest, c)
  | count + 1, chars, widest, c =>
      let spaces := (c.rest.takeWhile (· == ' ')).length
      let c := c.skip (match indent with
        | some n => min spaces (n - c.column)
        | none => spaces)
      let widest := max widest c.column
      if c.at? '\t' && indent.all (c.column < ·) then c.fail .tab
      else
        match c.lineEnd? with
        | some (ending, c) => blockGap indent count (chars ++ ending) widest c
        | none => .ok (chars, widest, c)

/-- What stands between two lines of a block. -/
def blockJoin (literal : Bool) (ending more : List Char) (blankBefore blankAfter : Bool) :
    List Char :=
  if !literal && ending == ['\n'] && !blankBefore && !blankAfter then
    if more.isEmpty then [' '] else more
  else ending ++ more

/-- The lines of a block from a line on: `ending` and `more` are the line
endings before it, and `blank` says whether the line before them begins
with a blank. There are no more than `count` lines. -/
def blockLines (literal : Bool) (header : BlockHeader) (indent : Nat) : (count : Nat) →
    (ending more : List Char) → (blank : Bool) → Cursor →
    Except Error (List Char × Cursor)
  | 0, _, _, _, c => .ok ([], c)
  | count + 1, ending, more, blank, c =>
      if c.column = indent ∧ c.rest ≠ [] then do
        let blank' := c.rest.head?.any isBlank
        let (line, c) := c.span (!isBreak ·)
        let (ending', c) := match c.lineEnd? with
          | some r => r
          | none => ([], c)
        let (more', _, c) ← blockGap (some indent) (c.rest.length + 1) [] 0 c
        prepend (blockJoin literal ending more blank blank' ++ line)
          (blockLines literal header indent count ending' more' blank' c)
      else
        match header.chomp with
        | .strip => .ok ([], c)
        | .clip => .ok (ending, c)
        | .keep => .ok (ending ++ more, c)

/-- The block that begins here, in a node whose content begins at the
column `margin` or behind it. -/
def block (literal : Bool) (margin : Nat) (c : Cursor) :
    Except Error (List Char × Cursor) := do
  let (header, c) ← blockHeader (c.skip 1)
  let known := header.indent.map fun n => margin - 1 + n
  let (more, widest, c) ← blockGap known (c.rest.length + 1) [] 0 c
  let indent := known.getD (max (max widest margin) 1)
  blockLines literal header indent (c.rest.length + 1) [] more false c

end GroovyFindings.Yaml
