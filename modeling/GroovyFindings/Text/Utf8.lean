/-!
# Reading UTF-8

Text arrives as bytes. Names and literal sections are read leniently, with
`U+FFFD` in the place of what is not UTF-8; other text is read strictly,
and then the first fault is reported with its place.

A fault is the longest run of bytes that begins like a character and
cannot be continued to one: `width` says how many bytes it spans, unless
the bytes just stop inside a character.

## Main definitions

* `Head`, `head` — what a byte sequence begins with.
* `decode` — the strict reading, `decodeLossy` — the lenient one.
* `encode` — the bytes of a text, `byteLength` — their number.
-/

namespace GroovyFindings.Utf8

/-- What a non-empty byte sequence begins with. -/
inductive Head where
  /-- A character, and the number of bytes after its first. -/
  | char (c : Char) (more : Nat)
  /-- No character: `more` bytes after the first belong to the fault. -/
  | bad (more : Nat)
  /-- The beginning of a character that the bytes end in. -/
  | cut
deriving DecidableEq

/-- A byte that continues a character. -/
def isTail (b : UInt8) : Bool := 0x80 ≤ b && b ≤ 0xBF

/-- The six bits that a continuing byte carries. -/
def tailBits (b : UInt8) : Nat := b.toNat % 64

/-- Which second bytes may follow the first byte `b` of a character of
three or four bytes: longer spellings of shorter characters, surrogates
and numbers beyond `U+10FFFF` are excluded here. -/
def secondAllowed (b second : UInt8) : Bool :=
  if b == 0xE0 then 0xA0 ≤ second && second ≤ 0xBF
  else if b == 0xED then 0x80 ≤ second && second ≤ 0x9F
  else if b == 0xF0 then 0x90 ≤ second && second ≤ 0xBF
  else if b == 0xF4 then 0x80 ≤ second && second ≤ 0x8F
  else isTail second

/-- A character of two bytes. -/
def head2 (b : UInt8) : (rest : List UInt8) → Head
  | [] => .cut
  | b1 :: _ =>
      if isTail b1 then .char (Char.ofNat ((b.toNat % 32) * 64 + tailBits b1)) 1
      else .bad 0

/-- A character of three bytes. -/
def head3 (b : UInt8) : (rest : List UInt8) → Head
  | [] => .cut
  | b1 :: rest =>
      if secondAllowed b b1 then
        match rest with
        | [] => .cut
        | b2 :: _ =>
            if isTail b2 then
              .char (Char.ofNat
                ((b.toNat % 16) * 4096 + tailBits b1 * 64 + tailBits b2)) 2
            else .bad 1
      else .bad 0

/-- A character of four bytes. -/
def head4 (b : UInt8) : (rest : List UInt8) → Head
  | [] => .cut
  | b1 :: rest =>
      if secondAllowed b b1 then
        match rest with
        | [] => .cut
        | b2 :: rest =>
            if isTail b2 then
              match rest with
              | [] => .cut
              | b3 :: _ =>
                  if isTail b3 then
                    .char (Char.ofNat
                      ((b.toNat % 8) * 262144 + tailBits b1 * 4096 +
                        tailBits b2 * 64 + tailBits b3)) 3
                  else .bad 2
            else .bad 1
      else .bad 0

/-- What the bytes `b :: rest` begin with. -/
def head (b : UInt8) (rest : List UInt8) : Head :=
  if b ≤ 0x7F then .char (Char.ofNat b.toNat) 0
  else if 0xC2 ≤ b && b ≤ 0xDF then head2 b rest
  else if 0xE0 ≤ b && b ≤ 0xEF then head3 b rest
  else if 0xF0 ≤ b && b ≤ 0xF4 then head4 b rest
  else .bad 0

/-- Where a byte sequence stops being UTF-8. -/
structure Fault where
  /-- The number of bytes before the fault. -/
  index : Nat
  /-- The bytes of the fault, or none when the bytes stop inside a
  character. -/
  width : Option Nat
deriving DecidableEq, Repr

/-- The words for a fault. -/
def Fault.message (f : Fault) : String :=
  match f.width with
  | some w => s!"invalid utf-8 sequence of {w} bytes from index {f.index}"
  | none => s!"incomplete utf-8 byte sequence from index {f.index}"

/-- Strict reading of bytes that follow `index` others. -/
def decodeFrom (index : Nat) : List UInt8 → Except Fault (List Char)
  | [] => .ok []
  | b :: rest =>
      match head b rest with
      | .char c more =>
          match decodeFrom (index + 1 + more) (rest.drop more) with
          | .ok cs => .ok (c :: cs)
          | .error f => .error f
      | .bad more => .error ⟨index, some (1 + more)⟩
      | .cut => .error ⟨index, none⟩
termination_by bytes => bytes.length
decreasing_by simp only [List.length_cons, List.length_drop]; omega

/-- The text of a byte sequence that is UTF-8 throughout. -/
def decode (bytes : List UInt8) : Except Fault (List Char) :=
  decodeFrom 0 bytes

/-- The text of any byte sequence, each fault read as `U+FFFD`. -/
def decodeLossy : List UInt8 → List Char
  | [] => []
  | b :: rest =>
      match head b rest with
      | .char c more => c :: decodeLossy (rest.drop more)
      | .bad more => '\ufffd' :: decodeLossy (rest.drop more)
      | .cut => ['\ufffd']
termination_by bytes => bytes.length
decreasing_by all_goals simp only [List.length_cons, List.length_drop]; omega

/-- The bytes of a text. -/
def encode (text : List Char) : List UInt8 := text.flatMap String.utf8EncodeChar

/-- The number of bytes that a text takes. -/
def byteLength : (text : List Char) → Nat
  | [] => 0
  | c :: rest => c.utf8Size + byteLength rest

/-- The lenient reading as a string. -/
def lossyString (bytes : List UInt8) : String := String.ofList (decodeLossy bytes)

/-- The bytes of a string. -/
def ofString (text : String) : List UInt8 := encode text.toList

end GroovyFindings.Utf8
