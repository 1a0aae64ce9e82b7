import GroovyFindings.Text.Affix
import GroovyFindings.Xml.Tag

/-!
# The events of a document

A document is read as a sequence of tokens, and a token becomes an event
once the name in an end tag has been compared with the tag it closes. The
reader is lenient in a fixed way: a tag, an end tag or a processing
instruction also ends where the document ends; text may stand outside the
root; a document need not have one.

Text between two pieces of markup loses the blanks at both its ends, and
blank text gives no token. Literal sections keep everything.

The bytes may stop with a fault, as when a file can be opened but not
read. Then whatever needs the byte after the last one meets the fault, and
what was complete before it is still read.

## Main definitions

* `Input` — the bytes and how they end.
* `Token.next` — the first token of an input.
* `Event`, `Event.ofToken` — an event, and the check of end tags.
* `events` — all events of a document up to its end or first fault.
-/

namespace GroovyFindings.Xml

/-- The bytes of a document; a fault instead of an end means that they
could not be read any further. -/
structure Input where
  bytes : List UInt8
  fault : Option Disk.Fault

/-- What stands at the end of the bytes: nothing, or the fault. -/
def Input.atEnd {α : Type} (input : Input) (a : α) : Except Error α :=
  match input.fault with
  | none => .ok a
  | some f => .error (.unreadable f)

/-- A piece of a document. -/
inductive Token where
  /-- Text, with references, without blanks at its ends. -/
  | text (raw : List UInt8)
  /-- A literal section. -/
  | cdata (raw : List UInt8)
  /-- What stands between the brackets of a start or self-closing tag. -/
  | tag (content : List UInt8)
  /-- What stands between the slash and the bracket of an end tag. -/
  | endTag (content : List UInt8)
  /-- A comment, instruction, declaration or document type. -/
  | skipped
deriving DecidableEq

namespace Token

/-- `isPrefixOf` without regard to the case of ASCII letters; `start` is in
capitals. -/
def startsUncased (start text : List UInt8) : Bool :=
  start.isPrefixOf
    (text.map fun b => if 0x61 ≤ b && b ≤ 0x7A then b - 0x20 else b)

/-- The bytes up to the first closing bracket, and what follows it. -/
def upToBracket (input : Input) (bytes : List UInt8) :
    Except Error (List UInt8 × List UInt8) :=
  match bytes.dropWhile (· != 0x3E) with
  | _ :: rest => .ok (bytes.takeWhile (· != 0x3E), rest)
  | [] => input.atEnd (bytes, [])

/-- The first closing bracket outside quotes: what precedes and what
follows it. The open quote, if any, is `quote`. -/
def splitTag (quote : Option UInt8) :
    (bytes : List UInt8) → List UInt8 × Option (List UInt8)
  | [] => ([], none)
  | b :: rest =>
      let quote' : Option UInt8 := match quote with
        | some q => if b = q then none else some q
        | none => if b = 0x22 ∨ b = 0x27 then some b else none
      if quote = none ∧ b = 0x3E then ([], some rest)
      else
        let (content, more) := splitTag quote' rest
        (b :: content, more)

/-- The first closing bracket before which `done` holds of the bytes read
so far, the last one first: what precedes and what follows it. -/
def splitBang (done : List UInt8 → Bool) (read : List UInt8) :
    (bytes : List UInt8) → Option (List UInt8 × List UInt8)
  | [] => none
  | b :: rest =>
      if b = 0x3E ∧ done read = true then some (read.reverse, rest)
      else splitBang done (b :: read) rest

/-- A comment ends after two hyphens, and has four at least. -/
def commentDone (read : List UInt8) : Bool :=
  4 ≤ read.length && [0x2D, 0x2D].isPrefixOf read

/-- A literal section ends after two brackets. -/
def cdataDone (read : List UInt8) : Bool := [0x5D, 0x5D].isPrefixOf read

/-- A document type ends where as many brackets have been closed as
opened. -/
def doctypeDone (read : List UInt8) : Bool := read.count 0x3C == read.count 0x3E

/-- A comment from the bytes after the exclamation mark. -/
def ofComment (content : List UInt8) : Except Error Token :=
  if [0x2D, 0x2D].isPrefixOf content then .ok .skipped
  else .error (.incomplete .comment)

/-- A literal section from the bytes after the exclamation mark. -/
def ofCdata (content : List UInt8) : Except Error Token :=
  if startsUncased [0x5B, 0x43, 0x44, 0x41, 0x54, 0x41, 0x5B] content then
    .ok (.cdata ((content.drop 7).dropLast.dropLast))
  else .error (.incomplete .cdata)

/-- A document type from the bytes after the exclamation mark. -/
def ofDoctype (content : List UInt8) : Except Error Token :=
  if startsUncased [0x44, 0x4F, 0x43, 0x54, 0x59, 0x50, 0x45] content then
    if (content.drop 7).all isSpace then .error .emptyDoctype else .ok .skipped
  else .error (.incomplete .doctype)

/-- A construct that `done` ends. -/
def bangWith (input : Input) (construct : Construct) (done : List UInt8 → Bool)
    (ofContent : List UInt8 → Except Error Token) (bytes : List UInt8) :
    Except Error (Token × List UInt8) :=
  match splitBang done [] bytes with
  | some (content, rest) =>
      match ofContent content with
      | .ok token => .ok (token, rest)
      | .error e => .error e
  | none =>
      match input.atEnd () with
      | .ok () => .error (.incomplete construct)
      | .error e => .error e

/-- What an exclamation mark begins. -/
def bang (input : Input) (bytes : List UInt8) : Except Error (Token × List UInt8) :=
  match bytes with
  | [] =>
      match input.atEnd () with
      | .ok () => .error (.incomplete .bang)
      | .error e => .error e
  | b :: _ =>
      if b = 0x5B then bangWith input .cdata cdataDone ofCdata bytes
      else if b = 0x2D then bangWith input .comment commentDone ofComment bytes
      else if b = 0x44 ∨ b = 0x64 then
        bangWith input .doctype doctypeDone ofDoctype bytes
      else .error (.unknownBang (Char.ofNat b.toNat))

/-- An instruction from the bytes after the first question mark: it ends in
another one. -/
def ofInstruction (content : List UInt8) : Except Error Token :=
  if 2 ≤ content.length ∧ content.getLast? = some 0x3F then .ok .skipped
  else .error (.incomplete .declaration)

/-- What an opening bracket begins; nothing when it is the last byte. -/
def markup (input : Input) (bytes : List UInt8) :
    Except Error (Option (Token × List UInt8)) :=
  match bytes with
  | [] => input.atEnd none
  | b :: rest =>
      if b = 0x21 then (bang input rest).map some
      else if b = 0x2F then
        match upToBracket input rest with
        | .ok (content, more) => .ok (some (.endTag content, more))
        | .error e => .error e
      else if b = 0x3F then
        match upToBracket input rest with
        | .ok (content, more) =>
            match ofInstruction content with
            | .ok token => .ok (some (token, more))
            | .error e => .error e
        | .error e => .error e
      else
        match splitTag none bytes with
        | (content, some more) => .ok (some (.tag content, more))
        | (content, none) => input.atEnd (some (.tag content, []))

/-- The first token of an input, and the bytes behind it. -/
def next (input : Input) : Except Error (Option (Token × List UInt8)) :=
  match input.bytes.dropWhile isSpace with
  | [] => input.atEnd none
  | b :: rest =>
      if b = 0x3C then markup input rest
      else
        let raw := Text.dropEndWhile isSpace ((b :: rest).takeWhile (· != 0x3C))
        match (b :: rest).dropWhile (· != 0x3C) with
        | [] => input.atEnd (some (.text raw, []))
        | more => .ok (some (.text raw, more))

/-! ## Every token takes bytes away -/

private theorem atEnd_eq_ok {α : Type} {input : Input} {a b : α}
    (h : input.atEnd a = .ok b) : a = b := by
  unfold Input.atEnd at h
  split at h <;> simp_all

private theorem upToBracket_length_le {input : Input} {bytes content rest : List UInt8}
    (h : upToBracket input bytes = .ok (content, rest)) :
    rest.length ≤ bytes.length := by
  unfold upToBracket at h
  have hle := (List.dropWhile_suffix (· != 0x3E) (l := bytes)).length_le
  split at h
  · next _ more heq =>
      rw [heq] at hle
      simp only [Except.ok.injEq, Prod.mk.injEq] at h
      obtain ⟨-, rfl⟩ := h
      simp only [List.length_cons] at hle
      omega
  · have := atEnd_eq_ok h
    simp only [Prod.mk.injEq] at this
    simp [← this.2]

private theorem splitTag_length_lt {quote : Option UInt8} {bytes content rest : List UInt8}
    (h : splitTag quote bytes = (content, some rest)) : rest.length < bytes.length := by
  induction bytes generalizing quote content with
  | nil => simp [splitTag] at h
  | cons b bytes ih =>
      unfold splitTag at h
      simp only at h
      split at h
      · simp only [Prod.mk.injEq, Option.some.injEq] at h
        simp [h.2]
      · simp only [Prod.mk.injEq] at h
        have := ih (Prod.ext rfl h.2)
        simp only [List.length_cons]
        omega

private theorem splitBang_length_lt {done : List UInt8 → Bool}
    {read bytes content rest : List UInt8}
    (h : splitBang done read bytes = some (content, rest)) :
    rest.length < bytes.length := by
  induction bytes generalizing read with
  | nil => simp [splitBang] at h
  | cons b bytes ih =>
      unfold splitBang at h
      split at h
      · simp only [Option.some.injEq, Prod.mk.injEq] at h
        simp [h.2]
      · have := ih h
        simp only [List.length_cons]
        omega

private theorem bangWith_length_lt {input : Input} {construct : Construct}
    {done : List UInt8 → Bool} {ofContent : List UInt8 → Except Error Token}
    {bytes rest : List UInt8} {token : Token}
    (h : bangWith input construct done ofContent bytes = .ok (token, rest)) :
    rest.length < bytes.length := by
  unfold bangWith at h
  split at h
  · next content more heq =>
      split at h
      · simp only [Except.ok.injEq, Prod.mk.injEq] at h
        rw [← h.2]
        exact splitBang_length_lt heq
      · simp at h
  · split at h <;> simp at h

private theorem bang_length_lt {input : Input} {bytes rest : List UInt8} {token : Token}
    (h : bang input bytes = .ok (token, rest)) : rest.length < bytes.length := by
  unfold bang at h
  split at h
  · split at h <;> simp at h
  · repeat' split at h
    · exact bangWith_length_lt h
    · exact bangWith_length_lt h
    · exact bangWith_length_lt h
    · simp at h

private theorem markup_length_le {input : Input} {bytes rest : List UInt8} {token : Token}
    (h : markup input bytes = .ok (some (token, rest))) :
    rest.length ≤ bytes.length := by
  unfold markup at h
  split at h
  · exact absurd (atEnd_eq_ok h) (by simp)
  · next b more =>
      split at h
      · cases hb : bang input more with
        | error e => simp [hb, Except.map] at h
        | ok p =>
            simp only [hb, Except.map, Except.ok.injEq, Option.some.injEq] at h
            subst h
            have := bang_length_lt hb
            simp only [List.length_cons]
            omega
      split at h
      · split at h
        · next hu =>
            simp only [Except.ok.injEq, Option.some.injEq, Prod.mk.injEq] at h
            have := upToBracket_length_le hu
            simp only [List.length_cons, ← h.2]
            omega
        · simp at h
      split at h
      · split at h
        · next hu =>
            split at h
            · simp only [Except.ok.injEq, Option.some.injEq, Prod.mk.injEq] at h
              have := upToBracket_length_le hu
              simp only [List.length_cons, ← h.2]
              omega
            · simp at h
        · simp at h
      · split at h
        · next hs =>
            simp only [Except.ok.injEq, Option.some.injEq, Prod.mk.injEq] at h
            have := splitTag_length_lt hs
            rw [← h.2]
            omega
        · have := atEnd_eq_ok h
          simp only [Option.some.injEq, Prod.mk.injEq] at this
          simp [← this.2]

theorem next_length_lt {input : Input} {token : Token} {rest : List UInt8}
    (h : next input = .ok (some (token, rest))) : rest.length < input.bytes.length := by
  unfold next at h
  have hle := (List.dropWhile_suffix isSpace (l := input.bytes)).length_le
  split at h
  · exact absurd (atEnd_eq_ok h) (by simp)
  · next b more heq =>
      rw [heq] at hle
      split at h
      · have := markup_length_le h
        simp only [List.length_cons] at hle
        omega
      · next hb =>
          have hdrop : (b :: more).dropWhile (· != 0x3C) = more.dropWhile (· != 0x3C) := by
            rw [List.dropWhile_cons]
            simp [hb]
          have hle' := (List.dropWhile_suffix (· != 0x3C) (l := more)).length_le
          simp only [hdrop] at h
          simp only [List.length_cons] at hle
          split at h
          · have := atEnd_eq_ok h
            simp only [Option.some.injEq, Prod.mk.injEq] at this
            rw [← this.2]
            simp only [List.length_nil]
            omega
          · simp only [Except.ok.injEq, Option.some.injEq, Prod.mk.injEq] at h
            rw [← h.2]
            omega

end Token

/-- A step through a document. -/
inductive Event where
  /-- A start tag. -/
  | start (tag : Tag)
  /-- A self-closing tag. -/
  | empty (tag : Tag)
  /-- The end tag of the innermost open tag. -/
  | close
  /-- Text with references. -/
  | text (raw : List UInt8)
  /-- A literal section. -/
  | cdata (raw : List UInt8)
deriving DecidableEq

/-- The blanks that may follow the name in an end tag. -/
def isEndSpace (b : UInt8) : Bool := isSpace b || b == 0x0C

/-- The name in an end tag: blanks behind it do not count, unless there is
nothing but blanks. -/
def endName (content : List UInt8) : List UInt8 :=
  if content.all isEndSpace then content else Text.dropEndWhile isEndSpace content

/-- A name as a mismatch shows it: nothing when it is not UTF-8. -/
def shownName (name : List UInt8) : List Char :=
  match Utf8.decode name with
  | .ok text => text
  | .error _ => []

/-- The event of a token where the tags named `opened`, innermost first,
are open, and the tags open behind it. -/
def Event.ofToken (opened : List (List UInt8)) :
    Token → Except Error (Option Event × List (List UInt8))
  | .text raw => .ok (some (.text raw), opened)
  | .cdata raw => .ok (some (.cdata raw), opened)
  | .skipped => .ok (none, opened)
  | .tag content =>
      if content.getLast? = some 0x2F then
        .ok (some (.empty (Tag.ofContent content.dropLast)), opened)
      else
        let tag := Tag.ofContent content
        .ok (some (.start tag), tag.name :: opened)
  | .endTag content =>
      match opened with
      | [] => .error (.mismatch [] (shownName content))
      | name :: outer =>
          if endName content = name then .ok (some .close, outer)
          else .error (.mismatch (shownName name) (shownName (endName content)))

/-- The events of an input where the tags named `opened` are open, and the
fault that ends them, if one does. -/
def eventsFrom (fault : Option Disk.Fault) (opened : List (List UInt8))
    (bytes : List UInt8) : List Event × Option Error :=
  match _h : Token.next ⟨bytes, fault⟩ with
  | .error e => ([], some e)
  | .ok none => ([], none)
  | .ok (some (token, rest)) =>
      match Event.ofToken opened token with
      | .error e => ([], some e)
      | .ok (event, opened') =>
          let (events, error) := eventsFrom fault opened' rest
          (event.toList ++ events, error)
termination_by bytes.length
decreasing_by exact Token.next_length_lt _h

/-- A document without the byte order mark that it may begin with. -/
def withoutMark (bytes : List UInt8) : List UInt8 :=
  (Text.stripStart? [0xEF, 0xBB, 0xBF] bytes).getD bytes

/-- The events of a document, and the fault that ends them, if one does. -/
def events (input : Input) : List Event × Option Error :=
  eventsFrom input.fault [] (withoutMark input.bytes)

end GroovyFindings.Xml
