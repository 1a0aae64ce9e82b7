import GroovyFindings.Xml.Reference

/-!
# Tags and their attributes

A tag is what stands between the angle brackets of a start tag, or of a
self-closing one without its slash. Its name runs to the first blank; the
attributes follow.

Attributes are read only while one is looked for, from left to right, and
reading stops at the one wanted: a fault behind it goes unseen. A key is
any run of bytes up to an equals sign or a blank, with at least one byte;
its first byte may be anything but a blank. The next key may follow a
closing quote directly.

## Main definitions

* `Tag`, `Tag.localName` — a tag and its name without the namespace.
* `Attributes.next` — the first attribute of a byte sequence.
* `Tag.lookup` — the value of the first attribute with a given key.
* `Tag.attribute?` — that value as text.
-/

namespace GroovyFindings.Xml

/-- The bytes that separate: space, tab, carriage return and line feed. -/
def isSpace (b : UInt8) : Bool := b == 0x20 || b == 0x09 || b == 0x0D || b == 0x0A

/-- Bytes that are not blank, such as those of a tag's name. -/
def isInk (b : UInt8) : Bool := !isSpace b

/-- The content of a start tag or of a self-closing tag. -/
structure Tag where
  /-- The name, up to the first blank. -/
  name : List UInt8
  /-- All that follows the name. -/
  rest : List UInt8
deriving DecidableEq

/-- The tag with the given content. -/
def Tag.ofContent (content : List UInt8) : Tag :=
  ⟨content.takeWhile isInk, content.dropWhile isInk⟩

/-- The name after the first colon, or the whole name when it has none. -/
def localPart (name : List UInt8) : List UInt8 :=
  match name.dropWhile (· != 0x3A) with
  | _ :: part => part
  | [] => name

/-- The name without the namespace; what is not UTF-8 in it is shown as
`U+FFFD`. -/
def Tag.localName (tag : Tag) : String := Utf8.lossyString (localPart tag.name)

/-- One attribute: where its key starts, its key and its raw value. -/
structure Attribute where
  pos : Nat
  key : List UInt8
  value : List UInt8
deriving DecidableEq

namespace Attributes

/-- What follows the equals sign at `pos - 1`: the value and the rest. -/
def value (pos : Nat) (bytes : List UInt8) :
    Except AttributeError (List UInt8 × Nat × List UInt8) :=
  let blanks := bytes.takeWhile isSpace
  let start := pos + blanks.length
  match bytes.dropWhile isSpace with
  | [] => .error (.expectedValue start)
  | quote :: rest =>
      if quote = 0x22 ∨ quote = 0x27 then
        let content := rest.takeWhile (· != quote)
        match rest.dropWhile (· != quote) with
        | _ :: after => .ok (content, start + 1 + content.length + 1, after)
        | [] =>
            .error (.unclosed (start + 1 + content.length) (Char.ofNat quote.toNat))
      else .error (.unquoted start)

/-- The part of a key after its first byte. -/
def inKey (b : UInt8) : Bool := b != 0x3D && isInk b

/--
The first attribute in `bytes`, which stand at `pos`, together with what
follows it; none when only blanks are left. The keys read so far are
`seen`, and a key may not come twice.
-/
def next (seen : List Attribute) (pos : Nat) (bytes : List UInt8) :
    Except AttributeError (Option (Attribute × Nat × List UInt8)) :=
  let start := pos + (bytes.takeWhile isSpace).length
  match bytes.dropWhile isSpace with
  | [] => .ok none
  | b :: rest =>
      let key := b :: rest.takeWhile inKey
      let stop := start + key.length
      let afterKey := rest.dropWhile inKey
      let equals := stop + (afterKey.takeWhile isSpace).length
      match afterKey.dropWhile isSpace with
      | 0x3D :: afterEquals =>
          match seen.find? (·.key = key) with
          | some earlier => .error (.duplicated start earlier.pos)
          | none =>
              match value (equals + 1) afterEquals with
              | .error e => .error e
              | .ok (v, pos', more) => .ok (some (⟨start, key, v⟩, pos', more))
      | _ => .error (.expectedEquals equals)

theorem value_length_lt {pos pos' : Nat} {bytes v rest : List UInt8}
    (h : value pos bytes = .ok (v, pos', rest)) : rest.length < bytes.length := by
  unfold value at h
  have hle := (List.dropWhile_suffix isSpace (l := bytes)).length_le
  split at h
  · simp at h
  · next quote more heq =>
      rw [heq] at hle
      split at h
      · have hle' := (List.dropWhile_suffix (· != quote) (l := more)).length_le
        split at h
        · next _ after heq' =>
            simp only [Except.ok.injEq, Prod.mk.injEq] at h
            rw [heq'] at hle'
            obtain ⟨-, -, rfl⟩ := h
            simp only [List.length_cons] at hle hle'
            omega
        · simp at h
      · simp at h

theorem next_length_lt {seen : List Attribute} {pos pos' : Nat}
    {bytes rest : List UInt8} {a : Attribute}
    (h : next seen pos bytes = .ok (some (a, pos', rest))) :
    rest.length < bytes.length := by
  unfold next at h
  have hle := (List.dropWhile_suffix isSpace (l := bytes)).length_le
  split at h
  · simp at h
  · next b more heq =>
      rw [heq] at hle
      have hkey := (List.dropWhile_suffix inKey (l := more)).length_le
      have heqs := (List.dropWhile_suffix isSpace (l := more.dropWhile inKey)).length_le
      simp only at h
      split at h
      · next after heq' =>
          rw [heq'] at heqs
          split at h
          · simp at h
          · split at h
            · simp at h
            · next hv =>
                simp only [Except.ok.injEq, Option.some.injEq, Prod.mk.injEq] at h
                obtain ⟨-, -, rfl⟩ := h
                have := value_length_lt hv
                simp only [List.length_cons] at hle heqs
                omega
      · simp at h

/-- The raw value of the first attribute with the key `wanted`. -/
def lookup (wanted : List UInt8) (seen : List Attribute) (pos : Nat)
    (bytes : List UInt8) : Except AttributeError (Option (List UInt8)) :=
  match _h : next seen pos bytes with
  | .error e => .error e
  | .ok none => .ok none
  | .ok (some (a, pos', rest)) =>
      if a.key = wanted then .ok (some a.value)
      else lookup wanted (seen ++ [a]) pos' rest
termination_by bytes.length
decreasing_by exact next_length_lt _h

end Attributes

/-- The text of raw bytes: UTF-8 with references replaced. -/
def textOf (bytes : List UInt8) : Except Error (List Char) :=
  match Utf8.decode bytes with
  | .error f => .error (.notUtf8 f)
  | .ok text =>
      match unescape text with
      | .error e => .error (.reference e)
      | .ok s => .ok s

/-- The value of the first attribute with the given key. -/
def Tag.attribute? (tag : Tag) (key : String) : Except Error (Option String) :=
  match Attributes.lookup (Utf8.ofString key) [] tag.name.length tag.rest with
  | .error e => .error (.attribute e)
  | .ok none => .ok none
  | .ok (some raw) =>
      match textOf raw with
      | .error e => .error e
      | .ok s => .ok (some (String.ofList s))

end GroovyFindings.Xml
