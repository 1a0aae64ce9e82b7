import GroovyFindings.Text.Utf8
import GroovyFindings.Xml.Error

/-!
# Character references

In text and attribute values five characters can stand by name and every
character by number. `escape` writes the five by name; `unescape` reads
both kinds. Numbers are read with the digits' count bounded before the
digits are looked at, and hexadecimal ones begin with a small `x`.

## Main definitions

* `escape`, `unescape` — writing and reading.
* `Reference.resolve` — the character between ampersand and semicolon.

## Main results

* `unescape_escape` — what is written is read back, for every text.
-/

namespace GroovyFindings.Xml

/-- The characters with a name. -/
def named? : (name : List Char) → Option Char
  | ['l', 't'] => some '<'
  | ['g', 't'] => some '>'
  | ['a', 'm', 'p'] => some '&'
  | ['a', 'p', 'o', 's'] => some '\''
  | ['q', 'u', 'o', 't'] => some '"'
  | _ => none

/-- One character in its escaped form. -/
def escapeChar (c : Char) : List Char :=
  if c = '<' then ['&', 'l', 't', ';']
  else if c = '>' then ['&', 'g', 't', ';']
  else if c = '&' then ['&', 'a', 'm', 'p', ';']
  else if c = '\'' then ['&', 'a', 'p', 'o', 's', ';']
  else if c = '"' then ['&', 'q', 'u', 'o', 't', ';']
  else [c]

/-- A text in its escaped form. -/
def escape (text : List Char) : List Char := text.flatMap escapeChar

namespace Reference

/-- The value of a hexadecimal digit. -/
def hexValue? (b : UInt8) : Option Nat :=
  if 0x30 ≤ b && b ≤ 0x39 then some (b.toNat - 0x30)
  else if 0x61 ≤ b && b ≤ 0x66 then some (b.toNat - 0x61 + 10)
  else if 0x41 ≤ b && b ≤ 0x46 then some (b.toNat - 0x41 + 10)
  else none

/-- The value of a decimal digit. -/
def decValue? (b : UInt8) : Option Nat :=
  if 0x30 ≤ b && b ≤ 0x39 then some (b.toNat - 0x30) else none

/-- The number that `digits` denote in the given base; no digits denote
zero. A byte that is no digit is handed to `bad`. -/
def number (base : Nat) (digit? : UInt8 → Option Nat)
    (bad : Char → ReferenceError) (value : Nat) :
    (digits : List UInt8) → Except ReferenceError Nat
  | [] => .ok value
  | b :: rest =>
      match digit? b with
      | some d => number base digit? bad (base * value + d) rest
      | none => .error (bad (Char.ofNat b.toNat))

/-- The number after a number sign. -/
def code (digits : List Char) : Except ReferenceError Nat :=
  match digits with
  | 'x' :: hex =>
      if (Utf8.encode hex).length > 6 then .error .longHexadecimal
      else number 16 hexValue? .badHexadecimal 0 (Utf8.encode hex)
  | _ =>
      if (Utf8.encode digits).length > 7 then .error .longDecimal
      else number 10 decValue? .badDecimal 0 (Utf8.encode digits)

/-- The character that `name` stands for between an ampersand at `start`
and a semicolon at `stop`. -/
def resolve (start stop : Nat) (name : List Char) : Except ReferenceError Char :=
  match name with
  | '#' :: digits =>
      match code digits with
      | .error e => .error e
      | .ok n =>
          if n = 0 then .error (.null start stop)
          else if n.isValidChar then .ok (Char.ofNat n)
          else .error (.noCharacter n)
  | _ =>
      match named? name with
      | some c => .ok c
      | none => .error (.unknown (start + 1) stop name)

end Reference

/-- What may stand between an ampersand and its semicolon. -/
def inReference (c : Char) : Bool := c != '&' && c != ';'

/-- `unescape` for what follows `pos` bytes of a text of `total` bytes. -/
def unescapeFrom (total pos : Nat) :
    (text : List Char) → Except ReferenceError (List Char)
  | [] => .ok []
  | c :: rest =>
      if c = '&' then
        let name := rest.takeWhile inReference
        let stop := pos + 1 + Utf8.byteLength name
        match _h : rest.dropWhile inReference with
        | ';' :: after =>
            match Reference.resolve pos stop name with
            | .error e => .error e
            | .ok r =>
                match unescapeFrom total (stop + 1) after with
                | .ok more => .ok (r :: more)
                | .error e => .error e
        | _ => .error (.unterminated pos total)
      else
        match unescapeFrom total (pos + c.utf8Size) rest with
        | .ok more => .ok (c :: more)
        | .error e => .error e
termination_by text => text.length
decreasing_by
  · have hle := (List.dropWhile_suffix inReference (l := rest)).length_le
    rw [_h] at hle
    simp only [List.length_cons] at hle ⊢
    omega
  · simp

/-- The text with every reference replaced by its character. -/
def unescape (text : List Char) : Except ReferenceError (List Char) :=
  unescapeFrom (Utf8.byteLength text) 0 text

/-! ## Reading what was written -/

theorem unescapeFrom_name {total pos : Nat} {name : List Char} {c : Char}
    {rest : List Char} (hname : ∀ x ∈ name, inReference x = true)
    (hres : ∀ a b, Reference.resolve a b name = .ok c) :
    unescapeFrom total pos ('&' :: name ++ ';' :: rest) =
      match unescapeFrom total (pos + 1 + Utf8.byteLength name + 1) rest with
      | .ok more => .ok (c :: more)
      | .error e => .error e := by
  have htake : (name ++ ';' :: rest).takeWhile inReference = name := by
    rw [List.takeWhile_append_of_pos hname]
    simp [inReference]
  have hdrop : (name ++ ';' :: rest).dropWhile inReference = ';' :: rest := by
    rw [List.dropWhile_append_of_pos hname]
    simp [inReference]
  rw [List.cons_append, unescapeFrom]
  simp only [if_true, htake, hres]
  split
  · next after h =>
      rw [hdrop] at h
      obtain rfl : rest = after := by simpa using h
      rfl
  · next h => exact absurd hdrop (h rest)

theorem unescapeFrom_escape (total pos : Nat) (text : List Char) :
    unescapeFrom total pos (escape text) = .ok text := by
  induction text generalizing pos with
  | nil => simp [escape, unescapeFrom]
  | cons c text ih =>
      have named : ∀ name : List Char, name.all inReference = true →
          (∀ a b, Reference.resolve a b name = .ok c) →
          escapeChar c = '&' :: name ++ [';'] →
          unescapeFrom total pos (escape (c :: text)) = .ok (c :: text) := by
        intro name hname hres hesc
        have : escape (c :: text) = '&' :: name ++ ';' :: escape text := by
          simp [escape, List.flatMap_cons, hesc]
        rw [this, unescapeFrom_name (List.all_eq_true.1 hname) hres, ih]
      by_cases h1 : c = '<'
      · exact named ['l', 't'] rfl (by subst h1; intros; rfl) (by subst h1; rfl)
      by_cases h2 : c = '>'
      · exact named ['g', 't'] rfl (by subst h2; intros; rfl) (by subst h2; rfl)
      by_cases h3 : c = '&'
      · exact named ['a', 'm', 'p'] rfl (by subst h3; intros; rfl)
          (by subst h3; rfl)
      by_cases h4 : c = '\''
      · exact named ['a', 'p', 'o', 's'] rfl (by subst h4; intros; rfl)
          (by subst h4; rfl)
      by_cases h5 : c = '"'
      · exact named ['q', 'u', 'o', 't'] rfl (by subst h5; intros; rfl)
          (by subst h5; rfl)
      have hesc : escapeChar c = [c] := by simp [escapeChar, h1, h2, h3, h4, h5]
      have : escape (c :: text) = c :: escape text := by
        simp [escape, List.flatMap_cons, hesc]
      rw [this, unescapeFrom]
      simp [h3, ih]

theorem unescape_escape (text : List Char) : unescape (escape text) = .ok text :=
  unescapeFrom_escape _ _ text

end GroovyFindings.Xml
