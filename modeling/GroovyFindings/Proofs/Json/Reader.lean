import GroovyFindings.Json.Value
import GroovyFindings.Proofs.Text.Blank

/-!
# A reader of JSON texts

This is a reader that goes by the grammar of JSON to the letter: it reads every JSON
text and refuses all else, be it a comment, a leading zero, a comma too many or a
control character in a string.  It has no part in how values are written.

The text is first taken apart into tokens.  The tokens are then read one by one,
with a list of the arrays and objects that are open, the inner ones first.

Numbers are kept exactly, whatever their size.  A string is made of characters, so
that escapes for half of a character are refused.

## Main definitions

* `Data` — the values that can be read.
* `number?`, `body?`, `scan?`, `tokens?` — the tokens of a text.
* `wanted?`, `found?` — the value that tokens stand for.
* `read?` — the value of a text.

## Main results

* `scan?_length_lt` — something has been read of the text.
* `body?_of_character?`, `tokens?_of_scan?`, `tokens?_append_of_blank` — what is read
  first, and what is passed over.
-/

namespace GroovyFindings.Json

/-- A value of any kind. -/
inductive Data where
  | null
  | boolean (b : Bool)
  /-- The number `mantissa * 10 ^ exponent`. -/
  | number (mantissa exponent : Int)
  | string (chars : List Char)
  | array (items : List Data)
  /-- The members in their order. -/
  | object (members : List (List Char × Data))
deriving Inhabited

/-! ## Numbers -/

/-- The digits at the beginning of a text, one at least, and what follows them. -/
def digits? (text : List Char) : Option (List Char × List Char) :=
  let digits := text.takeWhile Char.isDigit
  if digits = [] then none else some (digits, text.dropWhile Char.isDigit)

/-- The digits before the point.  No zero comes first unless that is all. -/
def whole? (text : List Char) : Option (List Char × List Char) :=
  (digits? text).filter fun p => p.1.head? ≠ some '0' ∨ p.1 = ['0']

/-- The digits behind the point, if there is one. -/
def fraction? : (text : List Char) → Option (List Char × List Char)
  | '.' :: text => digits? text
  | text => some ([], text)

/-- A number with a sign. -/
def signed (negative : Bool) (digits : List Char) : Int :=
  let value : Int := Nat.ofDigitChars 10 digits 0
  if negative then -value else value

/-- The power of ten behind its letter. -/
def power? : (text : List Char) → Option (Int × List Char)
  | '-' :: text => (digits? text).map fun p => (signed true p.1, p.2)
  | '+' :: text => (digits? text).map fun p => (signed false p.1, p.2)
  | text => (digits? text).map fun p => (signed false p.1, p.2)

/-- The power of ten, if there is one. -/
def exponent? : (text : List Char) → Option (Int × List Char)
  | 'e' :: text => power? text
  | 'E' :: text => power? text
  | text => some (0, text)

/-- The number without its sign at the beginning of a text, and what follows it. -/
def unsigned? (negative : Bool) (text : List Char) : Option (Data × List Char) := do
  let (whole, text) ← whole? text
  let (fraction, text) ← fraction? text
  let (exponent, text) ← exponent? text
  return (.number (signed negative (whole ++ fraction)) (exponent - fraction.length), text)

/-- The number at the beginning of a text, and what follows it. -/
def number? : (text : List Char) → Option (Data × List Char)
  | '-' :: text => unsigned? true text
  | text => unsigned? false text

/-! ## Strings -/

/-- The value of a hexadecimal digit. -/
def hexValue? (c : Char) : Option Nat :=
  if '0' ≤ c ∧ c ≤ '9' then some (c.toNat - '0'.toNat)
  else if 'a' ≤ c ∧ c ≤ 'f' then some (c.toNat - 'a'.toNat + 10)
  else if 'A' ≤ c ∧ c ≤ 'F' then some (c.toNat - 'A'.toNat + 10)
  else none

/-- The number of the four hexadecimal digits at the beginning of a text, and what
follows them. -/
def unit? : (text : List Char) → Option (Nat × List Char)
  | a :: b :: c :: d :: text => do
      let a ← hexValue? a
      let b ← hexValue? b
      let c ← hexValue? c
      let d ← hexValue? d
      return (((a * 16 + b) * 16 + c) * 16 + d, text)
  | _ => none

/-- The character whose second half is spelled by its number at the beginning of a
text, and what follows it. -/
def paired? (high : Nat) : (text : List Char) → Option (Char × List Char)
  | '\\' :: 'u' :: text =>
      match unit? text with
      | some (low, text) =>
          if 0xDC00 ≤ low ∧ low < 0xE000 then
            some (Char.ofNat (0x10000 + (high - 0xD800) * 0x400 + (low - 0xDC00)), text)
          else none
      | none => none
  | _ => none

/-- The character that is spelled by its number, or by those of its halves, at the
beginning of a text, and what follows it. -/
def spelled? (text : List Char) : Option (Char × List Char) :=
  match unit? text with
  | some (n, text) =>
      if 0xD800 ≤ n ∧ n < 0xDC00 then paired? n text
      else if 0xDC00 ≤ n ∧ n < 0xE000 then none
      else some (Char.ofNat n, text)
  | none => none

/-- The character that another one stands for behind a backslash. -/
def escaped? : (c : Char) → Option Char
  | '"' => some '"'
  | '\\' => some '\\'
  | '/' => some '/'
  | 'b' => some '\x08'
  | 'f' => some '\x0c'
  | 'n' => some '\n'
  | 'r' => some '\r'
  | 't' => some '\t'
  | _ => none

/-- The character of a string at the beginning of a text, and what follows it. -/
def character? : (text : List Char) → Option (Char × List Char)
  | [] => none
  | '\\' :: 'u' :: text => spelled? text
  | '\\' :: c :: text => (escaped? c).map (·, text)
  | c :: text => if c.toNat < 0x20 ∨ c = '"' ∨ c = '\\' then none else some (c, text)

theorem unit?_length_lt {text rest : List Char} {n : Nat} (h : unit? text = some (n, rest)) :
    rest.length < text.length := by
  unfold unit? at h
  split at h
  · simp only [Option.bind_eq_bind, Option.bind_eq_some_iff, Option.pure_def,
      Option.some.injEq, Prod.mk.injEq] at h
    obtain ⟨-, -, -, -, -, -, -, -, -, rfl⟩ := h
    simp only [List.length_cons]
    omega
  · cases h

theorem paired?_length_lt {high : Nat} {text rest : List Char} {c : Char}
    (h : paired? high text = some (c, rest)) : rest.length < text.length := by
  unfold paired? at h
  split at h
  · split at h
    · next low behind hunit =>
        have hlt := unit?_length_lt hunit
        split at h
        · obtain ⟨-, rfl⟩ := by simpa using h
          simp only [List.length_cons]
          omega
        · cases h
    · cases h
  · cases h

theorem spelled?_length_lt {text rest : List Char} {c : Char}
    (h : spelled? text = some (c, rest)) : rest.length < text.length := by
  unfold spelled? at h
  split at h
  · next n behind hunit =>
      have hlt := unit?_length_lt hunit
      split at h
      · have hlt' := paired?_length_lt h
        omega
      · split at h
        · cases h
        · obtain ⟨-, rfl⟩ := by simpa using h
          exact hlt
  · cases h

theorem character?_length_lt {text rest : List Char} {c : Char}
    (h : character? text = some (c, rest)) : rest.length < text.length := by
  unfold character? at h
  split at h
  · cases h
  · have hlt := spelled?_length_lt h
    simp only [List.length_cons]
    omega
  · obtain ⟨d, -, hpair⟩ := Option.map_eq_some_iff.1 h
    obtain ⟨-, rfl⟩ := Prod.mk.inj hpair
    simp only [List.length_cons]
    omega
  · split at h
    · cases h
    · obtain ⟨-, rfl⟩ := by simpa using h
      simp

/-- The characters of a string up to its closing quote, and what follows that. -/
def body? (text : List Char) : Option (List Char × List Char) :=
  if text.head? = some '"' then some ([], text.tail)
  else
    match _h : character? text with
    | some (c, behind) => (body? behind).map fun p => (c :: p.1, p.2)
    | none => none
termination_by text.length
decreasing_by exact character?_length_lt _h

/-! ## Tokens -/

/-- What a text is taken apart into. -/
inductive Token where
  | openArray
  | closeArray
  | openObject
  | closeObject
  | colon
  | comma
  | string (chars : List Char)
  /-- A number or one of the three words. -/
  | scalar (d : Data)

/-- The word at the beginning of a text, and what follows it. -/
def word? (word : String) (d : Data) (text : List Char) : Option (Data × List Char) :=
  (Text.stripStart? word.toList text).map (d, ·)

/-- The number or the word at the beginning of a text, and what follows it. -/
def scalar? (text : List Char) : Option (Data × List Char) :=
  number? text <|> word? "null" .null text <|> word? "true" (.boolean true) text <|>
    word? "false" (.boolean false) text

/-- The token at the beginning of a text, and what follows it. -/
def scan? : (text : List Char) → Option (Token × List Char)
  | '[' :: text => some (.openArray, text)
  | ']' :: text => some (.closeArray, text)
  | '\x7b' :: text => some (.openObject, text)
  | '\x7d' :: text => some (.closeObject, text)
  | ':' :: text => some (.colon, text)
  | ',' :: text => some (.comma, text)
  | '"' :: text => (body? text).map fun p => (.string p.1, p.2)
  | text => (scalar? text).map fun p => (.scalar p.1, p.2)

/-! ## What is left of a text -/

theorem digits?_length_lt {text digits rest : List Char} (h : digits? text = some (digits, rest)) :
    rest.length < text.length := by
  unfold digits? at h
  dsimp only at h
  split at h
  · cases h
  · next nonempty =>
      obtain ⟨-, rfl⟩ := Prod.mk.inj (Option.some.inj h)
      have whole := congrArg List.length (text.takeWhile_append_dropWhile (p := Char.isDigit))
      have positive := List.length_pos_iff.2 nonempty
      rw [List.length_append] at whole
      omega

theorem fraction?_length_le {text digits rest : List Char}
    (h : fraction? text = some (digits, rest)) : rest.length ≤ text.length := by
  unfold fraction? at h
  split at h
  · have hlt := digits?_length_lt h
    simp only [List.length_cons]
    omega
  · obtain ⟨-, rfl⟩ := Prod.mk.inj (Option.some.inj h)
    exact Nat.le_refl _

theorem power?_length_le {text rest : List Char} {e : Int} (h : power? text = some (e, rest)) :
    rest.length ≤ text.length := by
  unfold power? at h
  split at h
  all_goals
    obtain ⟨⟨digits, behind⟩, hdigits, hpair⟩ := Option.map_eq_some_iff.1 h
    obtain ⟨-, rfl⟩ := Prod.mk.inj hpair
    have hlt := digits?_length_lt hdigits
    simp only [List.length_cons] at hlt ⊢
    omega

theorem exponent?_length_le {text rest : List Char} {e : Int}
    (h : exponent? text = some (e, rest)) : rest.length ≤ text.length := by
  unfold exponent? at h
  split at h
  · have hle := power?_length_le h
    simp only [List.length_cons]
    omega
  · have hle := power?_length_le h
    simp only [List.length_cons]
    omega
  · obtain ⟨-, rfl⟩ := Prod.mk.inj (Option.some.inj h)
    exact Nat.le_refl _

theorem unsigned?_length_lt {negative : Bool} {text rest : List Char} {d : Data}
    (h : unsigned? negative text = some (d, rest)) : rest.length < text.length := by
  simp only [unsigned?, Option.bind_eq_bind, Option.bind_eq_some_iff, Option.pure_def,
    Option.some.injEq, Prod.mk.injEq, Prod.exists] at h
  obtain ⟨whole, text1, hwhole, fraction, text2, hfraction, e, text3, hexponent, -, rfl⟩ := h
  have hlt := digits?_length_lt (Option.filter_eq_some_iff.1 hwhole).1
  have hle := fraction?_length_le hfraction
  have hle' := exponent?_length_le hexponent
  omega

theorem number?_length_lt {text rest : List Char} {d : Data} (h : number? text = some (d, rest)) :
    rest.length < text.length := by
  unfold number? at h
  split at h
  · have hlt := unsigned?_length_lt h
    simp only [List.length_cons]
    omega
  · exact unsigned?_length_lt h

theorem word?_length_lt {word : String} {d d' : Data} {text rest : List Char}
    (nonempty : word.toList ≠ []) (h : word? word d text = some (d', rest)) :
    rest.length < text.length := by
  obtain ⟨behind, hbehind, hpair⟩ := Option.map_eq_some_iff.1 h
  obtain ⟨-, rfl⟩ := Prod.mk.inj hpair
  obtain rfl := Text.stripStart?_eq_some_iff.1 hbehind
  have positive := List.length_pos_iff.2 nonempty
  rw [List.length_append]
  omega

theorem scalar?_length_lt {text rest : List Char} {d : Data} (h : scalar? text = some (d, rest)) :
    rest.length < text.length := by
  simp only [scalar?, Option.orElse_eq_orElse, Option.orElse_eq_or, Option.or_eq_some_iff] at h
  obtain h | ⟨-, h | ⟨-, h | ⟨-, h⟩⟩⟩ := h
  · exact number?_length_lt h
  · exact word?_length_lt (by decide) h
  · exact word?_length_lt (by decide) h
  · exact word?_length_lt (by decide) h

theorem body?_length_lt {text chars rest : List Char} (h : body? text = some (chars, rest)) :
    rest.length < text.length := by
  induction hn : text.length using Nat.strongRecOn generalizing text chars with
  | _ n ih =>
      rw [body?] at h
      split at h
      · next quote =>
          obtain ⟨tail, rfl⟩ := List.head?_eq_some_iff.1 quote
          obtain ⟨-, rfl⟩ := Prod.mk.inj (Option.some.inj h)
          rw [← hn]
          simp
      · split at h
        · next c behind hcharacter =>
            obtain ⟨p, hbody, hpair⟩ := Option.map_eq_some_iff.1 h
            obtain ⟨-, rfl⟩ := Prod.mk.inj hpair
            have hlt := character?_length_lt hcharacter
            have := ih behind.length (by omega) hbody rfl
            omega
        · cases h

/-- One character of a string is read where the string does not end. -/
theorem body?_of_character? {text behind : List Char} {c : Char}
    (more : text.head? ≠ some '"') (h : character? text = some (c, behind)) :
    body? text = (body? behind).map fun p => (c :: p.1, p.2) := by
  rw [body?, if_neg more]
  split
  · next d behind' hd =>
      rw [h] at hd
      obtain ⟨rfl, rfl⟩ := by simpa using hd
      rfl
  · next hnone =>
      rw [h] at hnone
      cases hnone

/-- Something is read of the text with every token. -/
theorem scan?_length_lt {text rest : List Char} {t : Token} (h : scan? text = some (t, rest)) :
    rest.length < text.length := by
  unfold scan? at h
  split at h
  case h_7 =>
    obtain ⟨p, hbody, hpair⟩ := Option.map_eq_some_iff.1 h
    obtain ⟨-, rfl⟩ := Prod.mk.inj hpair
    have hlt := body?_length_lt hbody
    simp only [List.length_cons]
    omega
  case h_8 =>
    obtain ⟨p, hscalar, hpair⟩ := Option.map_eq_some_iff.1 h
    obtain ⟨-, rfl⟩ := Prod.mk.inj hpair
    exact scalar?_length_lt hscalar
  all_goals
    obtain ⟨-, rfl⟩ := Prod.mk.inj (Option.some.inj h)
    simp

/-! ## The tokens of a text -/

/-- The tokens of a text, with nothing but white space between them. -/
def tokens? (text : List Char) : Option (List Token) :=
  match _hrest : text.dropWhile Char.isWhitespace with
  | [] => some []
  | c :: rest =>
      match _hscan : scan? (c :: rest) with
      | some (t, behind) => (tokens? behind).map (t :: ·)
      | none => none
termination_by text.length
decreasing_by
  have hlt := scan?_length_lt _hscan
  have hle := (List.dropWhile_suffix Char.isWhitespace (l := text)).length_le
  rw [_hrest] at hle
  omega

/-- One token is read where there is no white space. -/
theorem tokens?_of_scan? {text behind : List Char} {t : Token}
    (ink : text.dropWhile Char.isWhitespace = text) (h : scan? text = some (t, behind)) :
    tokens? text = (tokens? behind).map (t :: ·) := by
  rw [tokens?]
  split
  · next hnil =>
      rw [ink] at hnil
      rw [hnil] at h
      cases h
  · next c rest hrest =>
      rw [ink] at hrest
      rw [← hrest, h]

/-- White space is passed over. -/
theorem tokens?_append_of_blank {blank rest : List Char}
    (h : ∀ c ∈ blank, c.isWhitespace = true) : tokens? (blank ++ rest) = tokens? rest := by
  rw [tokens?, tokens?.eq_1 rest, List.dropWhile_append_of_pos h]

/-! ## Values -/

/-- An array or an object that is open, with what has been read of it. -/
inductive Frame where
  | array (items : List Data)
  /-- The value of the member `name` is still to come. -/
  | object (members : List (List Char × Data)) (name : List Char)

mutual

/-- Reads on where a value is wanted. -/
def wanted? (inside : List Frame) : (tokens : List Token) → Option Data
  | .scalar d :: ts => found? d inside ts
  | .string chars :: ts => found? (.string chars) inside ts
  | .openArray :: .closeArray :: ts => found? (.array []) inside ts
  | .openArray :: ts => wanted? (.array [] :: inside) ts
  | .openObject :: .closeObject :: ts => found? (.object []) inside ts
  | .openObject :: .string name :: .colon :: ts => wanted? (.object [] name :: inside) ts
  | _ => none

/-- Reads on where the value `d` has been read. -/
def found? (d : Data) : (inside : List Frame) → (tokens : List Token) → Option Data
  | [], [] => some d
  | .array items :: inside, .comma :: ts => wanted? (.array (items ++ [d]) :: inside) ts
  | .array items :: inside, .closeArray :: ts => found? (.array (items ++ [d])) inside ts
  | .object members name :: inside, .comma :: .string next :: .colon :: ts =>
      wanted? (.object (members ++ [(name, d)]) next :: inside) ts
  | .object members name :: inside, .closeObject :: ts =>
      found? (.object (members ++ [(name, d)])) inside ts
  | _, _ => none

end

/-- The value of a JSON text. -/
def read? (text : List Char) : Option Data := (tokens? text).bind (wanted? [])

example : read? " [1, -2.50E+3\t, [] ]\n".toList =
    some (.array [.number 1 0, .number (-250) 1, .array []]) := by cbv

example : read? "[1,]".toList = none := by cbv

end GroovyFindings.Json
