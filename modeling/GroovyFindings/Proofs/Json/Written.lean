import GroovyFindings.Proofs.Json.Reader
import GroovyFindings.Proofs.Text.Decimal

/-!
# Values that were written are read back

The text of a value has the tokens of the value, and these are read as the value,
whatever is open around it and whatever follows.  Only where a number ends must what
follows not go on with it.

## Main definitions

* `Value.data` — a value that is written, as one that is read.
* `Value.tokens` — its tokens.
* `Stops` — text that does not go on with a number.

## Main results

* `body?_quote` — a string is read back.
* `tokens?_prettyAt` — the tokens of a value that was written.
* `wanted?_tokens` — the value of these tokens.
* `read?_pretty` — a value that was written is read back.
-/

namespace GroovyFindings.Json

/-! ## Strings -/

theorem hexValue?_hexDigit : ∀ n < 16, hexValue? (hexDigit n) = some n := by decide

theorem hexValue?_zero : hexValue? '0' = some 0 := rfl

/-- A control character is read back from its number. -/
theorem spelled?_hexDigit {c : Char} (control : c.toNat < 0x20) (rest : List Char) :
    spelled? ('0' :: '0' :: hexDigit (c.toNat / 16) :: hexDigit (c.toNat % 16) :: rest) =
      some (c, rest) := by
  have unit : unit? ('0' :: '0' :: hexDigit (c.toNat / 16) :: hexDigit (c.toNat % 16) :: rest) =
      some (c.toNat, rest) := by
    have high := hexValue?_hexDigit (c.toNat / 16) (by omega)
    have low := hexValue?_hexDigit (c.toNat % 16) (by omega)
    have whole : ((0 * 16 + 0) * 16 + c.toNat / 16) * 16 + c.toNat % 16 = c.toNat := by omega
    simp only [unit?, hexValue?_zero, high, low, Option.bind_eq_bind, Option.bind_some, whole]
    rfl
  rw [spelled?, unit]
  dsimp only
  rw [if_neg (by omega), if_neg (by omega), Char.ofNat_toNat]

/-- A character is read back from how it stands in a string. -/
theorem character?_quoteChar (c : Char) (rest : List Char) :
    character? (quoteChar c ++ rest) = some (c, rest) := by
  unfold quoteChar
  iterate 7
    split
    · next h =>
        rw [h]
        rfl
  split
  · next control => exact spelled?_hexDigit control rest
  · next quote backslash _ _ _ _ _ visible =>
      rw [List.singleton_append]
      unfold character?
      split
      · next hnil => cases hnil
      · next heq => exact absurd (List.cons.inj heq).1 backslash
      · next heq => exact absurd (List.cons.inj heq).1 backslash
      · next heq =>
          obtain ⟨rfl, rfl⟩ := List.cons.inj heq
          rw [if_neg (by simp [quote, backslash, visible])]

theorem head?_quoteChar (c : Char) (rest : List Char) : (quoteChar c ++ rest).head? ≠ some '"' := by
  unfold quoteChar
  iterate 8
    split
    · simp
  · next quote _ _ _ _ _ _ _ => simpa using quote

/-- A string is read back. -/
theorem body?_quote (chars rest : List Char) :
    body? (chars.flatMap quoteChar ++ '"' :: rest) = some (chars, rest) := by
  induction chars with
  | nil => rw [List.flatMap_nil, List.nil_append, body?, if_pos List.head?_cons, List.tail_cons]
  | cons c chars ih =>
      rw [List.flatMap_cons, List.append_assoc,
        body?_of_character? (head?_quoteChar c _) (character?_quoteChar c _), ih]
      rfl

/-! ## Numbers -/

/-- The text does not go on with a number. -/
def Stops (text : List Char) : Prop :=
  ∀ c, text.head? = some c → c.isDigit = false ∧ c ≠ '.' ∧ c ≠ 'e' ∧ c ≠ 'E'

theorem exists_toDigits_eq_cons (n : Nat) :
    ∃ c digits, Nat.toDigits 10 n = c :: digits ∧ c.isDigit = true := by
  obtain ⟨c, digits, h⟩ := List.exists_cons_of_ne_nil (Nat.toDigits_ne_nil (b := 10) (n := n))
  exact ⟨c, digits, h, Text.isDigit_of_mem_toDigits (h ▸ List.mem_cons_self)⟩

theorem digits?_toDigits (n : Nat) {rest : List Char} (stop : Stops rest) :
    digits? (Nat.toDigits 10 n ++ rest) = some (Nat.toDigits 10 n, rest) := by
  obtain ⟨htake, hdrop⟩ := (Text.cut_run_iff (p := Char.isDigit)).2
    ⟨rfl, fun c hc => Text.isDigit_of_mem_toDigits hc, fun c hc => (stop c hc).1⟩
  rw [digits?, htake, hdrop]
  exact if_neg Nat.toDigits_ne_nil

theorem fraction?_of_stops {rest : List Char} (stop : Stops rest) :
    fraction? rest = some ([], rest) := by
  unfold fraction?
  split
  · exact absurd rfl (stop '.' rfl).2.1
  · rfl

theorem exponent?_of_stops {rest : List Char} (stop : Stops rest) :
    exponent? rest = some (0, rest) := by
  unfold exponent?
  split
  · exact absurd rfl (stop 'e' rfl).2.2.1
  · exact absurd rfl (stop 'E' rfl).2.2.2
  · rfl

/-- A number is read back. -/
theorem number?_toDigits (n : Nat) {rest : List Char} (stop : Stops rest) :
    number? (Nat.toDigits 10 n ++ rest) = some (.number n 0, rest) := by
  have whole : whole? (Nat.toDigits 10 n ++ rest) = some (Nat.toDigits 10 n, rest) := by
    rw [whole?, digits?_toDigits n stop, Option.filter_some, if_pos]
    by_cases zero : (Nat.toDigits 10 n).head? = some '0'
    · simp [Text.toDigits_of_head?_eq_zero zero]
    · simp [zero]
  have value : signed false (Nat.toDigits 10 n ++ []) = n := by
    rw [List.append_nil, signed, Nat.ofDigitChars_ten_toDigits]
    rfl
  have read : unsigned? false (Nat.toDigits 10 n ++ rest) = some (.number n 0, rest) := by
    simp only [unsigned?, whole, fraction?_of_stops stop, exponent?_of_stops stop, value,
      Option.bind_eq_bind, Option.bind_some]
    rfl
  unfold number?
  split
  · next text heq =>
      obtain ⟨c, digits, hdigits, digit⟩ := exists_toDigits_eq_cons n
      rw [hdigits] at heq
      obtain ⟨rfl, -⟩ := List.cons.inj heq
      exact absurd digit (by decide)
  · exact read

/-! ## Tokens -/

theorem tokens?_cons {c : Char} {text rest : List Char} {t : Token} (ink : c.isWhitespace = false)
    (h : scan? (c :: text) = some (t, rest)) :
    tokens? (c :: text) = (tokens? rest).map (t :: ·) :=
  tokens?_of_scan? (List.dropWhile_cons_of_neg (by simp [ink])) h

theorem tokens?_newLine (depth : Nat) (rest : List Char) :
    tokens? (newLine depth ++ rest) = tokens? rest := by
  apply tokens?_append_of_blank
  intro c hc
  obtain rfl | hc := List.mem_cons.1 hc
  · rfl
  · obtain rfl := List.eq_of_mem_replicate hc
    rfl

theorem tokens?_quote (chars rest : List Char) :
    tokens? (quote chars ++ rest) = (tokens? rest).map (.string chars :: ·) := by
  have spelled : quote chars ++ rest = '"' :: (chars.flatMap quoteChar ++ '"' :: rest) := by
    simp [quote]
  rw [spelled]
  refine tokens?_cons rfl ?_
  rw [scan?, body?_quote]
  rfl

theorem tokens?_toDigits (n : Nat) {rest : List Char} (stop : Stops rest) :
    tokens? (Nat.toDigits 10 n ++ rest) = (tokens? rest).map (.scalar (.number n 0) :: ·) := by
  have read := number?_toDigits n stop
  obtain ⟨c, digits, hdigits, digit⟩ := exists_toDigits_eq_cons n
  rw [hdigits, List.cons_append] at read ⊢
  refine tokens?_cons ?_ ?_
  · rw [← Bool.not_eq_true]
    intro blank
    have visible := Text.isBlank_of_isDigit digit
    rw [Text.isBlank_of_isWhitespace blank] at visible
    cases visible
  · unfold scan?
    split
    case h_8 =>
      rw [scalar?, read]
      rfl
    all_goals
      next heq =>
        obtain ⟨rfl, -⟩ := List.cons.inj heq
        exact absurd digit (by decide)

theorem tokens?_null (rest : List Char) :
    tokens? ("null".toList ++ rest) = (tokens? rest).map (.scalar .null :: ·) :=
  tokens?_cons rfl rfl

theorem tokens?_colon (rest : List Char) :
    tokens? (':' :: ' ' :: rest) = (tokens? rest).map (.colon :: ·) := by
  have blank : ∀ c ∈ [' '], c.isWhitespace = true := by simp
  have passed : tokens? (' ' :: rest) = tokens? rest := tokens?_append_of_blank blank
  rw [tokens?_cons (t := .colon) rfl rfl, passed]

/-! ## Values -/

mutual

/-- A value that is written, as one that is read. -/
def Value.data : Value → Data
  | .null => .null
  | .number n => .number n 0
  | .string chars => .string chars
  | .array items => .array (itemData items)
  | .object members => .object (memberData members)

/-- `Value.data` of items. -/
def itemData : List Value → List Data
  | [] => []
  | v :: vs => v.data :: itemData vs

/-- `Value.data` of members. -/
def memberData : List (List Char × Value) → List (List Char × Data)
  | [] => []
  | (k, v) :: ms => (k, v.data) :: memberData ms

end

theorem itemData_eq_map (vs : List Value) : itemData vs = vs.map Value.data := by
  induction vs with
  | nil => rfl
  | cons v vs ih => rw [itemData, ih, List.map_cons]

theorem memberData_eq_map (ms : List (List Char × Value)) :
    memberData ms = ms.map fun m => (m.1, m.2.data) := by
  induction ms with
  | nil => rfl
  | cons m ms ih => rw [memberData, ih, List.map_cons]

mutual

/-- The tokens of a value. -/
def Value.tokens : Value → List Token
  | .null => [.scalar .null]
  | .number n => [.scalar (.number n 0)]
  | .string chars => [.string chars]
  | .array [] => [.openArray, .closeArray]
  | .array (v :: vs) => .openArray :: (v.tokens ++ (itemTokens vs ++ [.closeArray]))
  | .object [] => [.openObject, .closeObject]
  | .object ((k, v) :: ms) =>
      .openObject :: .string k :: .colon :: (v.tokens ++ (memberTokens ms ++ [.closeObject]))

/-- The tokens of items behind another one. -/
def itemTokens : List Value → List Token
  | [] => []
  | v :: vs => .comma :: (v.tokens ++ itemTokens vs)

/-- The tokens of members behind another one. -/
def memberTokens : List (List Char × Value) → List Token
  | [] => []
  | (k, v) :: ms => .comma :: .string k :: .colon :: (v.tokens ++ memberTokens ms)

end

theorem stops_cons {c : Char} {text : List Char}
    (h : c.isDigit = false ∧ c ≠ '.' ∧ c ≠ 'e' ∧ c ≠ 'E') : Stops (c :: text) := by
  intro d hd
  obtain rfl := Option.some.inj hd
  exact h

theorem stops_newLine (depth : Nat) (rest : List Char) : Stops (newLine depth ++ rest) :=
  stops_cons (by decide)

theorem Stops.prettyItems {rest : List Char} (stop : Stops rest) (depth : Nat)
    (vs : List Value) : Stops (prettyItems depth vs ++ rest) := by
  cases vs with
  | nil => exact stop
  | cons v vs =>
      rw [Json.prettyItems]
      exact stops_cons (by decide)

theorem Stops.prettyMembers {rest : List Char} (stop : Stops rest) (depth : Nat)
    (ms : List (List Char × Value)) : Stops (prettyMembers depth ms ++ rest) := by
  cases ms with
  | nil => exact stop
  | cons m ms =>
      rw [Json.prettyMembers]
      exact stops_cons (by decide)

mutual

/-- The tokens of a value that was written. -/
theorem tokens?_prettyAt (v : Value) (depth : Nat) {rest : List Char} (stop : Stops rest) :
    tokens? (v.prettyAt depth ++ rest) = (tokens? rest).map (v.tokens ++ ·) := by
  match v with
  | .null => exact tokens?_null rest
  | .number n => exact tokens?_toDigits n stop
  | .string chars => exact tokens?_quote chars rest
  | .array [] =>
      simp only [Value.prettyAt, List.cons_append, List.nil_append]
      rw [tokens?_cons (t := .openArray) rfl rfl, tokens?_cons (t := .closeArray) rfl rfl,
        Option.map_map]
      rfl
  | .array (v :: vs) =>
      have close := stops_newLine depth (']' :: rest)
      simp only [Value.prettyAt, List.append_assoc, List.cons_append, List.nil_append]
      rw [tokens?_cons (t := .openArray) rfl rfl, tokens?_newLine,
        tokens?_prettyAt v (depth + 1) (close.prettyItems (depth + 1) vs),
        tokens?_prettyItems vs (depth + 1) close, tokens?_newLine,
        tokens?_cons (t := .closeArray) rfl rfl]
      simp only [Option.map_map, Value.tokens, List.cons_append, List.append_assoc,
        List.nil_append, Function.comp_def]
  | .object [] =>
      simp only [Value.prettyAt, List.cons_append, List.nil_append]
      rw [tokens?_cons (t := .openObject) rfl rfl, tokens?_cons (t := .closeObject) rfl rfl,
        Option.map_map]
      rfl
  | .object ((k, v) :: ms) =>
      have close := stops_newLine depth ('\x7d' :: rest)
      simp only [Value.prettyAt, List.append_assoc, List.cons_append, List.nil_append]
      rw [tokens?_cons (t := .openObject) rfl rfl, tokens?_newLine, tokens?_quote,
        tokens?_colon, tokens?_prettyAt v (depth + 1) (close.prettyMembers (depth + 1) ms),
        tokens?_prettyMembers ms (depth + 1) close, tokens?_newLine,
        tokens?_cons (t := .closeObject) rfl rfl]
      simp only [Option.map_map, Value.tokens, List.cons_append, List.append_assoc,
        List.nil_append, Function.comp_def]

/-- The tokens of items that were written behind another one. -/
theorem tokens?_prettyItems (vs : List Value) (depth : Nat) {rest : List Char}
    (stop : Stops rest) :
    tokens? (prettyItems depth vs ++ rest) = (tokens? rest).map (itemTokens vs ++ ·) := by
  match vs with
  | [] => exact Option.map_id'.symm
  | v :: vs =>
      simp only [prettyItems, List.append_assoc, List.cons_append]
      rw [tokens?_cons (t := .comma) rfl rfl, tokens?_newLine,
        tokens?_prettyAt v depth (stop.prettyItems depth vs), tokens?_prettyItems vs depth stop]
      simp only [Option.map_map, itemTokens, List.cons_append, List.append_assoc,
        Function.comp_def]

/-- The tokens of members that were written behind another one. -/
theorem tokens?_prettyMembers (ms : List (List Char × Value)) (depth : Nat) {rest : List Char}
    (stop : Stops rest) :
    tokens? (prettyMembers depth ms ++ rest) = (tokens? rest).map (memberTokens ms ++ ·) := by
  match ms with
  | [] => exact Option.map_id'.symm
  | (k, v) :: ms =>
      simp only [prettyMembers, List.append_assoc, List.cons_append, List.nil_append]
      rw [tokens?_cons (t := .comma) rfl rfl, tokens?_newLine, tokens?_quote, tokens?_colon,
        tokens?_prettyAt v depth (stop.prettyMembers depth ms),
        tokens?_prettyMembers ms depth stop]
      simp only [Option.map_map, memberTokens, List.cons_append, List.append_assoc,
        Function.comp_def]

end

/-- The tokens of a value do not begin as an array ends. -/
theorem tokens_ne_closeArray (v : Value) (rest ts : List Token) :
    v.tokens ++ rest ≠ .closeArray :: ts := by
  match v with
  | .null | .number _ | .string _ | .array [] | .array (_ :: _) | .object []
  | .object ((_, _) :: _) =>
      rw [Value.tokens]
      exact fun h => Token.noConfusion (List.cons.inj h).1

mutual

/-- A value is read from its tokens, whatever is open around it and whatever
follows. -/
theorem wanted?_tokens (v : Value) (inside : List Frame) (ts : List Token) :
    wanted? inside (v.tokens ++ ts) = found? v.data inside ts := by
  match v with
  | .null => rfl
  | .number n => rfl
  | .string chars => rfl
  | .array [] => rfl
  | .array (v :: vs) =>
      have noEnd := tokens_ne_closeArray v (itemTokens vs ++ .closeArray :: ts)
      have spelled : (Value.array (v :: vs)).tokens ++ ts =
          .openArray :: (v.tokens ++ (itemTokens vs ++ .closeArray :: ts)) := by
        simp only [Value.tokens, List.cons_append, List.append_assoc, List.nil_append]
      rw [spelled, wanted?, wanted?_tokens v, found?_itemTokens vs, Value.data, itemData,
        List.nil_append]
      exact noEnd
  | .object [] => rfl
  | .object ((k, v) :: ms) =>
      have spelled : (Value.object ((k, v) :: ms)).tokens ++ ts =
          .openObject :: .string k :: .colon ::
            (v.tokens ++ (memberTokens ms ++ .closeObject :: ts)) := by
        simp only [Value.tokens, List.cons_append, List.append_assoc, List.nil_append]
      rw [spelled, wanted?, wanted?_tokens v, found?_memberTokens ms, Value.data, memberData,
        List.nil_append]

/-- Items behind another one are read up to the end of the array. -/
theorem found?_itemTokens (vs : List Value) (d : Data) (items : List Data) (inside : List Frame)
    (ts : List Token) :
    found? d (.array items :: inside) (itemTokens vs ++ .closeArray :: ts) =
      found? (.array (items ++ d :: itemData vs)) inside ts := by
  match vs with
  | [] => rfl
  | v :: vs =>
      rw [itemTokens, List.cons_append, List.append_assoc, found?, wanted?_tokens v,
        found?_itemTokens vs, itemData, List.append_assoc, List.singleton_append]

/-- Members behind another one are read up to the end of the object. -/
theorem found?_memberTokens (ms : List (List Char × Value)) (d : Data)
    (members : List (List Char × Data)) (name : List Char) (inside : List Frame)
    (ts : List Token) :
    found? d (.object members name :: inside) (memberTokens ms ++ .closeObject :: ts) =
      found? (.object (members ++ (name, d) :: memberData ms)) inside ts := by
  match ms with
  | [] => rfl
  | (k, v) :: ms =>
      rw [memberTokens, List.cons_append, List.cons_append, List.cons_append, List.append_assoc,
        found?, wanted?_tokens v, found?_memberTokens ms, memberData, List.append_assoc,
        List.singleton_append]

end

theorem stops_of_blank {text : List Char} (blank : ∀ c ∈ text, c.isWhitespace = true) :
    Stops text := by
  intro c hc
  have h := blank c (List.mem_of_mem_head? hc)
  simp only [Char.isWhitespace, Bool.or_eq_true, decide_eq_true_eq] at h
  obtain ((rfl | rfl) | rfl) | rfl := h <;> decide

theorem tokens?_of_blank {text : List Char} (blank : ∀ c ∈ text, c.isWhitespace = true) :
    tokens? text = some [] := by
  rw [← List.append_nil text, tokens?_append_of_blank blank, tokens?]
  rfl

/-- **A value that was written is read back,** also if white space follows it. -/
theorem read?_pretty (v : Value) {rest : List Char} (blank : ∀ c ∈ rest, c.isWhitespace = true) :
    read? (v.pretty ++ rest) = some v.data := by
  rw [read?, Value.pretty, tokens?_prettyAt v 0 (stops_of_blank blank), tokens?_of_blank blank,
    Option.map_some, Option.bind_some, wanted?_tokens]
  rfl

end GroovyFindings.Json
