import GroovyFindings.Text.Utf8

/-!
# Reading UTF-8 that was written

What a character begins with does not depend on what follows it, so bytes
that are UTF-8 can be put behind each other and read one after the other.
The bytes of a text are UTF-8, and the text is read back from them.

## Main results

* `head_append` — a character is read alike whatever follows.
* `decode_append` — reading two pieces of UTF-8.
* `decode_encode`, `decodeLossy_encode` — what is written is read back,
  strictly and leniently.
* `ofString_injective` — different strings are written differently.
-/

namespace GroovyFindings.Utf8

/-! ## One character -/

section Append

variable {b : UInt8} {rest : List UInt8} {c : Char} {n : Nat}

private theorem head2_append (h : head2 b rest = .char c n) (more : List UInt8) :
    head2 b (rest ++ more) = .char c n ∧ n ≤ rest.length := by
  match rest with
  | [] => cases h
  | b1 :: rest =>
      simp only [head2, List.cons_append, List.length_cons] at h ⊢
      split at h
      · next h1 =>
          obtain ⟨rfl, rfl⟩ := Head.char.inj h
          exact ⟨if_pos h1, by omega⟩
      · cases h

private theorem head3_append (h : head3 b rest = .char c n) (more : List UInt8) :
    head3 b (rest ++ more) = .char c n ∧ n ≤ rest.length := by
  match rest with
  | [] => cases h
  | [b1] =>
      simp only [head3] at h
      split at h <;> cases h
  | b1 :: b2 :: rest =>
      simp only [head3, List.cons_append, List.length_cons] at h ⊢
      split at h
      · next h1 =>
          rw [if_pos h1]
          split at h
          · next h2 =>
              obtain ⟨rfl, rfl⟩ := Head.char.inj h
              exact ⟨if_pos h2, by omega⟩
          · cases h
      · cases h

private theorem head4_append (h : head4 b rest = .char c n) (more : List UInt8) :
    head4 b (rest ++ more) = .char c n ∧ n ≤ rest.length := by
  match rest with
  | [] => cases h
  | [b1] =>
      simp only [head4] at h
      split at h <;> cases h
  | [b1, b2] =>
      simp only [head4] at h
      repeat' split at h
      all_goals cases h
  | b1 :: b2 :: b3 :: rest =>
      simp only [head4, List.cons_append, List.length_cons] at h ⊢
      split at h
      · next h1 =>
          rw [if_pos h1]
          split at h
          · next h2 =>
              rw [if_pos h2]
              split at h
              · next h3 =>
                  obtain ⟨rfl, rfl⟩ := Head.char.inj h
                  exact ⟨if_pos h3, by omega⟩
              · cases h
          · cases h
      · cases h

/-- A character is read alike whatever follows it. -/
theorem head_append (h : head b rest = .char c n) (more : List UInt8) :
    head b (rest ++ more) = .char c n ∧ n ≤ rest.length := by
  unfold head at h ⊢
  split at h
  · next hb =>
      rw [if_pos hb]
      obtain ⟨-, rfl⟩ := Head.char.inj h
      exact ⟨h, Nat.zero_le _⟩
  next hb1 =>
  rw [if_neg hb1]
  split at h
  · next hb =>
      rw [if_pos hb]
      exact head2_append h more
  next hb2 =>
  rw [if_neg hb2]
  split at h
  · next hb =>
      rw [if_pos hb]
      exact head3_append h more
  next hb3 =>
  rw [if_neg hb3]
  split at h
  · next hb =>
      rw [if_pos hb]
      exact head4_append h more
  · cases h

end Append

/-! ## A character that was written -/

private theorem toNat_ofNat {n : Nat} (h : n < 256) : (UInt8.ofNat n).toNat = n := by
  rw [UInt8.toNat_ofNat', Nat.mod_eq_of_lt h]

/-- The byte that carries the last six bits of a number. -/
private def tailByte (n : Nat) : UInt8 := UInt8.ofNat (n % 0x40 + 0x80)

private theorem toNat_tailByte (n : Nat) : (tailByte n).toNat = n % 0x40 + 0x80 :=
  toNat_ofNat (by omega)

private theorem isTail_tailByte (n : Nat) : isTail (tailByte n) = true := by
  simp only [isTail, Bool.and_eq_true, decide_eq_true_eq, UInt8.le_iff_toNat_le,
    toNat_tailByte, UInt8.reduceToNat]
  omega

private theorem tailBits_tailByte (n : Nat) : tailBits (tailByte n) = n % 0x40 := by
  rw [tailBits, toNat_tailByte]
  omega

/-- The exclusions among second bytes, in numbers. -/
private theorem secondAllowed_tailByte {b : UInt8} (n : Nat)
    (hE0 : b.toNat = 0xE0 → 0x20 ≤ n % 0x40) (hED : b.toNat = 0xED → n % 0x40 ≤ 0x1F)
    (hF0 : b.toNat = 0xF0 → 0x10 ≤ n % 0x40) (hF4 : b.toNat = 0xF4 → n % 0x40 ≤ 0x0F) :
    secondAllowed b (tailByte n) = true := by
  unfold secondAllowed
  simp only [beq_iff_eq, ← UInt8.toNat_inj, UInt8.reduceToNat, UInt8.le_iff_toNat_le,
    toNat_tailByte]
  split
  · next hb =>
      have := hE0 hb
      simp only [Bool.and_eq_true, decide_eq_true_eq]
      omega
  split
  · next hb =>
      have := hED hb
      simp only [Bool.and_eq_true, decide_eq_true_eq]
      omega
  split
  · next hb =>
      have := hF0 hb
      simp only [Bool.and_eq_true, decide_eq_true_eq]
      omega
  split
  · next hb =>
      have := hF4 hb
      simp only [Bool.and_eq_true, decide_eq_true_eq]
      omega
  · exact isTail_tailByte n

section Width

variable {v : Nat}

private theorem head_one (h : v ≤ 0x7F) :
    head (UInt8.ofNat v) [] = .char (Char.ofNat v) 0 := by
  have hb : (UInt8.ofNat v).toNat = v := toNat_ofNat (by omega)
  simp only [head, UInt8.le_iff_toNat_le, UInt8.reduceToNat, hb]
  rw [if_pos h]

private theorem head_two (h : ¬v ≤ 0x7F) (h' : v ≤ 0x7FF) :
    head (UInt8.ofNat (v / 64 % 0x20 + 0xC0)) [tailByte v] =
      .char (Char.ofNat v) 1 := by
  have hb : (UInt8.ofNat (v / 64 % 0x20 + 0xC0)).toNat = v / 64 + 0xC0 := by
    rw [toNat_ofNat (by omega)]
    omega
  have hvalue : (v / 64 + 0xC0) % 32 * 64 + v % 0x40 = v := by omega
  simp only [head, head2, UInt8.le_iff_toNat_le, UInt8.reduceToNat, hb,
    isTail_tailByte, tailBits_tailByte, Bool.and_eq_true, decide_eq_true_eq, if_true]
  rw [if_neg (by omega), if_pos (by omega), hvalue]

/-- The surrogates are no characters. -/
private theorem head_three (h : ¬v ≤ 0x7FF) (h' : v ≤ 0xFFFF) (valid : v.isValidChar) :
    head (UInt8.ofNat (v / 4096 % 0x10 + 0xE0)) [tailByte (v / 64), tailByte v] =
      .char (Char.ofNat v) 2 := by
  have hb : (UInt8.ofNat (v / 4096 % 0x10 + 0xE0)).toNat = v / 4096 + 0xE0 := by
    rw [toNat_ofNat (by omega)]
    omega
  have hsecond : secondAllowed (UInt8.ofNat (v / 4096 % 0x10 + 0xE0))
      (tailByte (v / 64)) = true := by
    simp only [Nat.isValidChar] at valid
    apply secondAllowed_tailByte <;> rw [hb] <;> omega
  have hvalue : (v / 4096 + 0xE0) % 16 * 4096 + v / 64 % 0x40 * 64 + v % 0x40 = v := by
    omega
  simp only [head, head3, UInt8.le_iff_toNat_le, UInt8.reduceToNat, hb, hsecond,
    isTail_tailByte, tailBits_tailByte, Bool.and_eq_true, decide_eq_true_eq, if_true]
  rw [if_neg (by omega), if_neg (by omega), if_pos (by omega), hvalue]

private theorem head_four (h : ¬v ≤ 0xFFFF) (valid : v.isValidChar) :
    head (UInt8.ofNat (v / 262144 % 0x08 + 0xF0))
        [tailByte (v / 4096), tailByte (v / 64), tailByte v] =
      .char (Char.ofNat v) 3 := by
  simp only [Nat.isValidChar] at valid
  have hb : (UInt8.ofNat (v / 262144 % 0x08 + 0xF0)).toNat = v / 262144 + 0xF0 := by
    rw [toNat_ofNat (by omega)]
    omega
  have hsecond : secondAllowed (UInt8.ofNat (v / 262144 % 0x08 + 0xF0))
      (tailByte (v / 4096)) = true := by
    apply secondAllowed_tailByte <;> rw [hb] <;> omega
  have hvalue : (v / 262144 + 0xF0) % 8 * 262144 + v / 4096 % 0x40 * 4096 +
      v / 64 % 0x40 * 64 + v % 0x40 = v := by omega
  simp only [head, head4, UInt8.le_iff_toNat_le, UInt8.reduceToNat, hb, hsecond,
    isTail_tailByte, tailBits_tailByte, Bool.and_eq_true, decide_eq_true_eq, if_true]
  rw [if_neg (by omega), if_neg (by omega), if_neg (by omega), if_pos (by omega), hvalue]

end Width

/-- The bytes of a character begin with it. -/
theorem head_utf8EncodeChar (c : Char) :
    ∃ b rest, String.utf8EncodeChar c = b :: rest ∧
      head b rest = .char c rest.length := by
  have valid : c.toNat.isValidChar := c.valid
  have hchar : Char.ofNat c.toNat = c := Char.ofNat_toNat c
  have hval : c.val.toNat = c.toNat := rfl
  unfold String.utf8EncodeChar
  simp only [hval]
  generalize c.toNat = v at valid hchar ⊢
  subst hchar
  split
  · next h1 => exact ⟨_, _, rfl, head_one h1⟩
  next h1 =>
  split
  · next h2 => exact ⟨_, _, rfl, head_two h1 h2⟩
  next h2 =>
  split
  · next h3 => exact ⟨_, _, rfl, head_three h2 h3 valid⟩
  · next h3 => exact ⟨_, _, rfl, head_four h3 valid⟩

/-- Only the ASCII characters have ASCII bytes, and each has one. -/
theorem eq_singleton_of_mem_utf8EncodeChar {b : UInt8} {c : Char}
    (h : b ∈ String.utf8EncodeChar c) (hb : b.toNat ≤ 0x7F) :
    String.utf8EncodeChar c = [b] ∧ c.toNat = b.toNat := by
  have valid : c.toNat.isValidChar := c.valid
  have hval : c.val.toNat = c.toNat := rfl
  unfold String.utf8EncodeChar at h ⊢
  simp only [hval] at h ⊢
  simp only [Nat.isValidChar] at valid
  split at h
  · next h1 =>
      rw [if_pos h1]
      obtain rfl := List.mem_singleton.1 h
      have hbyte : (UInt8.ofNat c.toNat).toNat = c.toNat := toNat_ofNat (by omega)
      exact ⟨rfl, hbyte.symm⟩
  · exfalso
    -- every other byte has its highest bit set
    have hhigh : ∀ n, 0x80 ≤ n → n < 256 → b ≠ UInt8.ofNat n := by
      rintro n hlow hlt rfl
      rw [toNat_ofNat hlt] at hb
      omega
    split at h
    · simp only [List.mem_cons, List.not_mem_nil, or_false] at h
      rcases h with h | h <;> exact hhigh _ (by omega) (by omega) h
    split at h
    · simp only [List.mem_cons, List.not_mem_nil, or_false] at h
      rcases h with h | h | h <;> exact hhigh _ (by omega) (by omega) h
    · simp only [List.mem_cons, List.not_mem_nil, or_false] at h
      rcases h with h | h | h | h <;> exact hhigh _ (by omega) (by omega) h

/-! ## Texts -/

theorem decodeFrom_cons {b : UInt8} {rest : List UInt8} {c : Char} {n : Nat}
    (h : head b rest = .char c n) (index : Nat) :
    decodeFrom index (b :: rest) =
      (decodeFrom (index + 1 + n) (rest.drop n)).map (c :: ·) := by
  rw [decodeFrom, h]
  simp only
  cases decodeFrom (index + 1 + n) (rest.drop n) <;> rfl

theorem decodeFrom_cons_eq_ok {b : UInt8} {rest : List UInt8} {index : Nat}
    {text : List Char} (h : decodeFrom index (b :: rest) = .ok text) :
    ∃ c n tail, head b rest = .char c n ∧ text = c :: tail ∧
      decodeFrom (index + 1 + n) (rest.drop n) = .ok tail := by
  cases hhead : head b rest with
  | char c n =>
      rw [decodeFrom_cons hhead] at h
      cases htail : decodeFrom (index + 1 + n) (rest.drop n) with
      | error e => simp [htail, Except.map] at h
      | ok tail =>
          simp only [htail, Except.map, Except.ok.injEq] at h
          exact ⟨c, n, tail, rfl, h.symm, htail⟩
  | bad n =>
      rw [decodeFrom, hhead] at h
      cases h
  | cut =>
      rw [decodeFrom, hhead] at h
      cases h

/-- Two pieces of UTF-8 are read one after the other, wherever they stand. -/
theorem decodeFrom_append {xs ys : List UInt8} {text text' : List Char} {index : Nat}
    (h : decodeFrom index xs = .ok text)
    (h' : ∀ i, decodeFrom i ys = .ok text') (index' : Nat) :
    decodeFrom index' (xs ++ ys) = .ok (text ++ text') := by
  induction hn : xs.length using Nat.strongRecOn generalizing xs text index index' with
  | _ n ih =>
      cases xs with
      | nil =>
          obtain rfl : text = [] := by simpa [decodeFrom, eq_comm] using h
          exact h' index'
      | cons b rest =>
          obtain ⟨c, m, tail, hhead, rfl, htail⟩ := decodeFrom_cons_eq_ok h
          obtain ⟨hhead', hlen⟩ := head_append hhead ys
          have hlt : (rest.drop m).length < n := by
            subst hn
            simp only [List.length_drop, List.length_cons]
            omega
          rw [List.cons_append, decodeFrom_cons hhead',
            List.drop_append_of_le_length hlen, ih _ hlt htail _ rfl]
          rfl

/-- Whether bytes are UTF-8 does not depend on where they stand. -/
theorem decodeFrom_of_decode {bytes : List UInt8} {text : List Char}
    (h : decode bytes = .ok text) (index : Nat) : decodeFrom index bytes = .ok text := by
  have hempty : ∀ i, decodeFrom i [] = .ok [] := fun i => by rw [decodeFrom]
  have := decodeFrom_append h hempty index
  simpa only [List.append_nil] using this

theorem decode_append {xs ys : List UInt8} {text text' : List Char}
    (h : decode xs = .ok text) (h' : decode ys = .ok text') :
    decode (xs ++ ys) = .ok (text ++ text') :=
  decodeFrom_append h (decodeFrom_of_decode h') 0

theorem decode_utf8EncodeChar (c : Char) : decode (String.utf8EncodeChar c) = .ok [c] := by
  obtain ⟨b, rest, hbytes, hhead⟩ := head_utf8EncodeChar c
  rw [hbytes, decode, decodeFrom_cons hhead, List.drop_length, decodeFrom]
  rfl

/-- The bytes of a text are UTF-8. -/
theorem decode_encode (text : List Char) : decode (encode text) = .ok text := by
  induction text with
  | nil => simp [encode, decode, decodeFrom]
  | cons c text ih =>
      have hcons : encode (c :: text) = String.utf8EncodeChar c ++ encode text := by
        simp [encode]
      rw [hcons]
      exact decode_append (decode_utf8EncodeChar c) ih

/-! ## Bytes of a text -/

theorem encode_append (text text' : List Char) :
    encode (text ++ text') = encode text ++ encode text' :=
  List.flatMap_append

/-- Different strings have different bytes. -/
theorem ofString_injective {text text' : String} (h : ofString text = ofString text') :
    text = text' := by
  have hread := decode_encode text.toList
  rw [show encode text.toList = encode text'.toList from h, decode_encode] at hread
  exact String.toList_inj.1 (Except.ok.inj hread).symm

/-- The ASCII bytes of a text are those of its characters. -/
theorem toNat_mem_of_mem_encode {b : UInt8} {text : List Char} (h : b ∈ encode text)
    (hb : b.toNat ≤ 0x7F) : ∃ c ∈ text, c.toNat = b.toNat := by
  obtain ⟨c, hc, hmem⟩ := List.mem_flatMap.1 h
  exact ⟨c, hc, (eq_singleton_of_mem_utf8EncodeChar hmem hb).2⟩

theorem head?_encode {text : List Char} {b : UInt8} (h : (encode text).head? = some b) :
    ∃ c, text.head? = some c ∧ b ∈ String.utf8EncodeChar c := by
  cases text with
  | nil => simp [encode] at h
  | cons c text =>
      obtain ⟨first, rest, hbytes, -⟩ := head_utf8EncodeChar c
      simp only [encode, List.flatMap_cons, hbytes, List.cons_append, List.head?_cons,
        Option.some.injEq] at h
      exact ⟨c, rfl, by simp [hbytes, h]⟩

theorem getLast?_encode {text : List Char} {b : UInt8}
    (h : (encode text).getLast? = some b) :
    ∃ c, text.getLast? = some c ∧ b ∈ String.utf8EncodeChar c := by
  induction text with
  | nil => simp [encode] at h
  | cons c text ih =>
      rw [encode, List.flatMap_cons, List.getLast?_append] at h
      cases hlast : (text.flatMap String.utf8EncodeChar).getLast? with
      | some b' =>
          rw [hlast, Option.some_or] at h
          obtain ⟨c', hc', hmem⟩ := ih (hlast.trans h)
          exact ⟨c', by rw [List.getLast?_cons, hc']; rfl, hmem⟩
      | none =>
          rw [hlast, Option.none_or] at h
          have hnil : text = [] := by
            rw [List.getLast?_eq_none_iff] at hlast
            cases text with
            | nil => rfl
            | cons c' text =>
                rw [List.flatMap_cons, List.append_eq_nil_iff] at hlast
                exact absurd hlast.1 String.utf8EncodeChar_ne_nil
          subst hnil
          exact ⟨c, rfl, List.mem_of_getLast? h⟩

/-! ## Lenient reading -/

/-- UTF-8 is read alike leniently. -/
theorem decodeLossy_of_decodeFrom {index : Nat} {bytes : List UInt8} {text : List Char}
    (h : decodeFrom index bytes = .ok text) : decodeLossy bytes = text := by
  induction hn : bytes.length using Nat.strongRecOn generalizing bytes text index with
  | _ n ih =>
      cases bytes with
      | nil =>
          obtain rfl : text = [] := by simpa [decodeFrom, eq_comm] using h
          simp [decodeLossy]
      | cons b rest =>
          obtain ⟨c, m, tail, hhead, rfl, htail⟩ := decodeFrom_cons_eq_ok h
          have hlt : (rest.drop m).length < n := by
            subst hn
            simp only [List.length_drop, List.length_cons]
            omega
          rw [decodeLossy, hhead]
          simp only
          rw [ih _ hlt htail rfl]

/-- What is written is read back leniently. -/
theorem decodeLossy_encode (text : List Char) : decodeLossy (encode text) = text :=
  decodeLossy_of_decodeFrom (decode_encode text)

end GroovyFindings.Utf8
