import GroovyFindings.Proofs.Text.Decimal

/-!
# Numbers read in words

A machine reads a number digit by digit into a word of 32 bits, and gives up where
the next product or sum is no such word.  Here it is shown that it gives up on no
number that is one: what it holds never gets smaller, however many zeros come first,
so that every number on the way to a word is a word.  And it never reads a number
for another one.

## Main definitions

* `checkedMul?`, `checkedAdd?` — products and sums that are words.
* `pushDigit?`, `wordFrom?`, `word?` — the number in a text, read into a word.

## Main results

* `wordFrom?_eq_some_iff`, `word?_eq_some_iff` — what is read.
* `map_toNat_word?` — it comes to the same as reading without a limit.
-/

namespace GroovyFindings.Text

/-! ## Arithmetic of words -/

/-- The product of two words, if it is a word. -/
def checkedMul? (a b : UInt32) : Option UInt32 :=
  if a.toNat * b.toNat < UInt32.size then some (a * b) else none

/-- The sum of two words, if it is a word. -/
def checkedAdd? (a b : UInt32) : Option UInt32 :=
  if a.toNat + b.toNat < UInt32.size then some (a + b) else none

theorem checkedMul?_eq_some_iff {a b c : UInt32} :
    checkedMul? a b = some c ↔ c.toNat = a.toNat * b.toNat := by
  unfold checkedMul?
  split
  · next fits =>
    have product : (a * b).toNat = a.toNat * b.toNat := by
      rw [UInt32.toNat_mul, Nat.mod_eq_of_lt fits]
    rw [Option.some.injEq, ← UInt32.toNat_inj, product, eq_comm]
  · next large =>
    have small := c.toNat_lt_size
    simp only [reduceCtorEq, false_iff]
    omega

theorem checkedAdd?_eq_some_iff {a b c : UInt32} :
    checkedAdd? a b = some c ↔ c.toNat = a.toNat + b.toNat := by
  unfold checkedAdd?
  split
  · next fits =>
    have sum : (a + b).toNat = a.toNat + b.toNat := by
      rw [UInt32.toNat_add, Nat.mod_eq_of_lt fits]
    rw [Option.some.injEq, ← UInt32.toNat_inj, sum, eq_comm]
  · next large =>
    have small := c.toNat_lt_size
    simp only [reduceCtorEq, false_iff]
    omega

/-! ## Digit by digit -/

/-- A word with one digit more. -/
def pushDigit? (value : UInt32) (d : Nat) : Option UInt32 :=
  (checkedMul? value 10).bind fun tens => checkedAdd? tens (UInt32.ofNat d)

/-- The digits are read behind others that denote `value`. -/
def wordFrom? (value : UInt32) : (digits : List Char) → Option UInt32
  | [] => some value
  | c :: rest =>
      match (digitValue? c).bind (pushDigit? value) with
      | some next => wordFrom? next rest
      | none => none

/-- The word that a run of digits denotes. -/
def digitsWord? : (digits : List Char) → Option UInt32
  | [] => none
  | c :: rest => wordFrom? 0 (c :: rest)

/-- The word in a text, behind a plus sign or none. -/
def word? : (text : List Char) → Option UInt32
  | '+' :: digits => digitsWord? digits
  | digits => digitsWord? digits

theorem digitValue?_lt {c : Char} {d : Nat} (h : digitValue? c = some d) : d < 10 := by
  unfold digitValue? at h
  split at h
  · next range =>
    have high : c.toNat ≤ 57 := range.2
    have value : c.toNat - 48 = d := Option.some.inj h
    omega
  · cases h

/-- The word with one digit more is the number that the digit makes. -/
theorem pushDigit?_eq_some_iff {value next : UInt32} {d : Nat} (digit : d < 10) :
    pushDigit? value d = some next ↔ next.toNat = 10 * value.toNat + d := by
  have ten : (10 : UInt32).toNat = 10 := rfl
  have hd : (UInt32.ofNat d).toNat = d :=
    UInt32.toNat_ofNat_of_lt' (Nat.lt_trans digit (by decide))
  simp only [pushDigit?, Option.bind_eq_some_iff, checkedMul?_eq_some_iff, checkedAdd?_eq_some_iff,
    hd, ten]
  constructor
  · rintro ⟨tens, htens, hnext⟩
    omega
  · intro hnext
    -- the product is not more than the word that is reached
    have small := next.toNat_lt_size
    have htens : (UInt32.ofNat (value.toNat * 10)).toNat = value.toNat * 10 :=
      UInt32.toNat_ofNat_of_lt' (by omega)
    exact ⟨UInt32.ofNat (value.toNat * 10), htens, by omega⟩

/-- The number does not get smaller with more digits. -/
theorem le_of_natValueFrom? {value n : Nat} {digits : List Char}
    (h : natValueFrom? value digits = some n) : value ≤ n := by
  induction digits generalizing value with
  | nil =>
      obtain rfl : value = n := Option.some.inj h
      exact Nat.le_refl _
  | cons c rest ih =>
      rw [natValueFrom?] at h
      split at h
      · next d _ =>
        have le := ih h
        omega
      · cases h

/-- What is read into a word is what is read without a limit, if that is a word. -/
theorem wordFrom?_eq_some_iff {value w : UInt32} {digits : List Char} :
    wordFrom? value digits = some w ↔ natValueFrom? value.toNat digits = some w.toNat := by
  induction digits generalizing value with
  | nil => rw [wordFrom?, natValueFrom?, Option.some.injEq, Option.some.injEq, UInt32.toNat_inj]
  | cons c rest ih =>
      rw [wordFrom?, natValueFrom?]
      cases hd : digitValue? c with
      | none => simp
      | some d =>
          cases hpush : pushDigit? value d with
          | some next =>
              have hnext := (pushDigit?_eq_some_iff (digitValue?_lt hd)).1 hpush
              simp only [Option.bind_some, hpush, ih, hnext]
          | none =>
              simp only [Option.bind_some, hpush, reduceCtorEq, false_iff]
              intro read
              have le := le_of_natValueFrom? read
              have small := w.toNat_lt_size
              have hnext : (UInt32.ofNat (10 * value.toNat + d)).toNat = 10 * value.toNat + d :=
                UInt32.toNat_ofNat_of_lt' (by omega)
              rw [(pushDigit?_eq_some_iff (digitValue?_lt hd)).2 hnext] at hpush
              cases hpush

theorem digitsWord?_eq_some_iff {w : UInt32} {digits : List Char} :
    digitsWord? digits = some w ↔ Denotes digits w.toNat := by
  rw [← natValue?_eq_some_iff]
  cases digits with
  | nil => simp [digitsWord?, natValue?]
  | cons c rest => exact wordFrom?_eq_some_iff

/-- A word is read exactly where there is a numeral for it. -/
theorem word?_eq_some_iff {w : UInt32} {text : List Char} :
    word? text = some w ↔ Numeral w.toNat text := by
  unfold word?
  split
  · next digits => rw [digitsWord?_eq_some_iff, numeral_plus_iff]
  · next other =>
    have unsigned : text.head? ≠ some '+' := by
      intro plus
      obtain ⟨digits, rfl⟩ := List.head?_eq_some_iff.1 plus
      exact other digits rfl
    rw [digitsWord?_eq_some_iff, numeral_iff_of_unsigned unsigned]

/-- Reading into a word comes to the same as reading without a limit and comparing. -/
theorem map_toNat_word? (text : List Char) :
    (word? text).map UInt32.toNat = bounded? maxWord32 text := by
  apply Option.ext
  intro n
  rw [Option.map_eq_some_iff, bounded?_eq_some_iff]
  constructor
  · rintro ⟨w, hw, rfl⟩
    have small := w.toNat_lt_size
    exact ⟨word?_eq_some_iff.1 hw, Nat.le_of_lt_succ small⟩
  · rintro ⟨numeral, fits⟩
    have hn : (UInt32.ofNat n).toNat = n := UInt32.toNat_ofNat_of_lt' (Nat.lt_succ_of_le fits)
    exact ⟨UInt32.ofNat n, word?_eq_some_iff.2 (hn.symm ▸ numeral), hn⟩

end GroovyFindings.Text
