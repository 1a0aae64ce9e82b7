import GroovyFindings.Proofs.Text.Blank
import GroovyFindings.Text.Decimal
import GroovyFindings.Text.Digit

/-!
# Numbers that were written

A number that is written in decimal is read back, if it is not greater than
the bound.

## Main definitions

* `Denotes` — digits of which there is one at least, and the number.
* `Numeral` — such digits behind a plus sign or none.

## Main results

* `natValue?_eq_some_iff`, `bounded?_eq_some_iff` — what is read.
* `denotes_toDigits`, `bounded?_toDigits` — the digits of a number.
* `toDigits_of_head?_eq_zero` — no zero comes first.
* `trim_toDigits` — there are no blanks among them.
-/

namespace GroovyFindings.Text

theorem isDigit_iff {c : Char} : c.isDigit = true ↔ '0' ≤ c ∧ c ≤ '9' := by
  simp only [Char.isDigit, Bool.and_eq_true, decide_eq_true_eq]
  rfl

theorem digitValue?_of_isDigit {c : Char} (h : c.isDigit = true) :
    digitValue? c = some (c.toNat - '0'.toNat) := by
  rw [digitValue?, if_pos (isDigit_iff.1 h)]

theorem isDigit_of_digitValue? {c : Char} {d : Nat} (h : digitValue? c = some d) :
    c.isDigit = true := by
  unfold digitValue? at h
  split at h
  · next hrange => exact isDigit_iff.2 hrange
  · cases h

/-- Digits are read as the number that they denote. -/
theorem natValueFrom?_eq {digits : List Char} (h : ∀ c ∈ digits, c.isDigit = true)
    (value : Nat) :
    natValueFrom? value digits = some (Nat.ofDigitChars 10 digits value) := by
  induction digits generalizing value with
  | nil => simp [natValueFrom?]
  | cons c digits ih =>
      have hc := digitValue?_of_isDigit (h c List.mem_cons_self)
      have htail : ∀ d ∈ digits, d.isDigit = true :=
        fun d hd => h d (List.mem_cons_of_mem c hd)
      rw [natValueFrom?, hc, Nat.ofDigitChars_cons]
      exact ih htail _

theorem isDigit_of_natValueFrom? {digits : List Char} {value n : Nat}
    (h : natValueFrom? value digits = some n) : ∀ c ∈ digits, c.isDigit = true := by
  induction digits generalizing value with
  | nil => simp
  | cons c digits ih =>
      simp only [natValueFrom?] at h
      split at h
      · next d hd =>
          simp only [List.mem_cons, forall_eq_or_imp]
          exact ⟨isDigit_of_digitValue? hd, ih h⟩
      · cases h

/-- The digits are ASCII digits, one at least, and denote the number. -/
structure Denotes (digits : List Char) (n : Nat) : Prop where
  nonempty : digits ≠ []
  isDigit : ∀ c ∈ digits, c.isDigit = true
  value : Nat.ofDigitChars 10 digits 0 = n

/-- A number is read if and only if it is denoted. -/
theorem natValue?_eq_some_iff {digits : List Char} {n : Nat} :
    natValue? digits = some n ↔ Denotes digits n := by
  cases digits with
  | nil =>
      constructor
      · intro h
        cases h
      · intro h
        exact absurd rfl h.nonempty
  | cons c digits =>
      constructor
      · intro h
        have hdigits := isDigit_of_natValueFrom? h
        have hvalue := natValueFrom?_eq hdigits 0
        rw [← natValue?, h] at hvalue
        exact ⟨List.cons_ne_nil c digits, hdigits, (Option.some.inj hvalue).symm⟩
      · intro h
        rw [natValue?, natValueFrom?_eq h.isDigit, h.value]

/-- Digits that denote the number, behind a plus sign or none. -/
inductive Numeral (n : Nat) : (text : List Char) → Prop
  | unsigned {digits : List Char} (h : Denotes digits n) : Numeral n digits
  | plus {digits : List Char} (h : Denotes digits n) : Numeral n ('+' :: digits)

theorem not_isDigit_plus : ¬ ('+' : Char).isDigit = true := by decide

theorem Denotes.head?_ne_plus {digits : List Char} {n : Nat} (h : Denotes digits n) :
    digits.head? ≠ some '+' :=
  fun plus => not_isDigit_plus (h.isDigit '+' (List.mem_of_mem_head? plus))

/-- Digits are no sign. -/
theorem numeral_plus_iff {digits : List Char} {n : Nat} :
    Numeral n ('+' :: digits) ↔ Denotes digits n := by
  constructor
  · intro h
    cases h with
    | unsigned h => exact absurd rfl h.head?_ne_plus
    | plus h => exact h
  · exact .plus

theorem numeral_iff_of_unsigned {text : List Char} {n : Nat} (unsigned : text.head? ≠ some '+') :
    Numeral n text ↔ Denotes text n := by
  constructor
  · intro h
    cases h with
    | unsigned h => exact h
    | plus _ => exact absurd rfl unsigned
  · exact .unsigned

/-- What has a sign is read without it. -/
theorem bounded?_eq_some_iff {bound n : Nat} {text : List Char} :
    bounded? bound text = some n ↔ Numeral n text ∧ n ≤ bound := by
  unfold bounded?
  dsimp only
  split
  · next digits =>
    rw [Option.filter_eq_some_iff, natValue?_eq_some_iff, decide_eq_true_eq, numeral_plus_iff]
  · next other =>
    have unsigned : text.head? ≠ some '+' := by
      intro plus
      obtain ⟨digits, rfl⟩ := List.head?_eq_some_iff.1 plus
      exact other digits rfl
    rw [Option.filter_eq_some_iff, natValue?_eq_some_iff, decide_eq_true_eq,
      numeral_iff_of_unsigned unsigned]

/-- Without a sign a number is read if it is denoted and within the bound. -/
theorem bounded?_eq_some_iff_of_unsigned {bound n : Nat} {text : List Char}
    (unsigned : text.head? ≠ some '+') :
    bounded? bound text = some n ↔ Denotes text n ∧ n ≤ bound := by
  rw [bounded?_eq_some_iff, numeral_iff_of_unsigned unsigned]

theorem isDigit_of_mem_toDigits {n : Nat} {c : Char} (h : c ∈ Nat.toDigits 10 n) :
    c.isDigit = true :=
  Nat.isDigit_of_mem_toDigits (by decide) (by decide) h

theorem denotes_toDigits (n : Nat) : Denotes (Nat.toDigits 10 n) n where
  nonempty := Nat.toDigits_ne_nil
  isDigit := fun _ h => isDigit_of_mem_toDigits h
  value := Nat.ofDigitChars_ten_toDigits

/-- A number is written without a zero in front, unless it is zero. -/
theorem toDigits_of_head?_eq_zero {n : Nat} (h : (Nat.toDigits 10 n).head? = some '0') :
    Nat.toDigits 10 n = ['0'] := by
  induction n using Nat.strongRecOn with
  | _ n ih =>
      rw [Nat.toDigits_eq_if (by decide)] at h ⊢
      split at h
      · next single =>
          rw [if_pos single]
          exact congrArg ([·]) (Option.some.inj h)
      · next several =>
          obtain ⟨c, digits, hdigits⟩ :=
            List.exists_cons_of_ne_nil (Nat.toDigits_ne_nil (n := n / 10) (b := 10))
          have head : (Nat.toDigits 10 (n / 10)).head? = some '0' := by
            rw [hdigits] at h ⊢
            exact h
          have value := Nat.ofDigitChars_ten_toDigits (n := n / 10)
          rw [ih (n / 10) (by omega) head] at value
          have zero : Nat.ofDigitChars 10 ['0'] 0 = 0 := by decide
          omega

/-- A number is read back if it is within the bound. -/
theorem bounded?_toDigits {bound n : Nat} (h : n ≤ bound) :
    bounded? bound (Nat.toDigits 10 n) = some n :=
  bounded?_eq_some_iff.2 ⟨.unsigned (denotes_toDigits n), h⟩

theorem isDecimalDigit_of_isDigit {c : Char} (h : c.isDigit = true) : isDecimalDigit c = true := by
  obtain ⟨low, high⟩ := isDigit_iff.1 h
  rw [Char.le_def, UInt32.le_iff_toNat_le] at low high
  rw [isDecimalDigit, List.any_eq_true]
  refine ⟨0x30, by decide, ?_⟩
  rw [Bool.and_eq_true, decide_eq_true_eq, decide_eq_true_eq]
  exact ⟨low, high⟩

theorem isBlank_of_isDigit {c : Char} (h : c.isDigit = true) : isBlank c = false := by
  simp only [Char.isDigit, Bool.and_eq_true, decide_eq_true_eq, ge_iff_le,
    UInt32.le_iff_toNat_le] at h
  have hlow : 48 ≤ c.toNat := h.1
  have hhigh : c.toNat ≤ 57 := h.2
  simp only [isBlank, Bool.or_eq_false_iff, Bool.and_eq_false_iff, decide_eq_false_iff_not,
    beq_eq_false_iff_ne]
  omega

theorem Numeral.isBlank_eq_false {text : List Char} {n : Nat} (h : Numeral n text) :
    ∀ c ∈ text, isBlank c = false := by
  cases h with
  | unsigned h => exact fun c hc => isBlank_of_isDigit (h.isDigit c hc)
  | plus h =>
      simp only [List.mem_cons, forall_eq_or_imp]
      exact ⟨by decide, fun c hc => isBlank_of_isDigit (h.isDigit c hc)⟩

/-- A numeral is left by trimming where it stands between blanks. -/
theorem numeral_trim_iff {text : List Char} {n : Nat} :
    Numeral n (trim text) ↔ ∃ before numeral behind, text = before ++ numeral ++ behind ∧
      (∀ c ∈ before, isBlank c = true) ∧ (∀ c ∈ behind, isBlank c = true) ∧ Numeral n numeral := by
  constructor
  · intro h
    obtain ⟨⟨before, behind, htext, blank, blank'⟩, -, -⟩ := trim_eq_iff.1 (Eq.refl (trim text))
    exact ⟨before, trim text, behind, htext, blank, blank', h⟩
  · rintro ⟨before, numeral, behind, htext, blank, blank', h⟩
    have trimmed : trim text = numeral := by
      refine trim_eq_iff.2 ⟨⟨before, behind, htext, blank, blank'⟩, ?_, ?_⟩
      · exact fun c hc => h.isBlank_eq_false c (List.mem_of_mem_head? hc)
      · exact fun c hc => h.isBlank_eq_false c (List.mem_of_getLast? hc)
    rwa [trimmed]

theorem trim_toDigits (n : Nat) : trim (Nat.toDigits 10 n) = Nat.toDigits 10 n := by
  apply trim_eq_self
  · intro c hc
    exact isBlank_of_isDigit (isDigit_of_mem_toDigits (List.mem_of_mem_head? hc))
  · intro c hc
    exact isBlank_of_isDigit (isDigit_of_mem_toDigits (List.mem_of_getLast? hc))

end GroovyFindings.Text
