/-!
# The order of words

Lists are compared element by element from the left, and the first
difference decides; what merely begins another list comes before it.

## Main definitions

* `lexLe` — the order of lists for an order of their elements.

## Main results

* `lexLe_total`, `lexLe_trans`, `lexLe_antisymm` — it is a linear order if
  that of the elements is one.
-/

namespace GroovyFindings.Text

variable {α : Type} [DecidableEq α]

/-- The first list does not come after the second one. -/
def lexLe (le : α → α → Bool) : (as bs : List α) → Bool
  | [], _ => true
  | _ :: _, [] => false
  | a :: as, b :: bs => if a = b then lexLe le as bs else le a b

theorem lexLe_refl (le : α → α → Bool) (as : List α) : lexLe le as as = true := by
  induction as with
  | nil => rfl
  | cons a as ih => simp [lexLe, ih]

theorem lexLe_total {le : α → α → Bool} (total : ∀ a b, le a b || le b a)
    (as bs : List α) : (lexLe le as bs || lexLe le bs as) = true := by
  induction as generalizing bs with
  | nil => rfl
  | cons a as ih =>
      cases bs with
      | nil => rfl
      | cons b bs =>
          by_cases h : a = b
          · simp only [lexLe, h, if_true]
            exact ih bs
          · simp only [lexLe, if_neg h, if_neg (Ne.symm h)]
            exact total a b

theorem lexLe_antisymm {le : α → α → Bool}
    (antisymm : ∀ a b, le a b = true → le b a = true → a = b) {as bs : List α}
    (h : lexLe le as bs = true) (h' : lexLe le bs as = true) : as = bs := by
  induction as generalizing bs with
  | nil =>
      cases bs with
      | nil => rfl
      | cons b bs => exact absurd h' (by simp [lexLe])
  | cons a as ih =>
      cases bs with
      | nil => exact absurd h (by simp [lexLe])
      | cons b bs =>
          by_cases hab : a = b
          · subst hab
            simp only [lexLe, if_true] at h h'
            rw [ih h h']
          · simp only [lexLe, if_neg hab, if_neg (Ne.symm hab)] at h h'
            exact absurd (antisymm a b h h') hab

theorem lexLe_trans {le : α → α → Bool}
    (trans : ∀ a b c, le a b = true → le b c = true → le a c = true)
    (antisymm : ∀ a b, le a b = true → le b a = true → a = b) {as bs cs : List α}
    (h : lexLe le as bs = true) (h' : lexLe le bs cs = true) : lexLe le as cs = true := by
  induction as generalizing bs cs with
  | nil => rfl
  | cons a as ih =>
      cases bs with
      | nil => exact absurd h (by simp [lexLe])
      | cons b bs =>
          cases cs with
          | nil => exact absurd h' (by simp [lexLe])
          | cons c cs =>
              by_cases hab : a = b
              · subst hab
                by_cases hac : a = c
                · subst hac
                  simp only [lexLe, if_true] at h h' ⊢
                  exact ih h h'
                · simp only [lexLe, if_neg hac] at h' ⊢
                  exact h'
              · by_cases hbc : b = c
                · subst hbc
                  simp only [lexLe, if_neg hab] at h ⊢
                  exact h
                · simp only [lexLe, if_neg hab] at h
                  simp only [lexLe, if_neg hbc] at h'
                  have hac : a ≠ c := by
                    rintro rfl
                    exact hab (antisymm a b h h')
                  simp only [lexLe, if_neg hac]
                  exact trans a b c h h'

end GroovyFindings.Text
