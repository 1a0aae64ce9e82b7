import GroovyFindings.Text.Utf8

/-!
# Backslashes in what is printed

A backslash and a letter, or up to three octal digits, stand for a byte. A
backslash before anything else stands for itself.

## Main definitions

* `escape` — what a backslash stands for with what follows it.
* `unescaped` — a text with its backslashes followed.
-/

namespace GroovyFindings.Shell

/-- The byte that a letter stands for behind a backslash. -/
def escapeByte? (c : Char) : Option UInt8 :=
  match c with
  | '\\' => some 92
  | 'a' => some 7
  | 'b' => some 8
  | 'e' => some 27
  | 'f' => some 12
  | 'n' => some 10
  | 'r' => some 13
  | 't' => some 9
  | 'v' => some 11
  | _ => none

/-- An octal digit. -/
def isOctal (c : Char) : Bool := '0' ≤ c && c ≤ '7'

/-- The value of octal digits. -/
def octalValue (digits : List Char) : Nat :=
  digits.foldl (fun n c => 8 * n + (c.toNat - '0'.toNat)) 0

/-- The bytes that a backslash stands for with the text that follows it, and
what follows them. -/
def escape (text : List Char) : List UInt8 × List Char :=
  let digits := (text.take 3).takeWhile isOctal
  if digits ≠ [] then ([UInt8.ofNat (octalValue digits)], text.drop digits.length)
  else
    match text with
    | [] => ([92], [])
    | c :: rest =>
        match escapeByte? c with
        | some b => ([b], rest)
        | none => ([92], c :: rest)

theorem escape_length_le (text : List Char) : (escape text).2.length ≤ text.length := by
  unfold escape
  dsimp only
  split
  · simp
  · split
    · simp
    · split <;> simp

/-- A text without a zero that only says that octal digits follow. -/
def withoutZero : (text : List Char) → List Char
  | '0' :: d :: rest => if isOctal d then d :: rest else '0' :: d :: rest
  | text => text

theorem withoutZero_length_le (text : List Char) :
    (withoutZero text).length ≤ text.length := by
  unfold withoutZero
  split
  · split <;> simp
  · exact Nat.le_refl _

/-- A text with its backslashes followed, and whether it is cut where a
backslash stands before `c`. -/
def unescaped : (text : List Char) → List UInt8 × Bool
  | [] => ([], false)
  | c :: rest =>
      if c = '\\' then
        if rest.head? = some 'c' then ([], true)
        else
          let more := unescaped (escape (withoutZero rest)).2
          ((escape (withoutZero rest)).1 ++ more.1, more.2)
      else
        let more := unescaped rest
        (Utf8.encode [c] ++ more.1, more.2)
termination_by text => text.length
decreasing_by
  · have := escape_length_le (withoutZero rest)
    have := withoutZero_length_le rest
    simp only [List.length_cons]
    omega
  · simp

end GroovyFindings.Shell
