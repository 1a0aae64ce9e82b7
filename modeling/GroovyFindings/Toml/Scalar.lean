import GroovyFindings.Toml.Lexeme

/-!
# Bare words that are values

Truth values, integers in four bases, floating-point numbers, and dates
and times. Underscores may stand between digits; a decimal number does not
begin with a zero unless that is all of it. Seconds may be left out of a
time. Numbers have bounds: an integer fits in 128 bits, with or without a
sign, and a floating-point number in double precision.

## Main definitions

* `integer?`, `float?`, `moment?` — the values of a word.
* `scalar` — the value of a bare word.
-/

namespace GroovyFindings.Toml

/-- The digits of a run in which underscores stand between digits. -/
def digitRun? (isDigit : Char → Bool) (run : List Char) : Option (List Char) :=
  let parts := run.splitOn '_'
  if parts.all fun part => !part.isEmpty && part.all isDigit then some parts.flatten
  else none

/-- The value of a decimal digit. -/
def decimal? (c : Char) : Option Nat := if c.isDigit then some (c.toNat - '0'.toNat) else none

/-- The number that a run of digits denotes in a base. -/
def natural? (base : Nat) (digit? : Char → Option Nat) (run : List Char) : Option Nat := do
  let digits ← digitRun? (fun c => (digit? c).isSome) run
  numeral? base digit? digits

/-- The value of a digit below `base`. -/
def below? (base : Nat) (c : Char) : Option Nat := (hexValue? c).filter (· < base)

/-- A sign, and the text behind it. -/
def signed : (word : List Char) → Bool × List Char
  | '-' :: rest => (true, rest)
  | '+' :: rest => (false, rest)
  | word => (false, word)

/-- Decimal digits that do not begin with a zero, unless that is all. -/
def plainDigits (run : List Char) : Bool :=
  match run with
  | '0' :: _ :: _ => false
  | _ => (digitRun? Char.isDigit run).isSome

/-- The integer that a word denotes. -/
def integer? (word : List Char) : Option Int :=
  match word with
  | '0' :: 'x' :: run => (natural? 16 hexValue? run).map Int.ofNat
  | '0' :: 'o' :: run => (natural? 8 (below? 8) run).map Int.ofNat
  | '0' :: 'b' :: run => (natural? 2 (below? 2) run).map Int.ofNat
  | _ =>
      let (negative, run) := signed word
      if plainDigits run then
        (natural? 10 decimal? run).map fun n => if negative then -(n : Int) else n
      else none

/-- The integer is within the bounds. -/
def integerFits (n : Int) : Bool :=
  -Int.ofNat (Nat.pow 2 127) ≤ n && n < Int.ofNat (Nat.pow 2 128)

/-- A floating-point number in words. -/
structure FloatWord where
  /-- The digits before the point and behind it. -/
  digits : List Char
  /-- The power of ten that the last of them counts. -/
  exponent : Int
deriving DecidableEq, Repr

/-- The exponent of a floating-point number. -/
def exponent? (text : List Char) : Option Int :=
  match text with
  | [] => some 0
  | c :: rest =>
      if c = 'e' ∨ c = 'E' then
        let (negative, run) := signed rest
        (natural? 10 decimal? run).map fun n => if negative then -(n : Int) else n
      else none

/-- The floating-point number that a word without a sign denotes: it has a
point or an exponent. -/
def floatWord? (word : List Char) : Option FloatWord := do
  let inRun (c : Char) : Bool := c.isDigit || c == '_'
  let whole := word.takeWhile inRun
  let rest := word.dropWhile inRun
  if !plainDigits whole || rest.isEmpty then none
  let wholeDigits ← digitRun? Char.isDigit whole
  match rest with
  | '.' :: rest =>
      let fraction ← digitRun? Char.isDigit (rest.takeWhile inRun)
      let e ← exponent? (rest.dropWhile inRun)
      return ⟨wholeDigits ++ fraction, e - fraction.length⟩
  | _ =>
      let e ← exponent? rest
      return ⟨wholeDigits, e⟩

/-- Rounded to double precision the number is finite: it is less than the
middle between the greatest double and the next power of two. -/
def FloatWord.finite (f : FloatWord) : Bool :=
  let digits := f.digits.dropWhile (· == '0')
  let magnitude : Int := digits.length + f.exponent
  if digits.isEmpty || magnitude ≤ 300 then true
  else if 310 < magnitude then false
  else
    let value := (numeral? 10 decimal? digits).getD 0
    let bound := Nat.pow 2 1024 - Nat.pow 2 970
    if 0 ≤ f.exponent then value * Nat.pow 10 f.exponent.toNat < bound
    else value < bound * Nat.pow 10 (-f.exponent).toNat

/-- The words for values without digits. -/
def specialFloats : List (List Char) := ["inf".toList, "nan".toList]

/-- A word that denotes a floating-point number, and whether it is within
the bounds. -/
def float? (word : List Char) : Option Bool :=
  let (_, rest) := signed word
  if specialFloats.contains rest then some true
  else (floatWord? rest).map FloatWord.finite

/-! ## Dates and times -/

/-- A number of exactly `width` digits, and the text behind it. -/
def fixed? (width : Nat) (text : List Char) : Option (Nat × List Char) :=
  let digits := text.take width
  if digits.length < width then none
  else (numeral? 10 decimal? digits).map (·, text.drop width)

/-- The text behind one of the given characters. -/
def after? (cs : List Char) : (text : List Char) → Option (List Char)
  | [] => none
  | c :: rest => if cs.contains c then some rest else none

/-- The days of a month. -/
def daysOf (year month : Nat) : Nat :=
  if month = 2 then
    if year % 4 = 0 ∧ (year % 100 ≠ 0 ∨ year % 400 = 0) then 29 else 28
  else if [4, 6, 9, 11].contains month then 30
  else 31

/-- The text behind a date. -/
def date? (text : List Char) : Option (List Char) := do
  let (year, text) ← fixed? 4 text
  let (month, text) ← fixed? 2 (← after? ['-'] text)
  let (day, text) ← fixed? 2 (← after? ['-'] text)
  if 1 ≤ month ∧ month ≤ 12 ∧ 1 ≤ day ∧ day ≤ daysOf year month then some text else none

/-- The text behind the seconds of a time, which may be missing. -/
def seconds? (text : List Char) : Option (List Char) :=
  match text with
  | ':' :: rest => do
      let (second, rest) ← fixed? 2 rest
      if 60 < second then none
      match rest with
      | '.' :: fraction =>
          if (fraction.takeWhile Char.isDigit).isEmpty then none
          else some (fraction.dropWhile Char.isDigit)
      | _ => some rest
  | _ => some text

/-- The text behind hours and minutes. -/
def minutes? (text : List Char) : Option (List Char) := do
  let (hour, text) ← fixed? 2 text
  let (minute, text) ← fixed? 2 (← after? [':'] text)
  if hour ≤ 23 ∧ minute ≤ 59 then some text else none

/-- The text behind a time. -/
def time? (text : List Char) : Option (List Char) := do seconds? (← minutes? text)

/-- The text behind an offset from universal time, which may be missing. -/
def offset? (text : List Char) : Option (List Char) :=
  match text with
  | 'Z' :: rest => some rest
  | 'z' :: rest => some rest
  | '+' :: rest => minutes? rest
  | '-' :: rest => minutes? rest
  | _ => some text

/-- The word is a date, a time, or both. -/
def isMoment (word : List Char) : Bool :=
  match date? word with
  | some [] => true
  | some rest =>
      (do offset? (← time? (← after? ['T', 't', ' '] rest))) == some []
  | none => time? word == some []

/-! ## Words -/

/-- A character of a bare word. -/
def inWord (c : Char) : Bool :=
  c.isAlphanum || c == '+' || c == '-' || c == '.' || c == ':' || c == '_'

/-- A bare word, and the text behind it. The blank between a date and a
time is part of the word. -/
def word (text : List Char) : List Char × List Char :=
  let first := text.takeWhile inWord
  match date? first, text.dropWhile inWord with
  | some [], ' ' :: c :: rest =>
      if c.isDigit then
        (first ++ ' ' :: (c :: rest).takeWhile inWord, (c :: rest).dropWhile inWord)
      else (first, ' ' :: c :: rest)
  | _, rest => (first, rest)

/-- The value of a bare word. -/
def scalarValue (word : List Char) : Except Cause Value :=
  if word = "true".toList then .ok (.bool true)
  else if word = "false".toList then .ok (.bool false)
  else
    match integer? word, float? word with
    | some n, _ => if integerFits n then .ok (.integer n) else .error .overflow
    | none, some finite => if finite then .ok (.float word) else .error .overflow
    | none, none => if isMoment word then .ok (.moment word) else .error .word

/-- The value of the bare word at the beginning of a text. -/
def scalar (text : List Char) : Except Fault (Value × List Char) :=
  let (w, rest) := word text
  match scalarValue w with
  | .ok v => .ok (v, rest)
  | .error e => fail e text

end GroovyFindings.Toml
