import GroovyFindings.Shell.Escape
import GroovyFindings.Text.Decimal

/-!
# Formats

A format is text with directives in it. Each directive takes an argument
and says how it is written; a format is used again as long as there are
arguments that it has not taken.

## Main definitions

* `Directive` — how an argument is written.
* `formatted` — what a format makes of its arguments.
-/

namespace GroovyFindings.Shell

/-- How an argument is written. -/
structure Directive where
  /-- Spaces follow what is too short, instead of preceding it. -/
  left : Bool
  /-- Zeros precede a number that is too short. -/
  zeros : Bool
  width : Nat
  precision : Option Nat
  conversion : Char
deriving DecidableEq, Repr

/-- The directive that follows a percent sign, and what follows it. -/
def directive? (text : List Char) : Option (Directive × List Char) :=
  let isFlag (c : Char) : Bool := c ∈ "#-+ 0".toList
  let flags := text.takeWhile isFlag
  let text := text.dropWhile isFlag
  let width := text.takeWhile Char.isDigit
  let text := text.dropWhile Char.isDigit
  let (precision, text) := match text with
    | '.' :: rest =>
        (some ((Text.natValue? (rest.takeWhile Char.isDigit)).getD 0),
          rest.dropWhile Char.isDigit)
    | _ => (none, text)
  match text with
  | [] => none
  | c :: rest =>
      some (⟨flags.contains '-', flags.contains '0', (Text.natValue? width).getD 0,
        precision, c⟩, rest)

/-- The number that an argument denotes, and whether it is one as a
whole. -/
def integer (argument : List Char) : Int × Bool :=
  let (negative, digits) := match argument with
    | '-' :: rest => (true, rest)
    | '+' :: rest => (false, rest)
    | _ => (false, argument)
  let run := digits.takeWhile Char.isDigit
  let n := (Text.natValue? run).getD 0
  (if negative then -n else n, argument.isEmpty || (run ≠ [] && run = digits))

/-- Spaces or zeros to a width. -/
def padded (d : Directive) (number : Bool) (sign : List UInt8) (body : List UInt8) :
    List UInt8 :=
  let missing := d.width - (sign.length + body.length)
  if d.left then sign ++ body ++ List.replicate missing 32
  else if d.zeros && number then sign ++ List.replicate missing 48 ++ body
  else List.replicate missing 32 ++ sign ++ body

/-- What an argument is written as. -/
structure Written where
  bytes : List UInt8
  /-- The argument should have been a number. -/
  amiss : Bool := false
  /-- Nothing is written after it. -/
  cut : Bool := false

/-- A number in a base, with the digits of that base. -/
def writeNumber (d : Directive) (argument : List Char) (base : Nat) (capitals : Bool) :
    Written :=
  let (n, whole) := integer argument
  let digits := Nat.toDigits base n.natAbs
  let digits := if capitals then digits.map Char.toUpper else digits
  { bytes := padded d true (if n < 0 then [45] else []) (Utf8.encode digits)
    amiss := !whole }

/-- What a directive makes of an argument; nothing if there is no such
directive. -/
def Directive.write? (d : Directive) (argument : List Char) : Option Written :=
  let short (bytes : List UInt8) : List UInt8 := match d.precision with
    | some n => bytes.take n
    | none => bytes
  match d.conversion with
  | 's' => some { bytes := padded d false [] (short (Utf8.encode argument)) }
  | 'b' =>
      let (bytes, cut) := unescaped argument
      some { bytes := padded d false [] (short bytes), cut := cut }
  | 'c' => some { bytes := padded d false [] ((Utf8.encode argument).take 1) }
  | 'd' | 'i' | 'u' => some (writeNumber d argument 10 false)
  | 'o' => some (writeNumber d argument 8 false)
  | 'x' => some (writeNumber d argument 16 false)
  | 'X' => some (writeNumber d argument 16 true)
  | _ => none

/-- What has been written. -/
structure Writing where
  bytes : List UInt8 := []
  rest : List (List Char)
  /-- The arguments that should have been numbers. -/
  amiss : List (List Char) := []
  /-- Writing has ended early. -/
  cut : Bool := false
  /-- A directive that there is not. -/
  unknown : Option Char := none

/-- Goes through a format once. -/
def pass (w : Writing) : (fuel : Nat) → (format : List Char) → Writing
  | 0, _ => w
  | _ + 1, [] => w
  | fuel + 1, c :: rest =>
      if c = '\\' then
        let (bytes, rest) := escape rest
        pass { w with bytes := w.bytes ++ bytes } fuel rest
      else if c = '%' ∧ rest.head? ≠ some '%' then
        match directive? rest with
        | none => { w with unknown := some '%' }
        | some (d, rest) =>
            let argument := (w.rest.head?).getD []
            match d.write? argument with
            | none => { w with unknown := some d.conversion }
            | some written =>
                let w := { w with
                  bytes := w.bytes ++ written.bytes
                  rest := w.rest.drop 1
                  amiss := w.amiss ++ if written.amiss then [argument] else []
                  cut := written.cut }
                if written.cut then w else pass w fuel rest
      else
        let rest := if c = '%' then rest.drop 1 else rest
        pass { w with bytes := w.bytes ++ Utf8.encode [c] } fuel rest

/-- Goes through a format as long as it takes arguments and there are
some. -/
def passes (format : List Char) : (fuel : Nat) → Writing → Writing
  | 0, w => w
  | fuel + 1, w =>
      let after := pass w format.length format
      if after.cut || after.unknown.isSome || after.rest.isEmpty ||
          after.rest.length == w.rest.length then after
      else passes format fuel after

/-- What a format makes of its arguments. -/
def formatted (format : List Char) (arguments : List (List Char)) : Writing :=
  passes format (arguments.length + 1) { rest := arguments }

end GroovyFindings.Shell
