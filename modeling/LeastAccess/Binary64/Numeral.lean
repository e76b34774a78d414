import LeastAccess.Binary64.Rounding
import LeastAccess.Text.Blank

/-!
# Numerals

`Numeral.read` gives the number that a text stands for: blanks at the ends do not count, no text at all
stands for zero, whole numbers may be written in base 2, 8 or 16 after `0b`, `0o` or `0x`, and everything
else is a decimal numeral with an optional sign, fraction and exponent, or `Infinity`. A text of any
other form is not a number.
-/

namespace LeastAccess

/-- The value of a digit in bases up to 16. -/
def digitValue (c : Char) : Nat :=
  if c.isDigit then c.toNat - 48
  else if 'a' ≤ c ∧ c ≤ 'f' then c.toNat - 87
  else if 'A' ≤ c ∧ c ≤ 'F' then c.toNat - 55
  else 16

/-- The number that a run of digits stands for. -/
def ofDigits (base : Nat) (digits : List Char) : Nat :=
  digits.foldl (fun n c => n * base + digitValue c) 0

namespace Numeral

/-- The exponent that follows the digits: nothing, or `e`, a sign and digits up to the end. -/
def exponent? : List Char → Option Int
  | [] => some 0
  | c :: rest =>
    if c = 'e' ∨ c = 'E' then
      let (negative, digits) := match rest with
        | '-' :: ds => (true, ds)
        | '+' :: ds => (false, ds)
        | ds => (false, ds)
      if digits.isEmpty || !digits.all Char.isDigit then none
      else
        let n : Int := ofDigits 10 digits
        some (if negative then -n else n)
    else none

/-- A decimal numeral without a sign: digits, at most one point among or around them, an exponent. -/
def decimal? (cs : List Char) : Option (Nat × Int) :=
  let whole := cs.takeWhile Char.isDigit
  let (fraction, rest) := match cs.dropWhile Char.isDigit with
    | '.' :: rest => (rest.takeWhile Char.isDigit, rest.dropWhile Char.isDigit)
    | rest => ([], rest)
  if whole.isEmpty && fraction.isEmpty then none
  else (exponent? rest).map fun e => (ofDigits 10 (whole ++ fraction), e - fraction.length)

/-- A numeral without a sign, in decimal. -/
def unsigned (negative : Bool) (cs : List Char) : Binary64 :=
  if cs = "Infinity".toList then .infinity negative
  else match decimal? cs with
    | some (digits, e) => .ofDecimal negative digits e
    | none => .nan

/-- Digits of one base up to the end, at least one. -/
def based (base : Nat) (digits : List Char) : Binary64 :=
  if digits.isEmpty || !digits.all (fun c => digitValue c < base) then .nan
  else .ofNat (ofDigits base digits)

/-- The number that the characters between the blanks stand for. -/
def readChars : List Char → Binary64
  | [] => .zero
  | '0' :: 'x' :: rest | '0' :: 'X' :: rest => based 16 rest
  | '0' :: 'o' :: rest | '0' :: 'O' :: rest => based 8 rest
  | '0' :: 'b' :: rest | '0' :: 'B' :: rest => based 2 rest
  | '-' :: rest => unsigned true rest
  | '+' :: rest => unsigned false rest
  | cs => unsigned false cs

def read (s : String) : Binary64 := readChars (Text.trimChars s.toList)

end Numeral

end LeastAccess
