import DoctypeProbe.Bytes

/-!
# Numerals

Reading decimal numerals off the front of a text. White space and a sign may stand before an
integer, and as many digits are taken as there are. A decimal numeral takes the longest
opening of the text that is a number: digits with at most one point, and an exponent only if
it has digits.

## Main results

* `Numeral.integer?` — an integer and the text after it.
* `Numeral.decimal?` — a number with a point or an exponent, as an exact decimal.
-/

namespace DoctypeProbe

/-- An exact decimal number: `digits · 10 ^ exponent`, with a sign that zero has as well. -/
structure Decimal where
  /-- Whether there is a minus sign. -/
  negative : Bool
  /-- The digits as a natural number. -/
  digits : Nat
  /-- The power of ten they are multiplied by. -/
  exponent : Int
deriving DecidableEq, Repr

namespace Numeral

/-- The number that a text of digits stands for. -/
def ofDigits (digits : Bytes) : Nat := digits.foldl (fun n d => 10 * n + Ascii.digitValue d) 0

/-- Takes a sign off the front: whether it is a minus sign, and the rest. -/
def sign : Bytes → Bool × Bytes
  | [] => (false, [])
  | b :: s =>
    if b = Ascii.minus then (true, s) else if b = Ascii.plus then (false, s) else (false, b :: s)

/-- A natural number with a sign. -/
def signed (negative : Bool) (n : Nat) : Int := if negative then -(n : Int) else n

/-- Reads an integer off the front of a text: white space, a sign, and all digits there are.
Answers the integer and the text after it, or `none` if there is no digit. -/
def integer? (s : Bytes) : Option (Int × Bytes) :=
  let (negative, s) := sign (s.dropWhile Ascii.isSpace)
  let digits := s.takeWhile Ascii.isDigit
  if digits.isEmpty then none
  else some (signed negative (ofDigits digits), s.dropWhile Ascii.isDigit)

/-- Whether an integer fits into 64 bits with a sign. -/
def fitsInt64 (n : Int) : Bool := -0x8000000000000000 ≤ n && n < 0x8000000000000000

/-- The exponent at the front of a text; zero unless there is a marker with digits. -/
def exponent : Bytes → Int
  | [] => 0
  | b :: s =>
    if Ascii.lower b = 0x65 then
      let (negative, s) := sign s
      signed negative (ofDigits (s.takeWhile Ascii.isDigit))
    else 0

/-- Reads a decimal number off the front of a text, or answers `none` if there is no
digit. -/
def decimal? (s : Bytes) : Option Decimal :=
  let (negative, s) := sign s
  let whole := s.takeWhile Ascii.isDigit
  let s := s.dropWhile Ascii.isDigit
  let (fraction, s) :=
    match s with
    | [] => ([], [])
    | b :: t =>
      if b = Ascii.dot then (t.takeWhile Ascii.isDigit, t.dropWhile Ascii.isDigit) else ([], s)
  if whole.isEmpty && fraction.isEmpty then none
  else
    some {
      negative
      digits := ofDigits (whole ++ fraction)
      exponent := exponent s - fraction.length }

end Numeral

end DoctypeProbe
