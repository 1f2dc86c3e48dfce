import DoctypeProbe.Number.Numeral

/-!
# Binary64 Numbers

Floating-point numbers of 64 bits, as words: a sign bit, eleven bits of exponent and 52 bits
of fraction. A rational number is rounded to the nearest of them, and to the one with an even
fraction if two are equally near; the rounding is done once, in exact arithmetic.

A number is out of range when it rounds beyond the largest finite number, and when it lies
below the smallest normal number and is not represented exactly.

## Main results

* `Binary64.ofDecimal?` — the nearest number to a decimal that is in range.
* `Binary64.ofInt` — the nearest number to an integer of 64 bits.
-/

namespace DoctypeProbe

/-- A floating-point number of 64 bits. -/
structure Binary64 where
  /-- The bits of the number. -/
  bits : UInt64
deriving DecidableEq, Repr

namespace Binary64

/-- The quotient rounded to the nearest integer; a tie goes to the even one. -/
def roundHalfEven (num den : Nat) : Nat :=
  let quotient := num / den
  let rest := num % den
  if den < 2 * rest || (2 * rest == den && quotient % 2 == 1) then quotient + 1 else quotient

/-- The number of units of `2 ^ unit` in a rational number, rounded. -/
def units (num den : Nat) (unit : Int) : Nat :=
  match unit with
  | .ofNat u => roundHalfEven num (den * Nat.pow 2 u)
  | .negSucc u => roundHalfEven (num * Nat.pow 2 (u + 1)) den

/-- Whether a rational number is a whole number of units of `2 ^ unit`. -/
def isExact (num den : Nat) (unit : Int) : Bool :=
  match unit with
  | .ofNat u => num % (den * Nat.pow 2 u) == 0
  | .negSucc u => num * Nat.pow 2 (u + 1) % den == 0

/-- The exponent of the largest power of two that is not above a positive rational number. -/
def magnitude (num den : Nat) : Int :=
  let guess : Int := num.log2 - den.log2
  let isBelow : Bool :=
    match guess with
    | .ofNat g => num < den * Nat.pow 2 g
    | .negSucc g => num * Nat.pow 2 (g + 1) < den
  if isBelow then guess - 1 else guess

/-- The unit of the subnormal numbers, as an exponent of two. -/
def leastUnit : Int := -1074

/-- The number with a sign and the lower 63 bits. -/
def ofParts (negative : Bool) (magnitude : Nat) : Binary64 :=
  ⟨UInt64.ofNat (magnitude + if negative then Nat.pow 2 63 else 0)⟩

/-- The nearest number to a positive rational number, or `none` if that is out of range. -/
def ofRatio? (negative : Bool) (num den : Nat) : Option Binary64 :=
  let unit := magnitude num den - 52
  let count := units num den unit
  let (count, unit) := if count = Nat.pow 2 53 then (Nat.pow 2 52, unit + 1) else (count, unit)
  if 971 < unit then none
  else if leastUnit ≤ unit then
    some (ofParts negative ((unit - leastUnit).toNat * Nat.pow 2 52 + count))
  else if isExact num den leastUnit then some (ofParts negative (units num den leastUnit))
  else none

/-- The nearest number to a decimal, or `none` if that is out of range. Decimals whose size
alone puts them out of range are not looked at more closely. -/
def ofDecimal? (d : Decimal) : Option Binary64 :=
  if d.digits = 0 then some (ofParts d.negative 0)
  else
    let size := (Bytes.decimal d.digits).length + d.exponent
    if size < -400 || 400 < size then none
    else
      match d.exponent with
      | .ofNat e => ofRatio? d.negative (d.digits * Nat.pow 10 e) 1
      | .negSucc e => ofRatio? d.negative d.digits (Nat.pow 10 (e + 1))

/-- The nearest number to an integer of 64 bits. -/
def ofInt (n : Int64) : Binary64 :=
  if n = 0 then ofParts false 0
  else (ofRatio? (n < 0) n.toInt.natAbs 1).getD (ofParts false 0)

end Binary64

end DoctypeProbe
