/-!
# Byte Strings

Documents, paths, settings and messages are byte strings: no encoding is assumed until a
charset is applied. This module holds the few operations on them that the rest of the
library is written with: searching for a token, cutting at a separator, ASCII case and
digits, and decimal numerals.

## Main results

* `Bytes.length_after_lt` — the text after a non-empty token is shorter than the text it was
  found in, which is why every scan for tokens ends.
-/

namespace DoctypeProbe

/-- One byte of a document, a path or a message. -/
abbrev Byte := UInt8

/-- A byte string. -/
abbrev Bytes := List Byte

/-- The bytes of a literal text. -/
def ascii (s : String) : Bytes := s.toUTF8.data.toList

/-! ### Named characters -/

namespace Ascii

/-- NUL. -/
def nul : Byte := 0x00
/-- Horizontal tab. -/
def tab : Byte := 0x09
/-- Line feed. -/
def lf : Byte := 0x0A
/-- Carriage return. -/
def cr : Byte := 0x0D
/-- Space. -/
def space : Byte := 0x20
/-- Double quote. -/
def quote : Byte := 0x22
/-- Number sign. -/
def hash : Byte := 0x23
/-- Percent sign. -/
def percent : Byte := 0x25
/-- Apostrophe. -/
def apostrophe : Byte := 0x27
/-- Plus sign. -/
def plus : Byte := 0x2B
/-- Comma. -/
def comma : Byte := 0x2C
/-- Hyphen, also the minus sign. -/
def minus : Byte := 0x2D
/-- Full stop. -/
def dot : Byte := 0x2E
/-- Slash, the path separator. -/
def slash : Byte := 0x2F
/-- Less-than sign, which opens a tag. -/
def less : Byte := 0x3C
/-- Equals sign. -/
def equals : Byte := 0x3D
/-- Opening square bracket. -/
def openBracket : Byte := 0x5B
/-- Backslash. -/
def backslash : Byte := 0x5C
/-- Closing square bracket. -/
def closeBracket : Byte := 0x5D
/-- Underscore. -/
def underscore : Byte := 0x5F

/-- A decimal digit. -/
def isDigit (b : Byte) : Bool := 0x30 ≤ b && b ≤ 0x39

/-- A capital ASCII letter. -/
def isUpper (b : Byte) : Bool := 0x41 ≤ b && b ≤ 0x5A

/-- An ASCII letter of either case. -/
def isAlpha (b : Byte) : Bool := isUpper b || (0x61 ≤ b && b ≤ 0x7A)

/-- An ASCII letter or decimal digit. -/
def isAlnum (b : Byte) : Bool := isAlpha b || isDigit b

/-- The white space that may stand before a numeral: space, tab, line feed, vertical tab,
form feed and carriage return. -/
def isSpace (b : Byte) : Bool := b == space || (tab ≤ b && b ≤ cr)

/-- The value of a decimal digit. -/
def digitValue (b : Byte) : Nat := b.toNat - 0x30

/-- The decimal digit of a value below ten. -/
def ofDigit (d : Nat) : Byte := UInt8.ofNat (0x30 + d)

/-- Maps capital ASCII letters to small ones and keeps every other byte. -/
def lower (b : Byte) : Byte := if isUpper b then b + 0x20 else b

end Ascii

namespace Bytes

/-- The text with its capital ASCII letters made small. -/
def lower (s : Bytes) : Bytes := s.map Ascii.lower

/-- The text up to its first NUL byte, which is as much of it as a message shows. -/
def untilNul (s : Bytes) : Bytes := s.takeWhile (· != Ascii.nul)

/-! ### Searching for a token -/

/-- Cuts a text at the first occurrence of a token: the text before it, and the text from it
on. Answers `none` if the token does not occur. -/
def cutAt : Bytes → Bytes → Option (Bytes × Bytes)
  | [], token => if token.isEmpty then some ([], []) else none
  | b :: s, token =>
    if token.isPrefixOf (b :: s) then some ([], b :: s)
    else (cutAt s token).map fun (before, rest) => (b :: before, rest)

/-- Whether a token occurs in a text. -/
def contains (s token : Bytes) : Bool := (s.cutAt token).isSome

/-- The text after the first occurrence of a token. -/
def after (s token : Bytes) : Option Bytes :=
  (s.cutAt token).map fun (_, rest) => rest.drop token.length

/-- The rest of a text after an opening part, if it opens with it. -/
def afterOpening (s opening : Bytes) : Option Bytes :=
  if opening.isPrefixOf s then some (s.drop opening.length) else none

/-- Both parts of a cut put together are the whole text, and the second opens with the
token. -/
theorem eq_of_cutAt {s token before rest : Bytes} (h : s.cutAt token = some (before, rest)) :
    s = before ++ rest ∧ token <+: rest := by
  induction s generalizing before with
  | nil =>
    cases token with
    | nil => simp_all [cutAt]
    | cons t ts => simp [cutAt] at h
  | cons b s ih =>
    rw [cutAt] at h
    split at h
    · rename_i hp
      cases h
      exact ⟨rfl, List.isPrefixOf_iff_prefix.1 hp⟩
    · obtain ⟨⟨before', rest'⟩, hc, he⟩ := Option.map_eq_some_iff.1 h
      cases he
      obtain ⟨hs, hp⟩ := ih hc
      exact ⟨by rw [hs, List.cons_append], hp⟩

/-- What follows a non-empty token is shorter than the text searched. -/
theorem length_after_lt {s token rest : Bytes} (ht : token ≠ [])
    (h : s.after token = some rest) : rest.length < s.length := by
  obtain ⟨⟨before, found⟩, hc, rfl⟩ := Option.map_eq_some_iff.1 h
  obtain ⟨hs, hp⟩ := eq_of_cutAt hc
  have hl := hp.length_le
  have h0 : 0 < token.length := List.length_pos_iff.2 ht
  simp only [hs, List.length_append, List.length_drop]
  omega

/-! ### Fields -/

/-- The fields of a text between separators. A separator ends a field, so a text that ends
in one has no empty last field, and the empty text has no field at all. -/
def fields : Bytes → Byte → List Bytes
  | [], _ => []
  | b :: s, sep =>
    if b = sep then [] :: fields s sep
    else
      match fields s sep with
      | [] => [[b]]
      | f :: fs => (b :: f) :: fs

/-! ### Numerals -/

/-- The decimal numeral of a natural number, without leading zeros. -/
def decimal (n : Nat) : Bytes :=
  if n < 10 then [Ascii.ofDigit n] else decimal (n / 10) ++ [Ascii.ofDigit (n % 10)]

/-- The decimal numeral of an integer: a minus sign before the numeral of its size if it is
negative. -/
def signedDecimal : Int → Bytes
  | .ofNat n => decimal n
  | .negSucc n => Ascii.minus :: decimal (n + 1)

/-- The numeral of `n` widened with leading zeros to at least `width` digits. -/
def zeroPadded (width n : Nat) : Bytes :=
  let digits := decimal n
  List.replicate (width - digits.length) (Ascii.ofDigit 0) ++ digits

end Bytes

end DoctypeProbe
