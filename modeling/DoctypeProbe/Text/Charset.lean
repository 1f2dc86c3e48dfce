import DoctypeProbe.Text.Utf8

/-!
# Charsets

A charset turns the raw bytes of a line into UTF-8 text, or says why it cannot. UTF-8 and
US-ASCII only check the bytes and keep them; ISO-8859-1 takes every byte for the code point
of its value, which always succeeds.

A charset outside the three known ones passes bytes on as they are.
-/

namespace DoctypeProbe

/-- The encodings that lines are decoded from. -/
inductive Charset where
  /-- UTF-8. -/
  | utf8
  /-- ISO-8859-1. -/
  | latin1
  /-- US-ASCII. -/
  | ascii
  /-- Any other; bytes pass undecoded. -/
  | unknown
deriving DecidableEq, Repr

namespace Charset

/-- The name of a charset. -/
def name : Charset → Bytes
  | utf8 => DoctypeProbe.ascii "UTF-8"
  | latin1 => DoctypeProbe.ascii "ISO-8859-1"
  | ascii => DoctypeProbe.ascii "US-ASCII"
  | unknown => DoctypeProbe.ascii "UNKNOWN"

/-- The charset with a given number; numbers outside the three known ones stand for
`unknown`. -/
def ofCode (code : Int) : Charset :=
  if code = 0 then utf8 else if code = 1 then latin1 else if code = 2 then ascii else unknown

/-- The common names of each charset, in small letters. -/
def spellings : List (Bytes × Charset) :=
  [(DoctypeProbe.ascii "utf-8", utf8), (DoctypeProbe.ascii "utf8", utf8),
    (DoctypeProbe.ascii "iso-8859-1", latin1), (DoctypeProbe.ascii "latin1", latin1),
    (DoctypeProbe.ascii "latin-1", latin1), (DoctypeProbe.ascii "us-ascii", ascii),
    (DoctypeProbe.ascii "ascii", ascii)]

/-- Finds a charset by one of its common names, ignoring case. -/
def parse? (text : Bytes) : Option Charset := spellings.lookup text.lower

/-- The UTF-8 encoding of the character whose code point is the value of a byte. -/
def latin1Encode (b : Byte) : Bytes := Utf8.encode (Char.ofUInt8 b)

/-- Checks that no byte, from the given offset on, is beyond ASCII. -/
def asciiFrom (offset : Nat) : Bytes → Except DecodingError Unit
  | [] => .ok ()
  | b :: s => if b < 0x80 then asciiFrom (offset + 1) s else .error ⟨.nonAscii, offset⟩

/-- Decodes raw bytes into UTF-8 text. -/
def decode (charset : Charset) (raw : Bytes) : Except DecodingError Bytes :=
  match charset with
  | utf8 => (Utf8.validate raw).map fun _ => raw
  | latin1 => .ok (raw.flatMap latin1Encode)
  | ascii => (asciiFrom 0 raw).map fun _ => raw
  | unknown => .ok raw

end Charset

end DoctypeProbe
