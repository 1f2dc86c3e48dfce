import DoctypeProbe.Bytes

/-!
# UTF-8

UTF-8 writes each Unicode scalar value in its shortest form of one to four bytes. The
decoder takes one character off the front of a byte string and says, if it cannot, what is
wrong and at which byte. Validation decodes characters until the end or the first fault.

The encoder and `WellFormed` state the same format from the writing side: a byte string is
well formed when it is a concatenation of encodings.

## Main results

* `Utf8.scalar` — one character off the front, with the number of trailing bytes it used.
* `Utf8.validate` — the first fault of a byte string, with its offset.
* `Utf8.WellFormed` — concatenations of encodings of scalar values.
-/

namespace DoctypeProbe

/-- What is wrong with bytes that cannot be decoded. -/
inductive DecodingFault where
  /-- A byte that begins no UTF-8 sequence. -/
  | lead
  /-- A sequence with fewer bytes left than its lead byte announces. -/
  | truncated
  /-- A byte inside a sequence that does not continue it. -/
  | continuation
  /-- A sequence longer than the shortest one for its code point. -/
  | overlong
  /-- A surrogate, or a code point beyond the last one. -/
  | codePoint
  /-- A byte beyond ASCII. -/
  | nonAscii
  /-- A fault described by its own text. -/
  | other (what : Bytes)
deriving DecidableEq, Repr

/-- The wording of a fault. -/
def DecodingFault.what : DecodingFault → Bytes
  | lead => ascii "invalid UTF-8 lead byte"
  | truncated => ascii "truncated UTF-8 sequence"
  | continuation => ascii "invalid UTF-8 continuation byte"
  | overlong => ascii "overlong UTF-8 sequence"
  | codePoint => ascii "UTF-8 sequence encodes an invalid code point"
  | nonAscii => ascii "byte outside US-ASCII"
  | other what => what

/-- A fault together with the offset of the offending byte in its line. -/
structure DecodingError where
  /-- What is wrong. -/
  fault : DecodingFault
  /-- Where: a byte offset. -/
  offset : Nat
deriving DecidableEq, Repr

/-- The message of a decoding error. -/
def DecodingError.message (e : DecodingError) : Bytes :=
  ascii "Decoding Error: " ++ e.fault.what ++ ascii " at byte offset " ++ Bytes.decimal e.offset

namespace Utf8

/-! ### Decoding -/

/-- The shape that a lead byte announces. -/
structure Shape where
  /-- The number of continuation bytes that follow. -/
  trailing : Nat
  /-- The bits of the code point in the lead byte itself. -/
  bits : Nat
  /-- The least code point that needs a sequence of this length. -/
  least : Nat
deriving DecidableEq, Repr

/-- The shape announced by a lead byte, if it is one. -/
def shape? (b : Byte) : Option Shape :=
  if b < 0x80 then some ⟨0, b.toNat, 0⟩
  else if b < 0xC0 then none
  else if b < 0xE0 then some ⟨1, b.toNat - 0xC0, 0x80⟩
  else if b < 0xF0 then some ⟨2, b.toNat - 0xE0, 0x800⟩
  else if b < 0xF8 then some ⟨3, b.toNat - 0xF0, 0x10000⟩
  else none

/-- Whether a byte continues a sequence. -/
def isContinuation (b : Byte) : Bool := 0x80 ≤ b && b < 0xC0

/-- Appends six bits of each continuation byte to the code point read so far. `index` is the
offset of the next byte in the sequence, which an offending byte is reported at. -/
def continueWith (index : Nat) (bits : Nat) : Bytes → Except DecodingError Nat
  | [] => .ok bits
  | b :: bs =>
    if isContinuation b then continueWith (index + 1) (bits * 64 + (b.toNat - 0x80)) bs
    else .error ⟨.continuation, index⟩

/-- Decodes the character whose lead byte is `b` and that is followed by `rest`: its code
point and the number of bytes of `rest` that belong to it. Offsets count from the lead
byte. -/
def scalar (b : Byte) (rest : Bytes) : Except DecodingError (Nat × Nat) := do
  match shape? b with
  | none => .error ⟨.lead, 0⟩
  | some shape =>
    let trail := rest.take shape.trailing
    if trail.length < shape.trailing then .error ⟨.truncated, 0⟩
    else
      let code ← continueWith 1 shape.bits trail
      if code < shape.least then .error ⟨.overlong, 0⟩
      else if code.isValidChar then .ok (code, shape.trailing)
      else .error ⟨.codePoint, 0⟩

/-- Validates a byte string whose first byte has the given offset. -/
def validateFrom (offset : Nat) : Bytes → Except DecodingError Unit
  | [] => .ok ()
  | b :: rest =>
    match scalar b rest with
    | .error e => .error { e with offset := offset + e.offset }
    | .ok (_, k) => validateFrom (offset + 1 + k) (rest.drop k)
termination_by s => s.length
decreasing_by simp only [List.length_drop, List.length_cons]; omega

/-- Validates a byte string: strict UTF-8, with no overlong form, no surrogate, nothing
beyond the last code point and no truncated sequence. -/
def validate (s : Bytes) : Except DecodingError Unit := validateFrom 0 s

/-! ### Encoding -/

/-- The encoding of a scalar value in its shortest form. -/
def encode (c : Char) : Bytes :=
  let v := c.toNat
  if v < 0x80 then [UInt8.ofNat v]
  else if v < 0x800 then [UInt8.ofNat (0xC0 + v / 64), UInt8.ofNat (0x80 + v % 64)]
  else if v < 0x10000 then
    [UInt8.ofNat (0xE0 + v / 4096), UInt8.ofNat (0x80 + v / 64 % 64), UInt8.ofNat (0x80 + v % 64)]
  else
    [UInt8.ofNat (0xF0 + v / 262144), UInt8.ofNat (0x80 + v / 4096 % 64),
      UInt8.ofNat (0x80 + v / 64 % 64), UInt8.ofNat (0x80 + v % 64)]

/-- The encoding of a text, character by character. -/
def encodeAll (cs : List Char) : Bytes := cs.flatMap encode

/-- A byte string is well formed when it encodes some text. -/
def WellFormed (s : Bytes) : Prop := ∃ cs : List Char, s = encodeAll cs

end Utf8

end DoctypeProbe
