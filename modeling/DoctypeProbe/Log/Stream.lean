import DoctypeProbe.Bytes

/-!
# Message Streams

A message can be put together piece by piece. An end marker logs what has been put together
so far, and the pieces stay for the next marker; if there is no marker at all, the pieces are
logged when the stream is given up, unless they are empty.

## Main results

* `MessageStream.messages` — the messages that a sequence of pieces and markers logs.
-/

namespace DoctypeProbe

namespace Log

/-- What is put into a message stream. -/
inductive Piece where
  /-- A piece of text. -/
  | text (bytes : Bytes)
  /-- A number, shown in decimal. -/
  | number (n : Int)
  /-- The end marker. -/
  | endMarker
deriving DecidableEq, Repr

/-- The text that a piece adds to a message. -/
def Piece.shown : Piece → Bytes
  | text bytes => bytes
  | number n => Bytes.signedDecimal n
  | endMarker => []

/-- The state of a message stream. -/
structure MessageStream where
  /-- The pieces so far. -/
  gathered : Bytes := []
  /-- Whether an end marker has come. -/
  isFlushed : Bool := false
deriving DecidableEq, Repr

namespace MessageStream

/-- Puts in a piece other than the end marker. -/
def insert (m : MessageStream) (piece : Piece) : MessageStream :=
  { m with gathered := m.gathered ++ piece.shown }

/-- The state after an end marker. -/
def flush (m : MessageStream) : MessageStream := { m with isFlushed := true }

/-- What is logged when the stream is given up. -/
def atEnd (m : MessageStream) : List Bytes :=
  if !m.isFlushed && !m.gathered.isEmpty then [m.gathered] else []

/-- The messages that further pieces and markers log, and those at the end. -/
def messagesFrom (m : MessageStream) : List Piece → List Bytes
  | [] => m.atEnd
  | piece :: pieces =>
    if piece = .endMarker then m.gathered :: messagesFrom m.flush pieces
    else messagesFrom (m.insert piece) pieces

/-- The messages that a sequence of pieces and markers logs, in order. -/
def messages (pieces : List Piece) : List Bytes := messagesFrom {} pieces

end MessageStream

end Log

end DoctypeProbe
