import DoctypeProbe.Log.Level

/-!
# Log Formats

A log format is a text with placeholders: a percent sign and a letter for each part of a
record, and two percent signs for one. A percent sign before any other byte, or at the end,
stands for itself.

A format is compiled into segments once and then rendered for every record. Rendering the
format directly, from left to right, is defined beside it. Substituted text is never looked
at for placeholders.

## Main results

* `Format.compile` — the segments of a format.
* `Format.interpret` — a format rendered directly.
-/

namespace DoctypeProbe

namespace Log

/-- What a placeholder stands for. -/
inductive Placeholder where
  /-- The time of the record. -/
  | timestamp
  /-- The thread that logged it. -/
  | thread
  /-- The name of its level. -/
  | level
  /-- Its message. -/
  | message
  /-- The name of the source file. -/
  | file
  /-- The line in the source file. -/
  | line
  /-- The name of the function. -/
  | function
deriving DecidableEq, Repr

/-- The placeholder that a letter after a percent sign names. -/
def Placeholder.ofByte? (b : Byte) : Option Placeholder :=
  if b = 0x54 then some timestamp
  else if b = 0x74 then some thread
  else if b = 0x4C then some level
  else if b = 0x6D then some message
  else if b = 0x46 then some file
  else if b = 0x6C then some line
  else if b = 0x66 then some function
  else none

/-- Where in a program a record was logged. A line is shown only together with its file. -/
structure Location where
  /-- The path of the source file. -/
  file : Option Bytes := none
  /-- The line in the source file. -/
  line : Int := 0
  /-- The name of the function. -/
  function : Option Bytes := none
deriving DecidableEq, Repr

/-- The name of a file without the directories before it, in either style of path. -/
def baseName (path : Bytes) : Bytes :=
  (path.reverse.takeWhile fun b => b != Ascii.slash && b != Ascii.backslash).reverse

/-- Everything about a record that a format can show. -/
structure Fields where
  /-- The time, as text. -/
  timestamp : Bytes
  /-- The thread, as text. -/
  thread : Bytes
  /-- The record. -/
  record : Record
  /-- Where it was logged. -/
  location : Location := {}
deriving DecidableEq, Repr

/-- The text that a placeholder stands for. -/
def Fields.value (f : Fields) : Placeholder → Bytes
  | .timestamp => f.timestamp
  | .thread => f.thread
  | .level => f.record.level.name
  | .message => f.record.text
  | .file => (f.location.file.map baseName).getD []
  | .line => if f.location.file.isSome then Bytes.signedDecimal f.location.line else []
  | .function => f.location.function.getD []

/-- A part of a compiled format. -/
inductive Segment where
  /-- Text shown as it is. -/
  | literal (text : Bytes)
  /-- The value of a placeholder. -/
  | field (placeholder : Placeholder)
deriving DecidableEq, Repr

namespace Format

/-- The segment of a literal text, if there is any text. -/
def literal (text : Bytes) : List Segment := if text.isEmpty then [] else [.literal text]

/-- The segments of a format before which the text `pending` is still to be shown. -/
def compileFrom (pending : Bytes) : Bytes → List Segment
  | [] => literal pending
  | [b] => literal (pending ++ [b])
  | b :: c :: s =>
    if b = Ascii.percent then
      match Placeholder.ofByte? c with
      | some p => literal pending ++ .field p :: compileFrom [] s
      | none =>
        if c = Ascii.percent then compileFrom (pending ++ [b]) s
        else compileFrom (pending ++ [b]) (c :: s)
    else compileFrom (pending ++ [b]) (c :: s)

/-- The segments of a format. -/
def compile (format : Bytes) : List Segment := compileFrom [] format

/-- The text of one segment for a record. -/
def segmentText (f : Fields) : Segment → Bytes
  | .literal text => text
  | .field p => f.value p

/-- A record in a compiled format, as a line. -/
def render (f : Fields) (segments : List Segment) : Bytes :=
  segments.flatMap (segmentText f) ++ [Ascii.lf]

/-- A format rendered directly, from left to right. -/
def interpret (f : Fields) : Bytes → Bytes
  | [] => []
  | [b] => [b]
  | b :: c :: s =>
    if b = Ascii.percent then
      match Placeholder.ofByte? c with
      | some p => f.value p ++ interpret f s
      | none =>
        if c = Ascii.percent then b :: interpret f s else b :: interpret f (c :: s)
    else b :: interpret f (c :: s)

end Format

end Log

end DoctypeProbe
