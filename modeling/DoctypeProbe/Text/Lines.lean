import DoctypeProbe.Bytes

/-!
# Lines of a Text

A line ends at a line feed, at a carriage return, or at a carriage return followed by a line
feed; the terminator is not part of it. A text that does not end in a terminator has one
more, unterminated line, if it is not empty. This module defines the lines of a whole text
held in memory, independently of any reader.

## Main results

* `Lines.ofText` — the lines of a text, in order.
-/

namespace DoctypeProbe

namespace Lines

/-- Whether a byte ends a line. -/
def isTerminator (b : Byte) : Bool := b == Ascii.lf || b == Ascii.cr

/-- The lines of a text. `afterReturn` says that the text follows a carriage return, so that
a line feed in front belongs to the terminator before it. -/
def continuing (afterReturn : Bool) : Bytes → List Bytes
  | [] => []
  | b :: s =>
    if b = Ascii.lf then
      if afterReturn then continuing false s else [] :: continuing false s
    else if b = Ascii.cr then [] :: continuing true s
    else
      match continuing false s with
      | [] => [[b]]
      | l :: ls => (b :: l) :: ls

/-- The lines of a whole text. -/
def ofText (s : Bytes) : List Bytes := continuing false s

end Lines

end DoctypeProbe
