import DoctypeProbe.Bytes

/-!
# Cursors

A cursor is a place in a settings document: the text still to be read, and the number of the
line it begins on. Lines are counted by the line feeds that have been moved past.

## Main results

* `Cursor.length_forward_le` — moving forward never adds to what is left to read.
-/

namespace DoctypeProbe

namespace Toml

/-- A place in a settings document. -/
structure Cursor where
  /-- The text from here on. -/
  rest : Bytes
  /-- The number of the line, from one. -/
  line : Nat := 1
deriving DecidableEq, Repr

namespace Cursor

/-- White space within a line. -/
def isSpace (b : Byte) : Bool := b == Ascii.space || b == Ascii.tab

/-- The end of a line. -/
def isLineEnd (b : Byte) : Bool := b == Ascii.lf || b == Ascii.cr

/-- The number of the line after a byte has been moved past. -/
def lineAfter (line : Nat) (b : Byte) : Nat := if b = Ascii.lf then line + 1 else line

/-- Moves past the text `taken`, with which the rest begins. -/
def forward (c : Cursor) (taken : Bytes) : Cursor :=
  ⟨c.rest.drop taken.length, c.line + taken.count Ascii.lf⟩

/-- Moves past the bytes in front that satisfy a condition. -/
def skipWhile (c : Cursor) (p : Byte → Bool) : Cursor := c.forward (c.rest.takeWhile p)

/-- Moves past one byte, if there is one. -/
def advance (c : Cursor) : Cursor := c.forward (c.rest.take 1)

/-- Moves past white space within the line. -/
def skipSpaces (c : Cursor) : Cursor := c.skipWhile isSpace

/-- Moves to the end of the line, if a comment begins here. A comment ends before a line
feed; a carriage return is part of it. -/
def skipComment (c : Cursor) : Cursor :=
  if c.rest.head? = some Ascii.hash then c.skipWhile (· != Ascii.lf) else c

/-- The white space, line ends and comments that a text begins with. `inComment` says that
the text continues a comment. -/
def blank (inComment : Bool) : Bytes → Bytes
  | [] => []
  | b :: s =>
    if inComment then b :: blank (b != Ascii.lf) s
    else if isSpace b || isLineEnd b then b :: blank false s
    else if b = Ascii.hash then b :: blank true s
    else []

/-- Moves past white space, line ends and comments. -/
def skipBlank (c : Cursor) : Cursor := c.forward (blank false c.rest)

theorem length_forward_le (c : Cursor) (taken : Bytes) :
    (c.forward taken).rest.length ≤ c.rest.length := by
  simp only [forward, List.length_drop]
  omega

theorem length_skipSpaces_le (c : Cursor) : c.skipSpaces.rest.length ≤ c.rest.length :=
  length_forward_le c _

theorem length_skipBlank_le (c : Cursor) : c.skipBlank.rest.length ≤ c.rest.length :=
  length_forward_le c _

theorem length_skipComment_le (c : Cursor) : c.skipComment.rest.length ≤ c.rest.length := by
  unfold skipComment
  split
  · exact length_forward_le c _
  · exact Nat.le_refl _

end Cursor

end Toml

end DoctypeProbe
