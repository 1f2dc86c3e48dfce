import DoctypeProbe.Bytes

/-!
# Comments

A comment runs from an opening token to the next closing token after it; comments do not
nest. A document is looked at line by line, so what has to be carried from one line to the
next is whether the line ended inside a comment.

Stripping a line keeps the text before its first opening token and the text after the last
comment of a run of comments; a line that leaves nothing but comment has no content.

## Main results

* `Comment.strip` — the content of a line, and whether the line ends inside a comment.
* `Comment.endsInside` — the same question answered by the automaton that only goes from
  token to token.
-/

namespace DoctypeProbe

namespace Comment

/-- Opens a comment. -/
def opening : Bytes := ascii "<!--"

/-- Closes a comment. -/
def closing : Bytes := ascii "-->"

/-- The token that is waited for: the closing one inside a comment, the opening one
outside. -/
def token (inside : Bool) : Bytes := if inside then closing else opening

theorem token_ne_nil (inside : Bool) : token inside ≠ [] := by
  cases inside <;> decide

/-- Whether a text, past leading blanks and control characters, opens another comment. -/
def opensAnother (s : Bytes) : Bool := opening.isPrefixOf (s.dropWhile (· ≤ Ascii.space))

/-- Goes from token to token until a comment closes after which no other one opens. The
content is then `kept` together with the text after that comment. If a token that is waited
for does not come, the line has no content. -/
def walk (kept : Bytes) (inside : Bool) (s : Bytes) : Option Bytes × Bool :=
  match _h : s.after (token inside) with
  | none => (none, inside)
  | some rest =>
    if inside && !opensAnother rest then (some (kept ++ rest), false)
    else walk kept (!inside) rest
termination_by s.length
decreasing_by exact Bytes.length_after_lt (token_ne_nil inside) ‹_›

/-- Strips the comments of a line. `inside` says whether the line starts inside a comment;
the answer is the content of the line, if it has any, and whether the line ends inside a
comment. A line without any token is returned as it is, also inside a comment. -/
def strip (inside : Bool) (line : Bytes) : Option Bytes × Bool :=
  match line.cutAt opening with
  | some (before, rest) => walk before inside rest
  | none => if line.contains closing then walk [] inside line else (some line, inside)

/-- Whether a text that starts inside or outside a comment ends inside one: outside, go to
the next opening token and enter; inside, go to the next closing token and leave. -/
def endsInside (inside : Bool) (s : Bytes) : Bool :=
  match _h : s.after (token inside) with
  | none => inside
  | some rest => endsInside (!inside) rest
termination_by s.length
decreasing_by exact Bytes.length_after_lt (token_ne_nil inside) ‹_›

end Comment

end DoctypeProbe
