import DoctypeProbe.Bytes

/-!
# Paths

A path is a root, if it has one, and names separated by slashes below it. A text of slashes
only is a root throughout; in any other text the root is the first slash, and further slashes
are separators. A path that goes on below a root keeps the root as it is written.

Joining, taking apart and normalising paths work on what is written; whether anything exists
at a path is a question for the file system.

The normal form of a path has no empty name, no `.`, no `..` after a name, and no `..` right
below the root. It ends in a slash when the path ends in a slash or in a dot name, and a name
stands before it.

## Main results

* `Path.text_ofText` — a text is read as a path with this text.
* `Path.join` — a path below another one; an absolute path replaces it.
* `Path.normal` — the normal form of a path.
-/

namespace DoctypeProbe

/-- A path. -/
structure Path where
  /-- The number of slashes that the root is written with; zero if the path is relative. -/
  root : Nat := 0
  /-- The text below the root. -/
  tail : Bytes := []
deriving DecidableEq, Repr

namespace Path

/-- The name of the directory itself. -/
def here : Bytes := [Ascii.dot]

/-- The name of the directory above. -/
def above : Bytes := [Ascii.dot, Ascii.dot]

/-- The text of a path. -/
def text (p : Path) : Bytes := List.replicate p.root Ascii.slash ++ p.tail

/-- Reads a text as a path. -/
def ofText (t : Bytes) : Path :=
  if t.all (· == Ascii.slash) then { root := t.length }
  else if t.head? = some Ascii.slash then { root := 1, tail := t.drop 1 }
  else { tail := t }

theorem text_ofText (t : Bytes) : (ofText t).text = t := by
  unfold ofText text
  split
  · rename_i h
    have hall : ∀ b ∈ t, b = Ascii.slash := by simpa using h
    simpa using (List.eq_replicate_of_mem hall).symm
  · split
    · rename_i h
      obtain ⟨rest, rfl⟩ := List.head?_eq_some_iff.1 h
      rfl
    · rfl

/-- Whether a path starts at the root. -/
def isAbsolute (p : Path) : Bool := p.root != 0

/-- Whether a path is empty. -/
def isEmpty (p : Path) : Bool := p.root == 0 && p.tail.isEmpty

/-- Whether a path ends in a slash. -/
def endsInSlash (p : Path) : Bool := p.text.getLast? == some Ascii.slash

/-- The names in a path, without empty ones. -/
def names (p : Path) : List Bytes := (Bytes.fields p.tail Ascii.slash).filter (!·.isEmpty)

/-- The last name of a path; empty if the path ends in a slash. -/
def fileName (p : Path) : Bytes := (p.tail.reverse.takeWhile (· != Ascii.slash)).reverse

/-- The path `q` seen from the directory `p`. An absolute `q` replaces `p`, and so does any
`q` when `p` is empty. -/
def join (p q : Path) : Path :=
  if q.isAbsolute || p.isEmpty then q
  else if p.tail.isEmpty || p.endsInSlash then { p with tail := p.tail ++ q.tail }
  else { p with tail := p.tail ++ Ascii.slash :: q.tail }

/-- A text without the slashes at its end. -/
def trimSlashes (t : Bytes) : Bytes := (t.reverse.dropWhile (· == Ascii.slash)).reverse

/-- A path without its last name. A path that is only a root is its own parent. -/
def parent (p : Path) : Path :=
  let directory := trimSlashes (p.tail.reverse.dropWhile (· != Ascii.slash)).reverse
  ofText { p with tail := directory }.text

/-! ### The normal form -/

/-- Adds a name to the reversed names of a normal path. A dot name adds nothing, and `..`
takes the name before it away; below the root it is dropped. -/
def push (absolute : Bool) (reversed : List Bytes) (name : Bytes) : List Bytes :=
  if name = here then reversed
  else if name = above then
    match reversed with
    | [] => if absolute then [] else [above]
    | top :: below => if top = above then above :: reversed else below
  else name :: reversed

/-- Puts names together with slashes between them. -/
def ofNames : List Bytes → Bytes
  | [] => []
  | [name] => name
  | name :: names => name ++ Ascii.slash :: ofNames names

/-- Whether the normal form of a path marks a directory by a slash at its end: the path ends
in a slash or a dot name. -/
def marksDirectory (p : Path) : Bool :=
  p.endsInSlash || p.fileName = here || p.fileName = above

/-- The normal form of a path. The empty path stays as it is. -/
def normal (p : Path) : Path :=
  match p.names.foldl (push p.isAbsolute) [] with
  | [] => if p.isAbsolute || p.isEmpty then { p with tail := [] } else { tail := here }
  | top :: below =>
    let names := ofNames (top :: below).reverse
    { p with
      tail := if p.marksDirectory && top != above then names ++ [Ascii.slash] else names }

end Path

end DoctypeProbe
