import DoctypeProbe.Toml.Cursor
import DoctypeProbe.Toml.Error
import DoctypeProbe.Toml.Table

/-!
# Reading Settings Documents

A settings document is a sequence of statements, one a line: a section header, which names
the table that the following assignments go to, or an assignment of a value to a bare key.
Values are strings in either kind of quotes, numbers, truth values, and arrays of values that
may run over several lines.

Every step of the reader answers what it read together with the cursor after it, and the
proof that this cursor has less left to read.

## Main results

* `Toml.value` — a value at a cursor.
* `Toml.statement` — a section header or an assignment at a cursor.
* `Toml.parse` — the table that a document denotes, or the first fault in it.
-/

namespace DoctypeProbe

namespace Toml

/-- What is read from a cursor `c`: a result, and the cursor after it, which has less left to
read. -/
abbrev Step (c : Cursor) (α : Type) :=
  Except ParseError { r : α × Cursor // r.2.rest.length < c.rest.length }

/-! ### Strings -/

/-- What a byte after a backslash stands for. -/
def unescape (b : Byte) : Option Byte :=
  if b = 0x6E then some Ascii.lf
  else if b = 0x74 then some Ascii.tab
  else if b = 0x72 then some Ascii.cr
  else if b = Ascii.backslash || b = Ascii.quote then some b
  else none

/-- Reads a string whose opening quote has been read. A string does not go beyond its line. In
apostrophes a backslash stands for itself. -/
def stringBody (quote : Byte) (line : Nat) : Bytes → Except ParseError (Bytes × Cursor)
  | [] => .error ⟨line, .unterminatedString⟩
  | b :: s =>
    if b = quote then .ok ([], ⟨s, line⟩)
    else if b = Ascii.lf then .error ⟨line + 1, .unterminatedString⟩
    else if b = Ascii.backslash && quote != Ascii.apostrophe then
      match s with
      | [] => .error ⟨line, .unknownEscape Ascii.nul⟩
      | e :: s =>
        match unescape e with
        | some x => (stringBody quote line s).map fun (text, c) => (x :: text, c)
        | none => .error ⟨Cursor.lineAfter line e, .unknownEscape e⟩
    else (stringBody quote line s).map fun (text, c) => (b :: text, c)

/-- A mapped outcome is a result only if the outcome is one. -/
theorem ok_of_map {ε α β : Type} {e : Except ε α} {f : α → β} {b : β} (h : e.map f = .ok b) :
    ∃ a, e = .ok a ∧ f a = b := by
  cases e with
  | error _ => cases h
  | ok a => exact ⟨a, rfl, Except.ok.inj h⟩

theorem length_stringBody {quote : Byte} {line : Nat} {s text : Bytes} {c : Cursor}
    (h : stringBody quote line s = .ok (text, c)) : c.rest.length < s.length := by
  fun_induction stringBody quote line s generalizing text with
  | case1 => cases h
  | case2 =>
    cases h
    simp
  | case3 => cases h
  | case4 => cases h
  | case5 b _ _ _ e s x _ ih =>
    obtain ⟨⟨text', c'⟩, hs, hc⟩ := ok_of_map h
    cases hc
    exact Nat.lt_succ_of_lt (Nat.lt_succ_of_lt (ih hs))
  | case6 => cases h
  | case7 b s _ _ _ ih =>
    obtain ⟨⟨text', c'⟩, hs, hc⟩ := ok_of_map h
    cases hc
    exact Nat.lt_succ_of_lt (ih hs)

/-! ### Numbers -/

/-- The part of a numeral after its sign: digits, points, exponent markers, signs right after
an exponent marker, and underscores anywhere. `last` is the byte before, underscores apart. -/
def numeralBody (last : Byte) : Bytes → Bytes
  | [] => []
  | b :: s =>
    if b = Ascii.underscore then b :: numeralBody last s
    else if Ascii.isDigit b || b == Ascii.dot || Ascii.lower b == 0x65 then b :: numeralBody b s
    else if (b == Ascii.plus || b == Ascii.minus) && Ascii.lower last == 0x65 then
      b :: numeralBody b s
    else []

/-- The number that a numeral stands for, if it is in range. A point or an exponent marker
makes it a floating-point number. -/
def number? (numeral : Bytes) : Option Node :=
  if numeral.any fun b => b == Ascii.dot || Ascii.lower b == 0x65 then
    ((Numeral.decimal? numeral).bind Binary64.ofDecimal?).map .float
  else
    match Numeral.integer? numeral with
    | some (n, _) => if Numeral.fitsInt64 n then some (.integer (Int64.ofInt n)) else none
    | none => none

/-! ### Values -/

/-- The truth value that a word stands for. -/
def boolean? (word : Bytes) : Option Bool :=
  if word = ascii "true" then some true
  else if word = ascii "false" then some false
  else none

/-- A value that is not an array, whose first byte is `b`. -/
def scalar (b : Byte) (s : Bytes) (line : Nat) : Step ⟨b :: s, line⟩ Node :=
  if b = Ascii.quote || b = Ascii.apostrophe then
    match h : stringBody b line s with
    | .error e => .error e
    | .ok (text, c) => .ok ⟨(.string text, c), Nat.lt_succ_of_lt (length_stringBody h)⟩
  else if b = 0x74 || b = 0x66 then
    let word := b :: s.takeWhile Ascii.isAlpha
    match boolean? word with
    | some v =>
      .ok ⟨(.boolean v, ⟨s.dropWhile Ascii.isAlpha, line⟩),
        Nat.lt_succ_of_le (List.dropWhile_suffix _).length_le⟩
    | none => .error ⟨line, .invalidBoolean word⟩
  else if b = Ascii.plus || b = Ascii.minus || Ascii.isDigit b then
    let body := numeralBody b s
    let numeral := b :: body.filter (· != Ascii.underscore)
    match number? numeral with
    | some v =>
      .ok ⟨(v, ⟨s.drop body.length, line⟩), Nat.lt_succ_of_le (List.drop_suffix _ _).length_le⟩
    | none => .error ⟨line, .invalidNumber numeral⟩
  else .error ⟨line, .invalidValue⟩

mutual

/-- Reads a value. -/
def value (c : Cursor) : Step c Node :=
  match c with
  | ⟨[], line⟩ => .error ⟨line, .invalidValue⟩
  | ⟨b :: s, line⟩ =>
    if b = Ascii.openBracket then
      match items (Cursor.skipBlank ⟨s, line⟩) with
      | .error e => .error e
      | .ok ⟨(nodes, c'), h⟩ =>
        .ok ⟨(.array nodes, c'),
          Nat.lt_succ_of_lt (Nat.lt_of_lt_of_le h (Cursor.length_skipBlank_le _))⟩
    else scalar b s line
termination_by (c.rest.length, 0)
decreasing_by
  exact Prod.Lex.left _ _ (Nat.lt_succ_of_le (Cursor.length_skipBlank_le _))

/-- Reads the items of an array from after its opening bracket, and the closing bracket. A
comma may follow the last item. -/
def items (c : Cursor) : Step c (List Node) :=
  match c with
  | ⟨[], line⟩ => .error ⟨line, .unterminatedArray⟩
  | ⟨b :: s, line⟩ =>
    if b = Ascii.closeBracket then .ok ⟨([], ⟨s, line⟩), Nat.lt_succ_self _⟩
    else
      match value ⟨b :: s, line⟩ with
      | .error e => .error e
      | .ok ⟨(node, c₁), h₁⟩ =>
        match hc : c₁.skipBlank with
        | ⟨[], line⟩ => .error ⟨line, .expectedComma⟩
        | ⟨b₂ :: s₂, line₂⟩ =>
          have h₂ : s₂.length < (b :: s).length := by
            have := Cursor.length_skipBlank_le c₁
            simp only [hc, List.length_cons] at this h₁ ⊢
            omega
          if b₂ = Ascii.comma then
            match items (Cursor.skipBlank ⟨s₂, line₂⟩) with
            | .error e => .error e
            | .ok ⟨(nodes, c'), h⟩ =>
              .ok ⟨(node :: nodes, c'),
                Nat.lt_trans (Nat.lt_of_lt_of_le h (Cursor.length_skipBlank_le _)) h₂⟩
          else if b₂ = Ascii.closeBracket then .ok ⟨([node], ⟨s₂, line₂⟩), h₂⟩
          else .error ⟨line₂, .expectedComma⟩
termination_by (c.rest.length, 1)
decreasing_by
  · exact Prod.Lex.right _ Nat.zero_lt_one
  · exact Prod.Lex.left _ _ (Nat.lt_of_le_of_lt (Cursor.length_skipBlank_le _) h₂)

end

/-! ### Statements -/

/-- The bytes of a bare key. -/
def isKeyByte (b : Byte) : Bool :=
  Ascii.isAlnum b || b == Ascii.underscore || b == Ascii.minus

/-- A text without the white space around it. -/
def trim (s : Bytes) : Bytes :=
  ((s.dropWhile Cursor.isSpace).reverse.dropWhile Cursor.isSpace).reverse

/-- Reads a section header whose opening bracket has been read: the path it names. -/
def header (s : Bytes) (line : Nat) : Except ParseError { r : Bytes × Cursor //
    r.2.rest.length ≤ s.length } :=
  let isInside (b : Byte) : Bool := b != Ascii.closeBracket && b != Ascii.lf
  let path := trim (s.takeWhile isInside)
  match h : s.dropWhile isInside with
  | [] => .error ⟨line, .unterminatedSection⟩
  | b :: rest =>
    if b = Ascii.closeBracket then
      if path.isEmpty then .error ⟨line, .emptySection⟩
      else
        .ok ⟨(path, ⟨rest, line⟩), by
          have hl : (b :: rest).length ≤ s.length := h ▸ (List.dropWhile_suffix _).length_le
          exact Nat.le_of_succ_le hl⟩
    else .error ⟨line + 1, .unterminatedSection⟩

/-- Reads an assignment: its key and its value. -/
def assignment (c : Cursor) : Step c (Bytes × Node) :=
  let key := c.rest.takeWhile isKeyByte
  let c₁ := (c.skipWhile isKeyByte).skipSpaces
  have h₁ : c₁.rest.length ≤ c.rest.length :=
    Nat.le_trans (Cursor.length_skipSpaces_le _) (Cursor.length_forward_le _ _)
  if key.isEmpty then .error ⟨c.line, .expectedKey⟩
  else
    match hc : c₁ with
    | ⟨[], line⟩ => .error ⟨line, .expectedEquals key⟩
    | ⟨b :: s, line⟩ =>
      if b = Ascii.equals then
        match value (Cursor.skipSpaces ⟨s, line⟩) with
        | .error e => .error e
        | .ok ⟨(node, c₂), h⟩ =>
          .ok ⟨((key, node), c₂), by
            have := Cursor.length_skipSpaces_le ⟨s, line⟩
            simp only [List.length_cons] at h₁ this h ⊢
            omega⟩
      else .error ⟨Cursor.lineAfter line b, .expectedEquals key⟩

/-- What has been read of a document: the path of the current section, and the table so
far. -/
structure State where
  /-- The path of the table that assignments go to. -/
  path : List Bytes := []
  /-- The table read so far. -/
  table : Table := []

/-- Reads a statement, and takes it into account. -/
def statement (state : State) (c : Cursor) : Step c State :=
  match c with
  | ⟨[], line⟩ => .error ⟨line, .expectedKey⟩
  | ⟨b :: s, line⟩ =>
    if b = Ascii.openBracket then
      match header s line with
      | .error e => .error e
      | .ok ⟨(path, c'), h⟩ =>
        let keys := Table.keysOf path
        match state.table.openSection keys with
        | .error key => .error ⟨c'.line, .notTable key path⟩
        | .ok table => .ok ⟨({ path := keys, table }, c'), Nat.lt_succ_of_le h⟩
    else
      match assignment ⟨b :: s, line⟩ with
      | .error e => .error e
      | .ok ⟨((key, node), c'), h⟩ =>
        .ok ⟨({ state with table := state.table.assign state.path key node }, c'), h⟩

/-- Moves past white space and a comment to the end of the line, where nothing else may
stand. -/
def endOfLine (c : Cursor) : Except ParseError { c' : Cursor // c'.rest.length ≤ c.rest.length } :=
  let c' := c.skipSpaces.skipComment
  have h : c'.rest.length ≤ c.rest.length :=
    Nat.le_trans (Cursor.length_skipComment_le _) (Cursor.length_skipSpaces_le _)
  if c'.rest.head?.all Cursor.isLineEnd then .ok ⟨c', h⟩ else .error ⟨c'.line, .trailing⟩

/-- Reads the statements of a document from a cursor at which nothing is left to be
skipped. -/
def statements (state : State) (c : Cursor) : Except ParseError Table :=
  if c.rest.isEmpty then .ok state.table
  else
    match statement state c with
    | .error e => .error e
    | .ok ⟨(state', c₁), _h₁⟩ =>
      match endOfLine c₁ with
      | .error e => .error e
      | .ok ⟨c₂, _h₂⟩ => statements state' c₂.skipBlank
termination_by c.rest.length
decreasing_by
  exact Nat.lt_of_le_of_lt (Cursor.length_skipBlank_le _) (Nat.lt_of_le_of_lt ‹_› ‹_›)

/-- Reads a settings document. -/
def parse (text : Bytes) : Except ParseError Table :=
  statements {} (Cursor.skipBlank { rest := text })

end Toml

end DoctypeProbe
