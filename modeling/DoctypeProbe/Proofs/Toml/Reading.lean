import DoctypeProbe.Toml.Parser
import Mathlib.Tactic.SplitIfs

/-!
# What a Settings Document Says

The reader of settings documents carries a cursor, counts lines, and proves at every step that
less is left to read. None of this matters to what a document denotes. Here every step gets a
plain form on the text alone: it answers what is read and the text behind it, or nothing.

A document is then a script of statements (`Script`), read one after the other. Reading it is one
thing and performing it another: only the second looks at tables. A document denotes a table if it
has a script, and the script can be performed from the empty table.

## Main results

* `Toml.value?_cons`, `Toml.items?_cons`: the equations of reading values.
* `Toml.plain_value`, `Toml.plain_statement`: the reader, line numbers apart.
* `Toml.parse_eq_ok_iff`: the tables that documents denote.
-/

namespace DoctypeProbe

namespace Toml

/-! ### Between statements -/

/-- A text without the white space, line ends and comments that it begins with. -/
def afterBlank (s : Bytes) : Bytes := s.drop (Cursor.blank false s).length

/-- A text from the end of its line on. -/
def afterLine (s : Bytes) : Bytes := s.dropWhile (· != Ascii.lf)

/-- A text without the comment that it begins with. -/
def afterComment (s : Bytes) : Bytes := if s.head? = some Ascii.hash then afterLine s else s

@[simp] theorem rest_skipBlank (c : Cursor) : c.skipBlank.rest = afterBlank c.rest := rfl

theorem afterLine_cons (b : Byte) (s : Bytes) :
    afterLine (b :: s) = if b = Ascii.lf then b :: s else afterLine s := by
  by_cases hb : b = Ascii.lf <;> simp [afterLine, hb]

/-- The comment that a text continues ends with its line. -/
theorem drop_blank_true (s : Bytes) :
    s.drop (Cursor.blank true s).length = afterBlank (afterLine s) := by
  induction s with
  | nil => rfl
  | cons b s ih =>
      rw [Cursor.blank, if_pos rfl, List.length_cons, List.drop_succ_cons, afterLine_cons]
      by_cases hb : b = Ascii.lf
      · subst hb
        rfl
      · rw [if_neg hb, ← ih, bne_iff_ne.mpr hb]

theorem afterBlank_cons (b : Byte) (s : Bytes) :
    afterBlank (b :: s) =
      if Cursor.isSpace b || Cursor.isLineEnd b then afterBlank s
      else if b = Ascii.hash then afterBlank (afterLine s)
      else b :: s := by
  rw [afterBlank, Cursor.blank, if_neg Bool.false_ne_true]
  split_ifs
  · rfl
  · exact drop_blank_true s
  · rfl

theorem length_afterBlank_le (s : Bytes) : (afterBlank s).length ≤ s.length :=
  Cursor.length_skipBlank_le ⟨s, 1⟩

theorem drop_length_takeWhile (p : Byte → Bool) (s : Bytes) :
    s.drop (s.takeWhile p).length = s.dropWhile p := by
  induction s with
  | nil => rfl
  | cons b s ih =>
      by_cases hb : p b = true
      · rw [List.takeWhile_cons_of_pos hb, List.dropWhile_cons_of_pos hb, List.length_cons,
          List.drop_succ_cons, ih]
      · rw [List.takeWhile_cons_of_neg hb, List.dropWhile_cons_of_neg hb]
        rfl

@[simp] theorem rest_skipWhile (c : Cursor) (p : Byte → Bool) :
    (c.skipWhile p).rest = c.rest.dropWhile p :=
  drop_length_takeWhile p c.rest

@[simp] theorem rest_skipSpaces (c : Cursor) :
    c.skipSpaces.rest = c.rest.dropWhile Cursor.isSpace := rest_skipWhile c _

@[simp] theorem rest_skipComment (c : Cursor) : c.skipComment.rest = afterComment c.rest := by
  rw [Cursor.skipComment, afterComment]
  split_ifs
  · exact rest_skipWhile c _
  · rfl

/-! ### Values -/

/-- What a step has read, the numbers of lines apart: its result, and the text behind it. -/
def plain {c : Cursor} {α : Type} (r : Step c α) : Option (α × Bytes) :=
  r.toOption.map fun r => (r.1.1, r.1.2.rest)

/-- The string at a text whose opening quote has been read. -/
def string? (quote : Byte) : Bytes → Option (Bytes × Bytes)
  | [] => none
  | b :: s =>
    if b = quote then some ([], s)
    else if b = Ascii.lf then none
    else if b = Ascii.backslash && quote != Ascii.apostrophe then
      match s with
      | [] => none
      | e :: s => (unescape e).bind fun x => (string? quote s).map (Prod.map (x :: ·) id)
    else (string? quote s).map (Prod.map (b :: ·) id)

/-- What goes on after a backslash. -/
def escaped? (quote : Byte) : Bytes → Option (Bytes × Bytes)
  | [] => none
  | e :: s => (unescape e).bind fun x => (string? quote s).map (Prod.map (x :: ·) id)

/-- The value, other than an array, at a text whose first byte is `b`. -/
def scalar? (b : Byte) (s : Bytes) : Option (Node × Bytes) :=
  if b = Ascii.quote || b = Ascii.apostrophe then (string? b s).map (Prod.map .string id)
  else if b = 0x74 || b = 0x66 then
    (boolean? (b :: s.takeWhile Ascii.isAlpha)).map fun v =>
      (.boolean v, s.dropWhile Ascii.isAlpha)
  else if b = Ascii.plus || b = Ascii.minus || Ascii.isDigit b then
    (number? (b :: (numeralBody b s).filter (· != Ascii.underscore))).map fun v =>
      (v, s.drop (numeralBody b s).length)
  else none

/-- The value at a text. -/
def value? (s : Bytes) : Option (Node × Bytes) := plain (value ⟨s, 1⟩)

/-- The items at a text, and the bracket that closes them. -/
def items? (s : Bytes) : Option (List Node × Bytes) := plain (items ⟨s, 1⟩)

/-- What goes on after an item. -/
def itemsAfter? (node : Node) : Bytes → Option (List Node × Bytes)
  | [] => none
  | b :: s =>
    if b = Ascii.comma then (items? (afterBlank s)).map (Prod.map (node :: ·) id)
    else if b = Ascii.closeBracket then some ([node], s)
    else none

/-- What a successful step has read, if it made something of the result of another. -/
theorem exists_of_map {α β : Type} {x : Option (α × Bytes)} {f : α → β} {b : β} {rest : Bytes}
    (h : x.map (Prod.map f id) = some (b, rest)) : ∃ a, x = some (a, rest) ∧ f a = b := by
  obtain ⟨⟨a, rest'⟩, hx, he⟩ := Option.map_eq_some_iff.mp h
  obtain ⟨hb, rfl⟩ := Prod.mk.inj he
  exact ⟨a, hx, hb⟩

/-- A numeral stands for an integer or a floating-point number. -/
theorem number?_cases {numeral : Bytes} {node : Node} (h : number? numeral = some node) :
    (∃ n, node = .integer n) ∨ ∃ x, node = .float x := by
  rw [number?] at h
  split at h
  · obtain ⟨x, -, rfl⟩ := Option.map_eq_some_iff.mp h
    exact Or.inr ⟨x, rfl⟩
  · split at h
    · split_ifs at h
      cases h
      exact Or.inl ⟨_, rfl⟩
    · cases h

/-- A value that is not an array is a string, a truth value or a number. -/
theorem scalar?_cases {b : Byte} {s rest : Bytes} {node : Node}
    (h : scalar? b s = some (node, rest)) :
    (∃ text, node = .string text) ∨ (∃ v, node = .boolean v) ∨
      (b = Ascii.plus || b = Ascii.minus || Ascii.isDigit b) = true ∧
        number? (b :: (numeralBody b s).filter (· != Ascii.underscore)) = some node := by
  rw [scalar?] at h
  split_ifs at h with _ _ hnumber
  · obtain ⟨text, -, rfl⟩ := exists_of_map h
    exact Or.inl ⟨text, rfl⟩
  · obtain ⟨v, -, he⟩ := Option.map_eq_some_iff.mp h
    exact Or.inr (Or.inl ⟨v, (Prod.mk.inj he).1.symm⟩)
  · obtain ⟨v, hv, he⟩ := Option.map_eq_some_iff.mp h
    exact Or.inr (Or.inr ⟨hnumber, (Prod.mk.inj he).1 ▸ hv⟩)

theorem string?_cons (quote b : Byte) (s : Bytes) :
    string? quote (b :: s) =
      if b = quote then some ([], s)
      else if b = Ascii.lf then none
      else if b = Ascii.backslash && quote != Ascii.apostrophe then escaped? quote s
      else (string? quote s).map (Prod.map (b :: ·) id) := by
  rw [string?.eq_def]
  cases s <;> rfl

/-- **Which line a string is on** does not matter to what is read. -/
theorem toOption_stringBody (quote : Byte) (line : Nat) (s : Bytes) :
    (stringBody quote line s).toOption.map (Prod.map id Cursor.rest) = string? quote s := by
  fun_induction stringBody quote line s with
  | case1 => rfl
  | case2 s =>
      rw [string?_cons, if_pos rfl]
      rfl
  | case3 s hq =>
      rw [string?_cons, if_neg hq, if_pos rfl]
      rfl
  | case4 b hq hlf hb =>
      rw [string?_cons, if_neg hq, if_neg hlf, if_pos hb]
      rfl
  | case5 b hq hlf hb e s x hx ih =>
      rw [string?_cons, if_neg hq, if_neg hlf, if_pos hb, escaped?, hx, Option.bind_some, ← ih]
      cases stringBody quote line s <;> rfl
  | case6 b hq hlf hb e s hx =>
      rw [string?_cons, if_neg hq, if_neg hlf, if_pos hb, escaped?, hx]
      rfl
  | case7 b s hq hlf hb ih =>
      rw [string?_cons, if_neg hq, if_neg hlf, if_neg hb, ← ih]
      cases stringBody quote line s <;> rfl

theorem plain_scalar (b : Byte) (s : Bytes) (line : Nat) :
    plain (scalar b s line) = scalar? b s := by
  have hstring := toOption_stringBody b line s
  rw [scalar, scalar?]
  split_ifs
  · rw [← hstring]
    split
    · rename_i h
      simp only [h]
      rfl
    · rename_i h
      simp only [h]
      rfl
  · dsimp only
    split
    · rename_i h
      rw [h]
      rfl
    · rename_i h
      rw [h]
      rfl
  · dsimp only
    split
    · rename_i h
      rw [h]
      rfl
    · rename_i h
      rw [h]
      rfl
  · rfl

/-- A byte that may stand in a numeral. -/
def isNumeralByte (b : Byte) : Bool :=
  Ascii.isDigit b || b == Ascii.dot || Ascii.lower b == 0x65 || b == Ascii.underscore ||
    b == Ascii.plus || b == Ascii.minus

/-- Any other byte ends a numeral. -/
theorem numeralBody_of_not {b : Byte} (hb : isNumeralByte b = false) (last : Byte) (s : Bytes) :
    numeralBody last (b :: s) = [] := by
  simp only [isNumeralByte, Bool.or_eq_false_iff, beq_eq_false_iff_ne] at hb
  simp [numeralBody, hb]

@[simp] theorem value?_nil : value? [] = none := by
  rw [value?, value]
  rfl

@[simp] theorem items?_nil : items? [] = none := by
  rw [items?, items]
  rfl

/-- Reading a value, if it is known what items are read behind. -/
theorem plain_value_cons {b : Byte} {s : Bytes} (line : Nat)
    (h : ∀ c : Cursor, c.rest.length ≤ s.length → plain (items c) = items? c.rest) :
    plain (value ⟨b :: s, line⟩) =
      if b = Ascii.openBracket then (items? (afterBlank s)).map (Prod.map .array id)
      else scalar? b s := by
  rw [value]
  split_ifs
  · rw [← rest_skipBlank ⟨s, line⟩, ← h _ (Cursor.length_skipBlank_le _)]
    cases items (Cursor.skipBlank ⟨s, line⟩) <;> rfl
  · exact plain_scalar b s line

/-- Reading items, if it is known what value is read, and what items behind. -/
theorem plain_items_cons {b : Byte} {s : Bytes} (line : Nat)
    (hv : plain (value ⟨b :: s, line⟩) = value? (b :: s))
    (h : ∀ c : Cursor, c.rest.length ≤ s.length → plain (items c) = items? c.rest) :
    plain (items ⟨b :: s, line⟩) =
      if b = Ascii.closeBracket then some ([], s)
      else (value? (b :: s)).bind fun (node, s) => itemsAfter? node (afterBlank s) := by
  rw [items, ← hv]
  split_ifs
  · rfl
  · rcases value ⟨b :: s, line⟩ with e | ⟨⟨node, c⟩, hc⟩
    · rfl
    · have hle : (c.skipBlank).rest.length ≤ s.length :=
        Nat.le_trans (Cursor.length_skipBlank_le c) (Nat.le_of_lt_succ hc)
      change _ = itemsAfter? node c.skipBlank.rest
      simp only
      split
      · rename_i hb
        simp only [hb]
        rfl
      · rename_i b₂ s₂ line₂ hb
        simp only [hb, List.length_cons] at hle ⊢
        have hle₂ : (Cursor.skipBlank ⟨s₂, line₂⟩).rest.length ≤ s.length :=
          Nat.le_trans (Cursor.length_skipBlank_le _) (Nat.le_of_succ_le hle)
        rw [itemsAfter?, ← rest_skipBlank ⟨s₂, line₂⟩, ← h _ hle₂]
        split_ifs
        · cases items (Cursor.skipBlank ⟨s₂, line₂⟩) <;> rfl
        · rfl
        · rfl

/-- **Which line a value is on** does not matter to what is read. Induction on the length of the
text: the items of an array stand on less of it. -/
theorem plain_value_items (c : Cursor) :
    plain (value c) = value? c.rest ∧ plain (items c) = items? c.rest := by
  induction hn : c.rest.length using Nat.strongRecOn generalizing c with
  | ind n ih =>
      obtain ⟨s, line⟩ := c
      rcases s with - | ⟨b, s⟩
      · constructor
        · rw [value, value?_nil]
          rfl
        · rw [items, items?_nil]
          rfl
      · have h : ∀ c : Cursor, c.rest.length ≤ s.length → plain (items c) = items? c.rest :=
          fun c hc => (ih _ (by simp only [List.length_cons] at hn; omega) c rfl).2
        have hv : ∀ line, plain (value ⟨b :: s, line⟩) = value? (b :: s) :=
          fun line => (plain_value_cons line h).trans (plain_value_cons 1 h).symm
        exact ⟨hv line,
          (plain_items_cons line (hv line) h).trans (plain_items_cons 1 (hv 1) h).symm⟩

theorem plain_value (c : Cursor) : plain (value c) = value? c.rest := (plain_value_items c).1

/-- **A value** is an array, or a value of another kind. -/
theorem value?_cons (b : Byte) (s : Bytes) :
    value? (b :: s) =
      if b = Ascii.openBracket then (items? (afterBlank s)).map (Prod.map .array id)
      else scalar? b s :=
  plain_value_cons 1 fun c _ => (plain_value_items c).2

/-- A sign or a digit begins a number, and nothing else. -/
theorem value?_number {b : Byte}
    (hb : (b = Ascii.plus || b = Ascii.minus || Ascii.isDigit b) = true) (s : Bytes) :
    value? (b :: s) =
      (number? (b :: (numeralBody b s).filter (· != Ascii.underscore))).map fun v =>
        (v, s.drop (numeralBody b s).length) := by
  have hne : ∀ b', (b' = Ascii.plus || b' = Ascii.minus || Ascii.isDigit b') = false → b ≠ b' := by
    rintro b' hb' rfl
    rw [hb] at hb'
    cases hb'
  rw [value?_cons, if_neg (hne _ (by decide)), scalar?, if_neg, if_neg, if_pos hb]
  · simp [hne 0x74 (by decide), hne 0x66 (by decide)]
  · simp [hne Ascii.quote (by decide), hne Ascii.apostrophe (by decide)]

/-- **Items** are values with commas between them, and maybe one behind. -/
theorem items?_cons (b : Byte) (s : Bytes) :
    items? (b :: s) =
      if b = Ascii.closeBracket then some ([], s)
      else (value? (b :: s)).bind fun (node, s) => itemsAfter? node (afterBlank s) :=
  plain_items_cons 1 (plain_value _) fun c _ => (plain_value_items c).2

/-- What goes on behind the first item. -/
theorem items?_of_item {b : Byte} {s rest : Bytes} {node : Node} (hb : b ≠ Ascii.closeBracket)
    (h : value? (b :: s) = some (node, rest)) :
    items? (b :: s) = itemsAfter? node (afterBlank rest) := by
  rw [items?_cons, if_neg hb, h, Option.bind_some]

/-- No value begins with white space or a line end. -/
theorem value?_of_isBlank {b : Byte} (hb : (Cursor.isSpace b || Cursor.isLineEnd b) = true)
    (s : Bytes) : value? (b :: s) = none := by
  have hcases : b = Ascii.space ∨ b = Ascii.tab ∨ b = Ascii.lf ∨ b = Ascii.cr := by
    simpa [Cursor.isSpace, Cursor.isLineEnd, or_assoc] using hb
  rcases hcases with rfl | rfl | rfl | rfl <;>
    rw [value?_cons, if_neg (by decide), scalar?, if_neg (by decide), if_neg (by decide),
      if_neg (by decide)]

theorem length_lt_of_plain {c : Cursor} {α : Type} {r : Step c α} {a : α} {rest : Bytes}
    (h : plain r = some (a, rest)) : rest.length < c.rest.length := by
  rcases r with e | ⟨⟨a', c'⟩, hc⟩
  · cases h
  · cases h
    exact hc

theorem length_lt_of_value? {s rest : Bytes} {node : Node} (h : value? s = some (node, rest)) :
    rest.length < s.length := length_lt_of_plain h

/-- **Induction along the reading of values.** `P` speaks of texts that begin with a value, and `Q`
of texts that begin with the items of an array. -/
theorem readingInduction {P Q : Bytes → Prop} (value_nil : P []) (items_nil : Q [])
    (array : ∀ s, Q (afterBlank s) → P (Ascii.openBracket :: s))
    (scalar : ∀ b s, b ≠ Ascii.openBracket → P (b :: s))
    (items : ∀ b s, P (b :: s) →
      (∀ node rest s', value? (b :: s) = some (node, rest) →
        afterBlank rest = Ascii.comma :: s' → Q (afterBlank s')) → Q (b :: s)) (s : Bytes) :
    P s ∧ Q s := by
  induction hn : s.length using Nat.strongRecOn generalizing s with
  | ind n ih =>
      rcases s with - | ⟨b, s⟩
      · exact ⟨value_nil, items_nil⟩
      · have hvalue : P (b :: s) := by
          by_cases hb : b = Ascii.openBracket
          · have hle := length_afterBlank_le s
            exact hb ▸ array s (ih _ (by simp only [List.length_cons] at hn; omega) _ rfl).2
          · exact scalar b s hb
        refine ⟨hvalue, items b s hvalue fun node rest s' hv hrest => ?_⟩
        have hlt := length_lt_of_value? hv
        have hle := length_afterBlank_le rest
        have hle' := length_afterBlank_le s'
        rw [hrest, List.length_cons] at hle
        exact (ih _ (by omega) _ rfl).2

/-! ### Statements -/

/-- What a document says on a line: a section header, or an assignment. -/
inductive Statement where
  /-- The assignments that follow go to the table at a dotted path. -/
  | header (path : Bytes)
  /-- A key of the current table gets a value. -/
  | assign (key : Bytes) (value : Node)

/-- What a section header does not go beyond. -/
def isInside (b : Byte) : Bool := b != Ascii.closeBracket && b != Ascii.lf

/-- The section header at a text whose opening bracket has been read. -/
def header? (s : Bytes) : Option (Bytes × Bytes) :=
  match s.dropWhile isInside with
  | [] => none
  | b :: rest =>
    if b = Ascii.closeBracket ∧ trim (s.takeWhile isInside) ≠ [] then
      some (trim (s.takeWhile isInside), rest)
    else none

/-- What goes on after a key. -/
def valueAfter? (key : Bytes) : Bytes → Option ((Bytes × Node) × Bytes)
  | [] => none
  | b :: s =>
    if b = Ascii.equals then
      (value? (s.dropWhile Cursor.isSpace)).map (Prod.map (key, ·) id)
    else none

/-- The assignment at a text. -/
def assignment? (s : Bytes) : Option ((Bytes × Node) × Bytes) :=
  if s.takeWhile isKeyByte = [] then none
  else valueAfter? (s.takeWhile isKeyByte) ((s.dropWhile isKeyByte).dropWhile Cursor.isSpace)

/-- The statement at a text. -/
def statement? : Bytes → Option (Statement × Bytes)
  | [] => none
  | b :: s =>
    if b = Ascii.openBracket then (header? s).map (Prod.map .header id)
    else (assignment? (b :: s)).map (Prod.map (fun (key, node) => .assign key node) id)

/-- An assignment has a key, and behind it an equals sign and a value. -/
theorem exists_of_assignment? {s rest key : Bytes} {node : Node}
    (h : assignment? s = some ((key, node), rest)) :
    key = s.takeWhile isKeyByte ∧ key ≠ [] ∧
      ∃ t, (s.dropWhile isKeyByte).dropWhile Cursor.isSpace = Ascii.equals :: t ∧
        value? (t.dropWhile Cursor.isSpace) = some (node, rest) := by
  rw [assignment?] at h
  split_ifs at h with hkey
  cases ht : (s.dropWhile isKeyByte).dropWhile Cursor.isSpace with
  | nil =>
      rw [ht] at h
      cases h
  | cons b t =>
      rw [ht, valueAfter?] at h
      split_ifs at h with hb
      obtain ⟨node', hv, he⟩ := exists_of_map h
      obtain ⟨rfl, rfl⟩ := Prod.mk.inj he
      exact ⟨rfl, hkey, t, by rw [hb], hv⟩

/-- A statement is a section header or an assignment. -/
theorem statement?_cases {s rest : Bytes} {st : Statement} (h : statement? s = some (st, rest)) :
    (∃ path, st = .header path) ∨
      ∃ key node, st = .assign key node ∧ assignment? s = some ((key, node), rest) := by
  cases s with
  | nil => cases h
  | cons b s =>
      rw [statement?] at h
      split_ifs at h
      · obtain ⟨path, -, rfl⟩ := exists_of_map h
        exact Or.inl ⟨path, rfl⟩
      · obtain ⟨⟨key, node⟩, ha, rfl⟩ := exists_of_map h
        exact Or.inr ⟨key, node, rfl, ha⟩

/-- What is left of a line after a statement: the text from its end on, if nothing but white space
and a comment stands before it. -/
def lineEnd? (s : Bytes) : Option Bytes :=
  let s' := afterComment (s.dropWhile Cursor.isSpace)
  if s'.head?.all Cursor.isLineEnd then some s' else none

/-- Where a comment ends, the line does. -/
theorem head?_afterLine (s : Bytes) : (afterLine s).head?.all Cursor.isLineEnd = true := by
  induction s with
  | nil => rfl
  | cons b s ih =>
      rw [afterLine_cons]
      split_ifs with hb
      · rw [hb]
        rfl
      · exact ih

theorem lineEnd?_comment {s : Bytes}
    (h : (s.dropWhile Cursor.isSpace).head? = some Ascii.hash) :
    lineEnd? s = some (afterLine (s.dropWhile Cursor.isSpace)) := by
  rw [lineEnd?, afterComment, if_pos h]
  exact if_pos (head?_afterLine _)

theorem lineEnd?_of_not_comment {s : Bytes}
    (h : (s.dropWhile Cursor.isSpace).head? ≠ some Ascii.hash) :
    lineEnd? s =
      if (s.dropWhile Cursor.isSpace).head?.all Cursor.isLineEnd then
        some (s.dropWhile Cursor.isSpace)
      else none := by
  rw [lineEnd?, afterComment, if_neg h]

/-- A text at which nothing is left to be skipped has a script: the statements in it. -/
inductive Script : Bytes → List Statement → Prop
  | nil : Script [] []
  | cons {s rest tail : Bytes} {st : Statement} {sts : List Statement} :
      statement? s = some (st, rest) → lineEnd? rest = some tail →
        Script (afterBlank tail) sts → Script s (st :: sts)

theorem script_nil_iff {sts : List Statement} : Script [] sts ↔ sts = [] := by
  constructor
  · intro h
    cases h with
    | nil => rfl
    | cons hst => cases hst
  · rintro rfl
    exact .nil

/-- **The script of a text** begins with the statement at it. -/
theorem script_iff {s : Bytes} (hs : s ≠ []) {sts : List Statement} :
    Script s sts ↔ ∃ st rest tail sts', statement? s = some (st, rest) ∧
      lineEnd? rest = some tail ∧ Script (afterBlank tail) sts' ∧ sts = st :: sts' := by
  constructor
  · intro h
    cases h with
    | nil => exact absurd rfl hs
    | cons hst hl hr => exact ⟨_, _, _, _, hst, hl, hr, rfl⟩
  · rintro ⟨st, rest, tail, sts', hst, hl, hr, rfl⟩
    exact .cons hst hl hr

theorem toOption_header (s : Bytes) (line : Nat) :
    (header s line).toOption.map (fun r => (r.1.1, r.1.2.rest)) = header? s := by
  rw [header, header?]
  split
  · rename_i h
    have hs : s.dropWhile isInside = [] := h
    rw [hs]
    rfl
  · rename_i b rest h
    have hs : s.dropWhile isInside = b :: rest := h
    have hpath : trim (s.takeWhile fun b => b != Ascii.closeBracket && b != Ascii.lf) =
        trim (s.takeWhile isInside) := rfl
    simp only [hs, hpath, List.isEmpty_iff]
    by_cases hb : b = Ascii.closeBracket <;> by_cases ht : trim (s.takeWhile isInside) = [] <;>
      simp [hb, ht, Except.toOption]

theorem plain_assignment (c : Cursor) : plain (assignment c) = assignment? c.rest := by
  rw [assignment, assignment?]
  simp only [List.isEmpty_iff]
  split_ifs with hk
  · rfl
  · rw [← rest_skipWhile, ← rest_skipSpaces]
    split
    · rename_i hc _
      rw [hc]
      rfl
    · rename_i b s line _ _ hc _
      rw [hc, valueAfter?, ← rest_skipSpaces ⟨s, line⟩, ← plain_value]
      split_ifs
      · cases value (Cursor.skipSpaces ⟨s, line⟩) <;> rfl
      · rfl

theorem toOption_endOfLine (c : Cursor) :
    (endOfLine c).toOption.map (fun c' => c'.1.rest) = lineEnd? c.rest := by
  rw [endOfLine, lineEnd?]
  simp only [rest_skipComment, rest_skipSpaces]
  split_ifs <;> simp [Except.toOption]

/-- Takes a statement into account; there is nothing if a section leads through something that is
not a table. -/
def State.perform (state : State) : Statement → Option State
  | .header path =>
    (state.table.openSection (Table.keysOf path)).toOption.map fun table =>
      { path := Table.keysOf path, table }
  | .assign key node => some { state with table := state.table.assign state.path key node }

/-- **Reading a statement** is one thing, and taking it into account another. -/
theorem plain_statement (state : State) (c : Cursor) :
    plain (statement state c) =
      (statement? c.rest).bind fun r => (state.perform r.1).map (·, r.2) := by
  obtain ⟨s, line⟩ := c
  rcases s with - | ⟨b, s⟩
  · rfl
  · rw [statement, statement?]
    split_ifs
    · rw [← toOption_header s line]
      rcases header s line with e | ⟨⟨path, c'⟩, h⟩
      · rfl
      · simp only [Except.toOption, Option.map_some, Prod.map, Option.bind_some, State.perform]
        cases state.table.openSection (Table.keysOf path) <;> rfl
    · rw [← plain_assignment ⟨b :: s, line⟩]
      rcases assignment ⟨b :: s, line⟩ with e | ⟨⟨⟨key, node⟩, c'⟩, h⟩ <;> rfl

theorem plain_statement_eq_some_iff {state state' : State} {c : Cursor} {rest : Bytes} :
    plain (statement state c) = some (state', rest) ↔
      ∃ st, statement? c.rest = some (st, rest) ∧ state.perform st = some state' := by
  rw [plain_statement]
  rcases statement? c.rest with - | ⟨st, s⟩
  · simp
  · simp only [Option.bind_some, Option.map_eq_some_iff, Prod.mk.injEq, Option.some.injEq]
    constructor
    · rintro ⟨state₁, hp, rfl, rfl⟩
      exact ⟨st, ⟨rfl, rfl⟩, hp⟩
    · rintro ⟨st', ⟨rfl, rfl⟩, hp⟩
      exact ⟨state', hp, rfl, rfl⟩

/-- **Statements are read**, and then taken into account one after the other. -/
theorem statements_eq_ok_iff {state : State} {c : Cursor} {t : Table} :
    statements state c = .ok t ↔ ∃ sts state', Script c.rest sts ∧
      sts.foldlM State.perform state = some state' ∧ state'.table = t := by
  fun_induction statements state c with
  | case1 state c he =>
      rw [List.isEmpty_iff.mp he]
      simp [script_nil_iff, eq_comm]
  | case2 state c he e hs =>
      simp only [script_iff (mt List.isEmpty_iff.mpr he), reduceCtorEq, false_iff]
      rintro ⟨_, state', ⟨st, rest, tail, sts, hst, -, -, rfl⟩, hrun, -⟩
      obtain ⟨state₁, hp, -⟩ := Option.bind_eq_some_iff.mp hrun
      have hplain := plain_statement_eq_some_iff.mpr ⟨st, hst, hp⟩
      rw [hs] at hplain
      cases hplain
  | case3 state c he state₁ c₁ h₁ hs e hl =>
      simp only [script_iff (mt List.isEmpty_iff.mpr he), reduceCtorEq, false_iff]
      rintro ⟨_, state', ⟨st, rest, tail, sts, hst, htail, -, rfl⟩, hrun, -⟩
      obtain ⟨state₂, hp, -⟩ := Option.bind_eq_some_iff.mp hrun
      have hplain := plain_statement_eq_some_iff.mpr ⟨st, hst, hp⟩
      rw [hs] at hplain
      cases hplain
      have hend := toOption_endOfLine c₁
      rw [hl, htail] at hend
      cases hend
  | case4 state c he state₁ c₁ h₁ hs c₂ h₂ hl ih =>
      have hend := toOption_endOfLine c₁
      rw [hl] at hend
      obtain ⟨st, hst, hp⟩ : ∃ st, statement? c.rest = some (st, c₁.rest) ∧
          state.perform st = some state₁ := plain_statement_eq_some_iff.mp (by rw [hs]; rfl)
      rw [ih]
      constructor
      · rintro ⟨sts, state', hscript, hrun, ht⟩
        refine ⟨st :: sts, state', .cons hst hend.symm hscript, ?_, ht⟩
        rw [List.foldlM_cons, hp]
        exact hrun
      · simp only [script_iff (mt List.isEmpty_iff.mpr he)]
        rintro ⟨_, state', ⟨st', rest', tail, sts, hst', htail, hscript, rfl⟩, hrun, ht⟩
        rw [hst] at hst'
        cases hst'
        rw [← hend] at htail
        cases htail
        rw [List.foldlM_cons, hp] at hrun
        exact ⟨sts, state', hscript, hrun, ht⟩

/-- **What a document denotes.** -/
theorem parse_eq_ok_iff {text : Bytes} {t : Table} :
    parse text = .ok t ↔ ∃ sts state, Script (afterBlank text) sts ∧
      sts.foldlM State.perform {} = some state ∧ state.table = t :=
  statements_eq_ok_iff

end Toml

end DoctypeProbe
