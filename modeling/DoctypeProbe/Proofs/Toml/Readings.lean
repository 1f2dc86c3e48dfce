import DoctypeProbe.Proofs.Toml.Comments

/-!
# Outcomes of Reading

A step of the reader answers what it has read and the cursor behind, or the fault that it has met
and the line. `plain` forgets all but what a text denotes; here the whole outcome is kept, faults
and lines included, and only the proof that less is left to read is dropped.

Readings are put in sequence by `Reading.andThen`. In this form a value, the items of an array and
a document each have one equation, which says what is read next by the byte at the cursor.

## Main results

* `Toml.skipBlank_gap`, `Toml.span_resumes`: what is skipped, whatever stands behind it.
* `Toml.readValue_cons`, `Toml.readItems_of_cons`, `Toml.readMore_of_cons`: values.
* `Toml.readSection_eq`, `Toml.readAssignment_eq`, `Toml.readStatement_cons`: statements.
* `Toml.readLines_of_cons`, `Toml.readRest_of_endsLine`: documents, line by line.
-/

namespace DoctypeProbe

namespace Toml

/-- What is read at a cursor and the cursor behind it, or the fault that is met. -/
abbrev Reading (α : Type) := Cursor → Except ParseError (α × Cursor)

variable {α β : Type} {s front : Bytes}

/-- The outcome of a step, without the proof that less is left to read. -/
def outcome {c : Cursor} (r : Step c α) : Except ParseError (α × Cursor) := r.map Subtype.val

/-- Reads something, and goes on with what depends on it. -/
def Reading.andThen (read : Reading α) (next : α → Reading β) : Reading β := fun c =>
  match read c with
  | .error e => .error e
  | .ok (a, c') => next a c'

theorem Reading.andThen_of_error {read : Reading α} {c : Cursor} {e : ParseError}
    (next : α → Reading β) (h : read c = .error e) : read.andThen next c = .error e := by
  rw [Reading.andThen, h]

theorem Reading.andThen_of_ok {read : Reading α} {c c' : Cursor} {a : α} (next : α → Reading β)
    (h : read c = .ok (a, c')) : read.andThen next c = next a c' := by
  rw [Reading.andThen, h]

/-! ### What is skipped -/

/-- Something that is not to be skipped: no white space, line end or comment. -/
def BlankEnd (t : Bytes) : Prop :=
  ∃ b u, t = b :: u ∧ ¬(Cursor.isSpace b || Cursor.isLineEnd b) = true ∧ b ≠ Ascii.hash

theorem BlankEnd.blank {t : Bytes} (h : BlankEnd t) : Cursor.blank false t = [] := by
  obtain ⟨b, u, rfl, hblank, hhash⟩ := h
  rw [Cursor.blank, if_neg Bool.false_ne_true, if_neg hblank, if_neg hhash]

theorem blankEnd_cons {b : Byte}
    (hb : ¬(Cursor.isSpace b || Cursor.isLineEnd b) = true ∧ b ≠ Ascii.hash) (t : Bytes) :
    BlankEnd (b :: t) := ⟨b, t, rfl, hb⟩

theorem BlankEnd.of_head? {s t : Bytes} (hs : BlankEnd s) (h : t.head? = s.head?) : BlankEnd t := by
  obtain ⟨b, u, rfl, hb⟩ := hs
  obtain ⟨v, rfl⟩ := List.head?_eq_some_iff.mp h
  exact blankEnd_cons hb v

/-- What is done with a byte by which a text is skipped. -/
theorem blank_cons (inComment : Bool) (b : Byte) :
    (∃ inComment', ∀ s, Cursor.blank inComment (b :: s) = b :: Cursor.blank inComment' s) ∨
      inComment = false ∧ ∀ s, BlankEnd (b :: s) := by
  cases inComment with
  | true => exact Or.inl ⟨b != Ascii.lf, fun _ => rfl⟩
  | false =>
      by_cases hblank : (Cursor.isSpace b || Cursor.isLineEnd b) = true
      · refine Or.inl ⟨false, fun s => ?_⟩
        rw [Cursor.blank, if_neg Bool.false_ne_true, if_pos hblank]
      · by_cases hhash : b = Ascii.hash
        · refine Or.inl ⟨true, fun s => ?_⟩
          rw [Cursor.blank, if_neg Bool.false_ne_true, if_neg hblank, if_pos hhash]
        · exact Or.inr ⟨rfl, blankEnd_cons ⟨hblank, hhash⟩⟩

theorem blank_append_drop (inComment : Bool) (s : Bytes) :
    Cursor.blank inComment s ++ s.drop (Cursor.blank inComment s).length = s := by
  induction s generalizing inComment with
  | nil => rfl
  | cons b s ih =>
      rcases blank_cons inComment b with ⟨inComment', hskip⟩ | ⟨rfl, hend⟩
      · rw [hskip, List.length_cons, List.drop_succ_cons, List.cons_append, ih]
      · rw [(hend s).blank]
        rfl

/-- **Blanks are skipped whatever stands behind them**, if something does in the text. -/
theorem blank_append {s : Bytes} {inComment : Bool}
    (h : s.drop (Cursor.blank inComment s).length ≠ []) :
    BlankEnd (s.drop (Cursor.blank inComment s).length) ∧
      ∀ t, Cursor.blank inComment (Cursor.blank inComment s ++ t) =
        Cursor.blank inComment s ++ Cursor.blank false t := by
  induction s generalizing inComment with
  | nil => exact absurd rfl h
  | cons b s ih =>
      rcases blank_cons inComment b with ⟨inComment', hskip⟩ | ⟨rfl, hend⟩
      · rw [hskip, List.length_cons, List.drop_succ_cons] at h ⊢
        obtain ⟨hend, happend⟩ := ih h
        exact ⟨hend, fun t => by rw [List.cons_append, hskip, happend, List.cons_append]⟩
      · rw [(hend s).blank]
        exact ⟨hend s, fun _ => rfl⟩

/-- **Blanks up to the end of the text** are blanks before a line end, too. -/
theorem blank_append_lineFeed {s : Bytes} {inComment : Bool}
    (h : s.drop (Cursor.blank inComment s).length = []) (t : Bytes) :
    Cursor.blank inComment (s ++ Ascii.lf :: t) = s ++ Ascii.lf :: Cursor.blank false t := by
  induction s generalizing inComment with
  | nil => cases inComment <;> rfl
  | cons b s ih =>
      rcases blank_cons inComment b with ⟨inComment', hskip⟩ | ⟨rfl, hend⟩
      · rw [hskip, List.length_cons, List.drop_succ_cons] at h
        rw [List.cons_append, hskip, ih h, List.cons_append]
      · rw [(hend s).blank] at h
        cases h

/-- The blanks at a text. -/
def gap (s : Bytes) : Bytes := Cursor.blank false s

theorem gap_append (s : Bytes) : gap s ++ afterBlank s = s := blank_append_drop false s

theorem blankEnd_afterBlank (hs : afterBlank s ≠ []) : BlankEnd (afterBlank s) :=
  (blank_append hs).1

/-- **Behind blanks**, what is not to be skipped is not. -/
theorem skipBlank_gap (hs : afterBlank s ≠ []) {t : Bytes} (ht : BlankEnd t) (line : Nat) :
    Cursor.skipBlank ⟨gap s ++ t, line⟩ = ⟨t, line + (gap s).count Ascii.lf⟩ := by
  have hblank : Cursor.blank false (gap s ++ t) = gap s := by
    rw [gap, (blank_append hs).2, ht.blank, List.append_nil]
  rw [Cursor.skipBlank, hblank, Cursor.forward, List.drop_left]

/-- Behind blanks up to the end of the text, something may stand on the next line. -/
theorem skipBlank_newLine (hs : afterBlank s = []) {t : Bytes} (ht : BlankEnd t) (line : Nat) :
    Cursor.skipBlank ⟨s ++ Ascii.lf :: t, line⟩ = ⟨t, line + s.count Ascii.lf + 1⟩ := by
  have hblank : Cursor.blank false (s ++ Ascii.lf :: t) = s ++ [Ascii.lf] := by
    rw [blank_append_lineFeed hs, ht.blank]
  have hsplit : s ++ Ascii.lf :: t = s ++ [Ascii.lf] ++ t := by simp
  rw [Cursor.skipBlank, hblank, Cursor.forward, hsplit, List.drop_left, List.count_append,
    List.count_singleton_self, Nat.add_assoc line]

theorem skipBlank_of_nil (hs : afterBlank s = []) (line : Nat) :
    Cursor.skipBlank ⟨s, line⟩ = ⟨[], line + s.count Ascii.lf⟩ := by
  have hgap : gap s = s := by
    have happend := gap_append s
    rwa [hs, List.append_nil] at happend
  rw [Cursor.skipBlank, Cursor.forward, ← gap, hgap, List.drop_length]

theorem span_append {p : Byte → Bool} {t : Bytes} (hfront : ∀ b ∈ front, p b = true)
    (ht : ∀ b ∈ t.head?, p b = false) :
    (front ++ t).takeWhile p = front ∧ (front ++ t).dropWhile p = t := by
  rw [List.takeWhile_append_of_pos hfront, List.dropWhile_append_of_pos hfront]
  rcases t with - | ⟨b, t⟩
  · exact ⟨List.append_nil _, rfl⟩
  · have hb : ¬p b = true := by
      rw [ht b rfl]
      exact Bool.false_ne_true
    rw [List.takeWhile_cons_of_neg hb, List.dropWhile_cons_of_neg hb, List.append_nil]
    exact ⟨rfl, rfl⟩

theorem not_of_mem_head?_dropWhile {p : Byte → Bool} {b : Byte} (hb : b ∈ (s.dropWhile p).head?) :
    p b = false := by
  have h := List.head?_dropWhile_not p s
  rw [Option.mem_def.mp hb] at h
  simpa using h

theorem forall_head?_of_eq_some {p : Byte → Bool} {b : Byte} {t : Bytes} (h : t.head? = some b)
    (hb : p b = false) : ∀ b ∈ t.head?, p b = false :=
  fun _ hb' => Option.some.inj (h.symm.trans hb') ▸ hb

/-- What begins as a text that ends a stretch of bytes ends it as well. -/
theorem span_resumes {p : Byte → Bool} {t : Bytes}
    (ht : t.head? = (s.dropWhile p).head? ∨ ∀ b ∈ t.head?, p b = false) :
    (s.takeWhile p ++ t).takeWhile p = s.takeWhile p ∧ (s.takeWhile p ++ t).dropWhile p = t := by
  refine span_append (fun _ hb => List.mem_takeWhile_imp hb) ?_
  rcases ht with ht | ht
  · rw [ht]
    exact fun _ => not_of_mem_head?_dropWhile
  · exact ht

/-! ### Values -/

/-- Reads a value. -/
def readValue : Reading Node := fun c => outcome (value c)

/-- Reads the items of an array and its closing bracket, from behind the opening bracket or a
comma. -/
def readItems : Reading (List Node) := fun c => outcome (items c.skipBlank)

/-- Reads on behind an item. -/
def readMore (node : Node) : Reading (List Node) := fun c =>
  match c.skipBlank with
  | ⟨[], line⟩ => .error ⟨line, .expectedComma⟩
  | ⟨b :: s, line⟩ =>
    if b = Ascii.comma then (readItems ⟨s, line⟩).map (Prod.map (node :: ·) id)
    else if b = Ascii.closeBracket then .ok ([node], ⟨s, line⟩)
    else .error ⟨line, .expectedComma⟩

/-- Reads a value that is not an array and begins with a byte. -/
def readScalar (b : Byte) : Reading Node := fun c => outcome (scalar b c.rest c.line)

theorem length_lt_of_outcome {c c' : Cursor} {r : Step c α} {a : α}
    (h : outcome r = .ok (a, c')) : c'.rest.length < c.rest.length := by
  obtain ⟨⟨_, hlt⟩, -, rfl⟩ := ok_of_map h
  exact hlt

theorem readValue_nil (line : Nat) : readValue ⟨[], line⟩ = .error ⟨line, .invalidValue⟩ := by
  rw [readValue, value]
  rfl

theorem readValue_cons (b : Byte) (s : Bytes) (line : Nat) :
    readValue ⟨b :: s, line⟩ =
      if b = Ascii.openBracket then (readItems ⟨s, line⟩).map (Prod.map .array id)
      else readScalar b ⟨s, line⟩ := by
  rw [readValue, value]
  split_ifs
  · rw [readItems]
    cases items (Cursor.skipBlank ⟨s, line⟩) <;> rfl
  · rfl

theorem readScalar_string {b : Byte} (hb : (b = Ascii.quote || b = Ascii.apostrophe) = true)
    (s : Bytes) (line : Nat) :
    readScalar b ⟨s, line⟩ = (stringBody b line s).map (Prod.map .string id) := by
  rw [readScalar, scalar, if_pos hb]
  split <;> rename_i h <;> simp only [h] <;> rfl

/-- What a token stands for, given the cursor behind it, or that it stands for nothing. -/
def readToken (node : Option Node) (fault : Fault) : Reading Node := fun c =>
  match node with
  | some node => .ok (node, c)
  | none => .error ⟨c.line, fault⟩

theorem readScalar_word {b : Byte} (hb : (b = 0x74 || b = 0x66) = true) (s : Bytes) (line : Nat) :
    readScalar b ⟨s, line⟩ =
      readToken ((boolean? (b :: s.takeWhile Ascii.isAlpha)).map .boolean)
        (.invalidBoolean (b :: s.takeWhile Ascii.isAlpha)) ⟨s.dropWhile Ascii.isAlpha, line⟩ := by
  have hquote : ¬(b = Ascii.quote || b = Ascii.apostrophe) = true := by
    rcases (by simpa using hb : b = 0x74 ∨ b = 0x66) with rfl | rfl <;> decide
  rw [readScalar, scalar, if_neg hquote, if_pos hb]
  dsimp only
  split <;> rename_i h <;> rw [h] <;> rfl

theorem readScalar_number {b : Byte}
    (hb : (b = Ascii.plus || b = Ascii.minus || Ascii.isDigit b) = true) (s : Bytes) (line : Nat) :
    readScalar b ⟨s, line⟩ =
      readToken (number? (b :: (numeralBody b s).filter (· != Ascii.underscore)))
        (.invalidNumber (b :: (numeralBody b s).filter (· != Ascii.underscore)))
        ⟨s.drop (numeralBody b s).length, line⟩ := by
  have hne : ∀ b', (b' = Ascii.plus || b' = Ascii.minus || Ascii.isDigit b') = false → b ≠ b' := by
    rintro b' hb' rfl
    rw [hb] at hb'
    cases hb'
  have hquote : ¬(b = Ascii.quote || b = Ascii.apostrophe) = true := by
    simp [hne Ascii.quote (by decide), hne Ascii.apostrophe (by decide)]
  have hword : ¬(b = 0x74 || b = 0x66) = true := by
    simp [hne 0x74 (by decide), hne 0x66 (by decide)]
  rw [readScalar, scalar, if_neg hquote, if_neg hword, if_pos hb]
  dsimp only
  split <;> rename_i h <;> rw [h] <;> rfl

theorem readScalar_invalid {b : Byte}
    (hquote : ¬(b = Ascii.quote || b = Ascii.apostrophe) = true)
    (hword : ¬(b = 0x74 || b = 0x66) = true)
    (hnumber : ¬(b = Ascii.plus || b = Ascii.minus || Ascii.isDigit b) = true) (c : Cursor) :
    readScalar b c = .error ⟨c.line, .invalidValue⟩ := by
  rw [readScalar, scalar, if_neg hquote, if_neg hword, if_neg hnumber]
  rfl

theorem readMore_of_nil {c : Cursor} {line : Nat} (node : Node) (h : c.skipBlank = ⟨[], line⟩) :
    readMore node c = .error ⟨line, .expectedComma⟩ := by
  rw [readMore, h]

theorem readMore_of_cons {c : Cursor} {b : Byte} {s : Bytes} {line : Nat} (node : Node)
    (h : c.skipBlank = ⟨b :: s, line⟩) :
    readMore node c =
      if b = Ascii.comma then (readItems ⟨s, line⟩).map (Prod.map (node :: ·) id)
      else if b = Ascii.closeBracket then .ok ([node], ⟨s, line⟩)
      else .error ⟨line, .expectedComma⟩ := by
  rw [readMore, h]

theorem readItems_of_nil {c : Cursor} {line : Nat} (h : c.skipBlank = ⟨[], line⟩) :
    readItems c = .error ⟨line, .unterminatedArray⟩ := by
  rw [readItems, h, items]
  rfl

/-- **Items** are values with commas between them, and maybe one behind. -/
theorem readItems_of_cons {c : Cursor} {b : Byte} {s : Bytes} {line : Nat}
    (h : c.skipBlank = ⟨b :: s, line⟩) :
    readItems c =
      if b = Ascii.closeBracket then .ok ([], ⟨s, line⟩)
      else readValue.andThen readMore ⟨b :: s, line⟩ := by
  rw [readItems, h, items]
  split_ifs
  · rfl
  · rw [Reading.andThen, readValue]
    rcases value ⟨b :: s, line⟩ with e | ⟨⟨node, c₁⟩, hc₁⟩
    · rfl
    · change _ = readMore node c₁
      simp only
      split
      · rename_i line₂ hb
        exact (readMore_of_nil node hb).symm
      · rename_i b₂ s₂ line₂ hb
        rw [readMore_of_cons node hb]
        split_ifs
        · rw [readItems]
          cases items (Cursor.skipBlank ⟨s₂, line₂⟩) <;> rfl
        · rfl
        · rfl

/-! ### Statements -/

/-- Enters the section that a path names, given the cursor behind the closing bracket. -/
def State.enter (state : State) (path : Bytes) : Reading State := fun c =>
  if path = [] then .error ⟨c.line, .emptySection⟩
  else
    match state.table.openSection (Table.keysOf path) with
    | .error key => .error ⟨c.line, .notTable key path⟩
    | .ok table => .ok ({ path := Table.keysOf path, table }, c)

/-- Reads a section header from behind its opening bracket, and enters the section. -/
def readSection (state : State) : Reading State := fun c =>
  match (header c.rest c.line).map Subtype.val with
  | .error e => .error e
  | .ok (path, c') =>
    match state.table.openSection (Table.keysOf path) with
    | .error key => .error ⟨c'.line, .notTable key path⟩
    | .ok table => .ok ({ path := Table.keysOf path, table }, c')

theorem map_header (s : Bytes) (line : Nat) :
    (header s line).map Subtype.val =
      match s.dropWhile isInside with
      | [] => .error ⟨line, .unterminatedSection⟩
      | b :: rest =>
        if b = Ascii.closeBracket then
          if trim (s.takeWhile isInside) = [] then .error ⟨line, .emptySection⟩
          else .ok (trim (s.takeWhile isInside), ⟨rest, line⟩)
        else .error ⟨line + 1, .unterminatedSection⟩ := by
  rw [header]
  split
  · rename_i h
    have hs : s.dropWhile isInside = [] := h
    rw [hs]
    rfl
  · rename_i b rest h
    have hs : s.dropWhile isInside = b :: rest := h
    have hpath : trim (s.takeWhile fun b => b != Ascii.closeBracket && b != Ascii.lf) =
        trim (s.takeWhile isInside) := rfl
    simp only [hs, hpath, List.isEmpty_iff]
    split_ifs <;> rfl

/-- **A section header** ends with a closing bracket on its line. -/
theorem readSection_eq (state : State) (s : Bytes) (line : Nat) :
    readSection state ⟨s, line⟩ =
      match s.dropWhile isInside with
      | [] => .error ⟨line, .unterminatedSection⟩
      | b :: rest =>
        if b = Ascii.closeBracket then state.enter (trim (s.takeWhile isInside)) ⟨rest, line⟩
        else .error ⟨line + 1, .unterminatedSection⟩ := by
  rw [readSection, map_header]
  cases s.dropWhile isInside with
  | nil => rfl
  | cons b rest =>
      by_cases hb : b = Ascii.closeBracket
      · by_cases hpath : trim (s.takeWhile isInside) = []
        · simp only [hb, hpath, if_true, State.enter]
        · simp only [hb, hpath, if_true, if_false, State.enter]
      · simp only [hb, if_false]

/-- Reads on behind a key: the equals sign and the value. -/
def readAssigned (key : Bytes) : Reading (Bytes × Node) := fun c =>
  match c with
  | ⟨[], line⟩ => .error ⟨line, .expectedEquals key⟩
  | ⟨b :: s, line⟩ =>
    if b = Ascii.equals then (readValue (Cursor.skipSpaces ⟨s, line⟩)).map (Prod.map (key, ·) id)
    else .error ⟨Cursor.lineAfter line b, .expectedEquals key⟩

theorem readAssigned_cons (key : Bytes) (b : Byte) (s : Bytes) (line : Nat) :
    readAssigned key ⟨b :: s, line⟩ =
      if b = Ascii.equals then
        (readValue (Cursor.skipSpaces ⟨s, line⟩)).map (Prod.map (key, ·) id)
      else .error ⟨Cursor.lineAfter line b, .expectedEquals key⟩ := rfl

/-- Reads an assignment. -/
def readAssignment : Reading (Bytes × Node) := fun c => outcome (assignment c)

/-- **An assignment** is a key, and what stands behind it. -/
theorem readAssignment_eq (c : Cursor) :
    readAssignment c =
      if c.rest.takeWhile isKeyByte = [] then .error ⟨c.line, .expectedKey⟩
      else readAssigned (c.rest.takeWhile isKeyByte) (c.skipWhile isKeyByte).skipSpaces := by
  rw [readAssignment, assignment]
  simp only [List.isEmpty_iff]
  split_ifs
  · rfl
  · split
    · rename_i hc _
      rw [hc]
      rfl
    · rename_i b s line _ _ hc _
      rw [hc, readAssigned]
      split_ifs
      · rw [readValue]
        cases value (Cursor.skipSpaces ⟨s, line⟩) <;> rfl
      · rfl

/-- The state after an assignment. -/
def State.assigned (state : State) (entry : Bytes × Node) : State :=
  { state with table := state.table.assign state.path entry.1 entry.2 }

/-- Reads a statement, and takes it into account. -/
def readStatement (state : State) : Reading State := fun c => outcome (statement state c)

theorem readStatement_cons (state : State) (b : Byte) (s : Bytes) (line : Nat) :
    readStatement state ⟨b :: s, line⟩ =
      if b = Ascii.openBracket then readSection state ⟨s, line⟩
      else (readAssignment ⟨b :: s, line⟩).map (Prod.map state.assigned id) := by
  rw [readStatement, statement]
  split_ifs
  · rw [readSection]
    rcases header s line with e | ⟨⟨path, c'⟩, h⟩
    · rfl
    · simp only [Except.map]
      cases state.table.openSection (Table.keysOf path) <;> rfl
  · rw [readAssignment]
    rcases assignment ⟨b :: s, line⟩ with e | ⟨⟨⟨key, node⟩, c'⟩, h⟩ <;> rfl

/-! ### Documents -/

/-- The cursor at the end of the text. -/
def Cursor.atEnd (c : Cursor) : Cursor := ⟨[], c.line + c.rest.count Ascii.lf⟩

/-- Reads the statements that are left, from where a line may begin. -/
def readLines (state : State) : Reading Table := fun c =>
  (statements state c.skipBlank).map (·, c.atEnd)

/-- Reads what is left of a line behind a statement, and the statements on the lines below. -/
def readRest (state : State) : Reading Table := fun c =>
  match endOfLine c with
  | .error e => .error e
  | .ok c' => (statements state c'.1.skipBlank).map (·, c.atEnd)

theorem parse_eq (text : Bytes) : parse text = (readLines {} ⟨text, 1⟩).map Prod.fst := by
  rw [parse, readLines]
  cases statements {} (Cursor.skipBlank { rest := text }) <;> rfl

theorem readLines_of_nil {c : Cursor} (state : State) (h : afterBlank c.rest = []) :
    readLines state c = .ok (state.table, c.atEnd) := by
  have hempty : c.skipBlank.rest.isEmpty = true := by rw [rest_skipBlank, h]; rfl
  rw [readLines, statements, if_pos hempty]
  rfl

/-- **A document** is a statement and what is left behind it, if a statement does not change the
number of the last line. -/
theorem readLines_of_cons {c : Cursor} (state : State) (h : afterBlank c.rest ≠ [])
    (hline : ∀ state' c', readStatement state c.skipBlank = .ok (state', c') → c'.atEnd = c.atEnd) :
    readLines state c = (readStatement state).andThen readRest c.skipBlank := by
  have hempty : ¬c.skipBlank.rest.isEmpty = true := by
    rw [rest_skipBlank, List.isEmpty_iff]
    exact h
  rw [readLines, statements, if_neg hempty, Reading.andThen]
  rw [readStatement] at hline ⊢
  rcases hs : statement state c.skipBlank with e | ⟨⟨state', c₁⟩, h₁⟩
  · rfl
  · rw [hs] at hline
    simp only [outcome, Except.map, readRest]
    rw [← hline state' c₁ rfl]
    cases endOfLine c₁ <;> rfl

theorem Cursor.atEnd_forward {c : Cursor} {taken : Bytes} (h : taken <+: c.rest) :
    (c.forward taken).atEnd = c.atEnd := by
  obtain ⟨rest, hrest⟩ := h
  rw [Cursor.forward, Cursor.atEnd, Cursor.atEnd, ← hrest, List.drop_left, List.count_append,
    Nat.add_assoc]

theorem Cursor.atEnd_skipWhile (c : Cursor) (p : Byte → Bool) :
    (c.skipWhile p).atEnd = c.atEnd := Cursor.atEnd_forward (List.takeWhile_prefix p)

theorem Cursor.atEnd_skipBlank (c : Cursor) : c.skipBlank.atEnd = c.atEnd :=
  Cursor.atEnd_forward ⟨_, gap_append c.rest⟩

/-- Cursors with the same text left and the same end are at the same place. -/
theorem Cursor.eq_of_atEnd {c c' : Cursor} (hrest : c.rest = c'.rest) (hend : c.atEnd = c'.atEnd) :
    c = c' := by
  obtain ⟨s, line⟩ := c
  obtain ⟨s', line'⟩ := c'
  obtain rfl : s = s' := hrest
  have hline := congrArg Cursor.line hend
  simp only [Cursor.atEnd, Nat.add_right_cancel_iff] at hline
  rw [hline]

theorem atEnd_of_endOfLine {c : Cursor} {c' : { c' : Cursor // c'.rest.length ≤ c.rest.length }}
    (h : endOfLine c = .ok c') : c'.1.atEnd = c.atEnd := by
  rw [endOfLine] at h
  split_ifs at h
  cases h
  dsimp only
  rw [Cursor.skipComment]
  split_ifs
  · rw [Cursor.atEnd_skipWhile, Cursor.skipSpaces, Cursor.atEnd_skipWhile]
  · rw [Cursor.skipSpaces, Cursor.atEnd_skipWhile]

/-- **Behind a statement that ends its line**, the next lines are read. -/
theorem readRest_of_endsLine (state : State) {c : Cursor} (h : endsLine c.rest = true) :
    readRest state c = readLines state c := by
  have hend := lineEnd?_map_afterBlank c.rest
  rw [if_pos h, ← toOption_endOfLine] at hend
  rw [readRest]
  rcases hl : endOfLine c with e | c'
  · rw [hl] at hend
    cases hend
  · rw [hl] at hend
    have hblank : c'.1.skipBlank = c.skipBlank := by
      refine Cursor.eq_of_atEnd (Option.some.inj hend) ?_
      rw [Cursor.atEnd_skipBlank, Cursor.atEnd_skipBlank, atEnd_of_endOfLine hl]
    rw [readLines, ← hblank]

/-- **Behind a statement that does not end its line**, nothing is read. -/
theorem readRest_of_trailing (state : State) {b : Byte}
    (hfront : ∀ b ∈ front, Cursor.isSpace b = true) (hb : Cursor.isSpace b = false)
    (hends : (b == Ascii.hash || Cursor.isLineEnd b) = false) (line : Nat) :
    readRest state ⟨front ++ b :: s, line⟩ =
      .error ⟨line + front.count Ascii.lf, .trailing⟩ := by
  have hspan := span_append (t := b :: s) hfront (forall_head?_of_eq_some rfl hb)
  have hskip : Cursor.skipSpaces ⟨front ++ b :: s, line⟩ =
      ⟨b :: s, line + front.count Ascii.lf⟩ := by
    rw [Cursor.skipSpaces, Cursor.skipWhile, hspan.1, Cursor.forward, List.drop_left]
  rw [Bool.or_eq_false_iff, beq_eq_false_iff_ne] at hends
  have hcomment : Cursor.skipComment ⟨b :: s, line + front.count Ascii.lf⟩ =
      ⟨b :: s, line + front.count Ascii.lf⟩ := by
    rw [Cursor.skipComment, if_neg]
    simpa using hends.1
  rw [readRest, endOfLine]
  simp only [hskip, hcomment, List.head?_cons, Option.all_some, hends.2]
  rfl

end Toml

end DoctypeProbe
