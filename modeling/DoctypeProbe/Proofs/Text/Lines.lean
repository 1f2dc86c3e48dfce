import DoctypeProbe.Text.Lines

/-!
# Cutting a Text into Lines

`Lines.continuing` walks a text byte by byte. What reads lines in blocks, and what reasons
about a document line by line, needs larger steps: a stretch without terminators, a
terminator, a whole line together with its terminator.

## Main results

* `Lines.continuing_append`: a stretch without terminators is put in front of the first line
  of what follows.
* `Lines.continuing_terminator`: a terminator ends an empty line.
* `Lines.ofText_append`: a line and its terminator come off the front of a text.
* `Lines.inductionOn`: a text is nothing, an unterminated line, or a line with its
  terminator and a text after it.
-/

namespace DoctypeProbe

namespace Lines

/-- A stretch of text in front of lines: it belongs to the first of them, and is a line of
its own if there is none. -/
def extend (piece : Bytes) : List Bytes → List Bytes
  | [] => [piece]
  | line :: lines => (piece ++ line) :: lines

/-- A text without a terminator in it. -/
def Unbroken (s : Bytes) : Prop := ∀ b ∈ s, isTerminator b = false

theorem unbroken_nil : Unbroken [] := fun _ hb => nomatch hb

theorem Unbroken.tail {b : Byte} {s : Bytes} (h : Unbroken (b :: s)) : Unbroken s :=
  fun x hx => h x (List.mem_cons_of_mem b hx)

theorem isTerminator_iff {b : Byte} : isTerminator b = true ↔ b = Ascii.lf ∨ b = Ascii.cr := by
  simp [isTerminator]

theorem isTerminator_eq_false_iff {b : Byte} :
    isTerminator b = false ↔ b ≠ Ascii.lf ∧ b ≠ Ascii.cr := by
  simp [isTerminator]

/-! ### One step -/

/-- A byte that ends no line is put in front of the first line of what follows. -/
theorem continuing_cons {b : Byte} (h : isTerminator b = false) (afterReturn : Bool)
    (s : Bytes) : continuing afterReturn (b :: s) = extend [b] (continuing false s) := by
  obtain ⟨hlf, hcr⟩ := isTerminator_eq_false_iff.mp h
  rw [continuing, if_neg hlf, if_neg hcr]
  cases continuing false s <;> rfl

theorem extend_extend (p q : Bytes) (lines : List Bytes) :
    extend p (extend q lines) = extend (p ++ q) lines := by
  cases lines <;> simp [extend]

/-- **A stretch without terminators** is put in front of the first line of what follows. -/
theorem continuing_append {piece : Bytes} (hp : Unbroken piece) (hne : piece ≠ [])
    (afterReturn : Bool) (s : Bytes) :
    continuing afterReturn (piece ++ s) = extend piece (continuing false s) := by
  induction piece generalizing afterReturn with
  | nil => exact absurd rfl hne
  | cons b piece ih =>
      have hb : isTerminator b = false := hp b List.mem_cons_self
      rw [List.cons_append, continuing_cons hb]
      rcases piece with - | ⟨c, piece⟩
      · rfl
      · rw [ih hp.tail (by simp), extend_extend]
        rfl

/-- **A terminator** ends an empty line, unless it is the line feed that belongs to the
carriage return before. -/
theorem continuing_terminator {afterReturn : Bool} {t : Byte} (ht : isTerminator t = true)
    (hs : (afterReturn && t == Ascii.lf) = false) (s : Bytes) :
    continuing afterReturn (t :: s) = [] :: continuing (t == Ascii.cr) s := by
  rcases isTerminator_iff.mp ht with rfl | rfl
  · obtain rfl : afterReturn = false := by simpa using hs
    rfl
  · rfl

/-- The line feed that belongs to the carriage return before ends no line. -/
theorem continuing_lineFeed (s : Bytes) : continuing true (Ascii.lf :: s) = continuing false s :=
  rfl

/-- Whether a carriage return came before only matters to a line feed in front. -/
theorem continuing_true {s : Bytes} (h : s.head? ≠ some Ascii.lf) :
    continuing true s = continuing false s := by
  cases s with
  | nil => rfl
  | cons b s =>
      have hb : b ≠ Ascii.lf := by simpa using h
      rw [continuing, continuing, if_neg hb, if_neg hb]

/-- **A stretch and the terminator after it** are a line of their own. -/
theorem continuing_append_terminator {piece : Bytes} (hp : Unbroken piece) {afterReturn : Bool}
    {t : Byte} (ht : isTerminator t = true)
    (hs : piece = [] → (afterReturn && t == Ascii.lf) = false) (s : Bytes) :
    continuing afterReturn (piece ++ t :: s) = piece :: continuing (t == Ascii.cr) s := by
  by_cases hne : piece = []
  · subst hne
    exact continuing_terminator ht (hs rfl) s
  · rw [continuing_append hp hne, continuing_terminator ht rfl]
    simp [extend]

/-! ### Whole lines -/

/-- What ends a line, with the text that follows: a line feed, the two bytes of a return and
a line feed, or a return that no line feed follows. -/
inductive Break : Bytes → Bytes → Prop
  | lineFeed (rest : Bytes) : Break [Ascii.lf] rest
  | returnLineFeed (rest : Bytes) : Break [Ascii.cr, Ascii.lf] rest
  | ret {rest : Bytes} : rest.head? ≠ some Ascii.lf → Break [Ascii.cr] rest

/-- **A line and its terminator** come off the front of a text. -/
theorem ofText_append {line brk rest : Bytes} (hl : Unbroken line) (hb : Break brk rest) :
    ofText (line ++ brk ++ rest) = line :: ofText rest := by
  rw [ofText, List.append_assoc]
  cases hb with
  | lineFeed =>
      exact continuing_append_terminator hl (by decide) (fun _ => rfl) rest
  | returnLineFeed =>
      exact continuing_append_terminator hl (by decide) (fun _ => rfl) (Ascii.lf :: rest)
  | ret hr =>
      rw [List.singleton_append, continuing_append_terminator hl (by decide) (fun _ => rfl)]
      exact congrArg (line :: ·) (continuing_true hr)

/-- A text without terminators is one line, unless it is empty. -/
theorem ofText_unbroken {line : Bytes} (hl : Unbroken line) (hne : line ≠ []) :
    ofText line = [line] := by
  have h := continuing_append hl hne false []
  rwa [List.append_nil] at h

/-- The front of a text up to its first terminator has none. -/
theorem unbroken_takeWhile (s : Bytes) : Unbroken (s.takeWhile (!isTerminator ·)) := by
  intro b hb
  simpa using List.all_eq_true.mp (List.all_takeWhile (p := (!isTerminator ·))) b hb

/-- A text in which no terminator is found is all front. -/
theorem takeWhile_eq_of_dropWhile_eq_nil {s : Bytes}
    (h : s.dropWhile (!isTerminator ·) = []) :
    s.takeWhile (!isTerminator ·) = s ∧ Unbroken s := by
  have hs := List.takeWhile_append_dropWhile (p := (!isTerminator ·)) (l := s)
  rw [h, List.append_nil] at hs
  exact ⟨hs, hs ▸ unbroken_takeWhile s⟩

/-- A text in which a terminator is found is its front, the terminator, and the rest. -/
theorem takeWhile_of_dropWhile_eq_cons {s rest : Bytes} {t : Byte}
    (h : s.dropWhile (!isTerminator ·) = t :: rest) :
    s = s.takeWhile (!isTerminator ·) ++ t :: rest ∧
      Unbroken (s.takeWhile (!isTerminator ·)) ∧ isTerminator t = true := by
  refine ⟨?_, unbroken_takeWhile s, ?_⟩
  · rw [← h]
    exact List.takeWhile_append_dropWhile.symm
  · have ht := List.head?_dropWhile_not (!isTerminator ·) s
    simpa [h] using ht

/-- A text that begins with a terminator begins with all of what ends a line. -/
theorem exists_break {t : Byte} (ht : isTerminator t = true) (s : Bytes) :
    ∃ brk rest, t :: s = brk ++ rest ∧ Break brk rest := by
  rcases isTerminator_iff.mp ht with rfl | rfl
  · exact ⟨[Ascii.lf], s, rfl, .lineFeed s⟩
  · by_cases h : s.head? = some Ascii.lf
    · obtain ⟨rest, rfl⟩ : ∃ rest, s = Ascii.lf :: rest := by
        cases s <;> simp_all
      exact ⟨[Ascii.cr, Ascii.lf], rest, rfl, .returnLineFeed rest⟩
    · exact ⟨[Ascii.cr], s, rfl, .ret h⟩

theorem Break.isTerminator {brk rest : Bytes} (h : Break brk rest) :
    ∀ b ∈ brk, isTerminator b = true := by
  cases h <;> simp [isTerminator_iff]

/-- What ends a line is in front of the text after the line. -/
theorem Break.isTerminator_head? {brk rest : Bytes} (h : Break brk rest) :
    ∀ b ∈ (brk ++ rest).head?, Lines.isTerminator b = true := by
  intro b hb
  cases h <;> · cases hb; decide

/-- Whether these bytes end a line depends on nothing behind the next one. -/
theorem Break.of_append {brk s t : Bytes} (h : Break brk (s ++ t)) : Break brk s := by
  cases h with
  | lineFeed => exact .lineFeed s
  | returnLineFeed => exact .returnLineFeed s
  | ret hr =>
      refine .ret fun hs => hr ?_
      rw [List.head?_append, hs]
      rfl

theorem Break.length_pos {brk rest : Bytes} (h : Break brk rest) : 0 < brk.length := by
  cases h <;> simp

/-- **Induction along the lines of a text.** -/
theorem inductionOn {P : Bytes → Prop} (s : Bytes) (nil : P [])
    (last : ∀ line, line ≠ [] → Unbroken line → P line)
    (line : ∀ line brk rest, Unbroken line → Break brk rest → P rest → P (line ++ brk ++ rest)) :
    P s := by
  cases hd : s.dropWhile (!isTerminator ·) with
  | nil =>
      obtain ⟨-, hs⟩ := takeWhile_eq_of_dropWhile_eq_nil hd
      by_cases hne : s = []
      · exact hne ▸ nil
      · exact last s hne hs
  | cons t r =>
      obtain ⟨hs, hl, ht⟩ := takeWhile_of_dropWhile_eq_cons hd
      obtain ⟨brk, rest, he, hb⟩ := exists_break ht r
      have hpos := hb.length_pos
      rw [hs, he, ← List.append_assoc]
      exact line _ brk rest hl hb (inductionOn rest nil last line)
termination_by s.length
decreasing_by
  have h := congrArg List.length (he ▸ hs)
  simp only [List.length_append] at h
  omega

/-- A text that is not empty has a line. -/
theorem length_ofText_pos {s : Bytes} (h : s ≠ []) : 0 < (ofText s).length := by
  induction s using inductionOn with
  | nil => exact absurd rfl h
  | last line hne hl =>
      rw [ofText_unbroken hl hne]
      exact Nat.one_pos
  | line line brk rest hl hb _ =>
      rw [ofText_append hl hb]
      exact Nat.succ_pos _

end Lines

end DoctypeProbe
