import DoctypeProbe.Proofs.Text.Lines
import Mathlib.Data.List.DropRight

/-!
# The Lines of a Text in Parts

`Lines.ofText` gives the lines of a whole text. A reader has a text in parts, one after the
other, and a part may end anywhere: within a line, or between the two bytes of a terminator.
This module says what the lines of a part are worth to the whole.

Only terminated lines are final. A text without its unterminated end is `Lines.finished`, and
the lines of this are lines of every text that goes on from there. What comes behind it is cut
as a text of its own, except that a line feed in front may belong to a carriage return at the
end of the part before (`Lines.resume`).

## Main results

* `Lines.segmented_iff`: the lines of a text, said without walking through it.
* `Lines.ofText_append_of_complete`: the lines of a text whose first part is complete.
* `Lines.ofText_finished_append`: terminated lines are lines of every text that goes on.
-/

namespace DoctypeProbe

namespace Lines

/-! ### The segments of a text -/

/-- A text is cut into segments: nothing into none, an unterminated text into itself, and a
line with its terminator in front of a text into the line and the segments of the text. -/
inductive Segmented : Bytes → List Bytes → Prop
  | nil : Segmented [] []
  | last {line : Bytes} : line ≠ [] → Unbroken line → Segmented line [line]
  | line {line brk rest : Bytes} {lines : List Bytes} :
      Unbroken line → Break brk rest → Segmented rest lines →
        Segmented (line ++ brk ++ rest) (line :: lines)

/-- **The lines of a text** are its segments, and there is one way to cut it. -/
theorem segmented_iff {s : Bytes} {lines : List Bytes} : Segmented s lines ↔ lines = ofText s := by
  constructor
  · intro h
    induction h with
    | nil => rfl
    | last hne hl => exact (ofText_unbroken hl hne).symm
    | line hl hb _ ih => rw [ofText_append hl hb, ih]
  · rintro rfl
    induction s using inductionOn with
    | nil => exact .nil
    | last line hne hl =>
        rw [ofText_unbroken hl hne]
        exact .last hne hl
    | line line brk rest hl hb ih =>
        rw [ofText_append hl hb]
        exact .line hl hb ih

/-! ### Behind a carriage return -/

/-- What is left of a text if a carriage return stands before it: a line feed in front belongs
to that terminator. -/
def resume (afterReturn : Bool) : Bytes → Bytes
  | [] => []
  | b :: s => if afterReturn ∧ b = Ascii.lf then s else b :: s

@[simp] theorem resume_nil (afterReturn : Bool) : resume afterReturn [] = [] := rfl

@[simp] theorem resume_false (s : Bytes) : resume false s = s := by cases s <;> simp [resume]

@[simp] theorem resume_lineFeed (s : Bytes) : resume true (Ascii.lf :: s) = s := by simp [resume]

/-- Either nothing is taken away, or the line feed of a terminator. -/
theorem resume_cases (afterReturn : Bool) (s : Bytes) :
    (resume afterReturn s = s ∧ (afterReturn = true → s.head? ≠ some Ascii.lf)) ∨
      (afterReturn = true ∧ s = Ascii.lf :: resume afterReturn s) := by
  rcases s with - | ⟨b, s⟩
  · exact Or.inl ⟨rfl, by simp⟩
  · by_cases h : afterReturn = true ∧ b = Ascii.lf
    · obtain ⟨rfl, rfl⟩ := h
      exact Or.inr ⟨rfl, by rw [resume_lineFeed]⟩
    · exact Or.inl ⟨if_neg h, fun har hb => h ⟨har, Option.some.inj hb⟩⟩

theorem resume_of_head? {afterReturn : Bool} {s : Bytes}
    (h : afterReturn = true → s.head? ≠ some Ascii.lf) : resume afterReturn s = s := by
  rcases resume_cases afterReturn s with ⟨hs, -⟩ | ⟨har, hs⟩
  · exact hs
  · exact absurd (by rw [hs]; rfl) (h har)

theorem resume_append {afterReturn : Bool} {s : Bytes} (h : s ≠ []) (t : Bytes) :
    resume afterReturn (s ++ t) = resume afterReturn s ++ t := by
  obtain ⟨b, s, rfl⟩ := List.exists_cons_of_ne_nil h
  rw [List.cons_append, resume, resume]
  split <;> rfl

theorem resume_suffix (afterReturn : Bool) (s : Bytes) : resume afterReturn s <:+ s := by
  rcases resume_cases afterReturn s with ⟨h, -⟩ | ⟨-, h⟩
  · exact h.symm ▸ List.suffix_refl s
  · conv => rhs; rw [h]
    exact List.suffix_cons _ _

theorem continuing_eq_ofText (afterReturn : Bool) (s : Bytes) :
    continuing afterReturn s = ofText (resume afterReturn s) := by
  rcases resume_cases afterReturn s with ⟨h, hs⟩ | ⟨rfl, h⟩
  · rw [h]
    cases afterReturn with
    | false => rfl
    | true => exact continuing_true (hs rfl)
  · conv => lhs; rw [h]
    exact continuing_lineFeed _

@[simp] theorem lineFeed_beq_return : (Ascii.lf == Ascii.cr) = false := rfl

/-- A terminator and what it takes of the text behind it are all of what ends a line. -/
theorem exists_break_resume {t : Byte} (ht : isTerminator t = true) (s : Bytes) :
    ∃ brk, t :: s = brk ++ resume (t == Ascii.cr) s ∧ Break brk (resume (t == Ascii.cr) s) := by
  rcases isTerminator_iff.mp ht with rfl | rfl
  · rw [lineFeed_beq_return, resume_false]
    exact ⟨[Ascii.lf], rfl, .lineFeed s⟩
  · rw [beq_self_eq_true]
    rcases resume_cases true s with ⟨h, hs⟩ | ⟨-, h⟩
    · exact ⟨[Ascii.cr], by rw [h]; rfl, .ret (h.symm ▸ hs rfl)⟩
    · exact ⟨[Ascii.cr, Ascii.lf], congrArg (Ascii.cr :: ·) h, .returnLineFeed _⟩

/-- A line up to its terminator, with the text behind it. -/
theorem ofText_append_terminator {line : Bytes} (hl : Unbroken line) {t : Byte}
    (ht : isTerminator t = true) (s : Bytes) :
    ofText (line ++ t :: s) = line :: ofText (resume (t == Ascii.cr) s) := by
  rw [← continuing_eq_ofText]
  exact continuing_append_terminator hl ht (fun _ => rfl) s

/-! ### Complete texts -/

/-- A text of complete lines: it is empty, or ends in a terminator. -/
def Complete (s : Bytes) : Prop := ∀ b ∈ s.getLast?, isTerminator b = true

instance (s : Bytes) : Decidable (Complete s) := Option.decidableForallMem s.getLast?

theorem Complete.of_append {s t : Bytes} (h : Complete (s ++ t)) : Complete t := by
  intro b hb
  refine h b ?_
  rw [List.getLast?_append, hb]
  rfl

theorem not_complete_of_unbroken {s : Bytes} (hs : Unbroken s) (hne : s ≠ []) : ¬ Complete s := by
  intro h
  have ht := h _ (List.getLast?_eq_some_getLast hne)
  rw [hs _ (List.getLast_mem hne)] at ht
  cases ht

/-- What ends a line still does if the text behind goes on. -/
theorem Break.append {brk s t : Bytes} (h : Break brk s)
    (ht : s = [] → t.head? ≠ some Ascii.lf) : Break brk (s ++ t) := by
  cases h with
  | lineFeed => exact .lineFeed _
  | returnLineFeed => exact .returnLineFeed _
  | ret hs =>
      refine .ret ?_
      rcases s with - | ⟨b, s⟩
      · exact ht rfl
      · exact hs

/-- What ends a line at the end of a part. -/
theorem ofText_append_break {line brk : Bytes} (hl : Unbroken line) (hb : Break brk [])
    (t : Bytes) :
    ofText (line ++ brk ++ t) = line :: ofText (resume (brk.getLast? == some Ascii.cr) t) := by
  cases hb with
  | lineFeed => simpa using ofText_append hl (.lineFeed t)
  | returnLineFeed => simpa using ofText_append hl (.returnLineFeed t)
  | ret =>
      rw [List.append_assoc]
      exact ofText_append_terminator hl (by decide) t

/-- **A complete text in front** keeps its lines, and the rest is cut as a text of its own,
but for the line feed that its last carriage return may take. -/
theorem ofText_append_of_complete {s : Bytes} (h : Complete s) (t : Bytes) :
    ofText (s ++ t) = ofText s ++ ofText (resume (s.getLast? == some Ascii.cr) t) := by
  induction s using inductionOn with
  | nil => simp [ofText, continuing]
  | last line hne hl => exact absurd h (not_complete_of_unbroken hl hne)
  | line line brk rest hl hb ih =>
      rw [ofText_append hl hb, List.getLast?_append, List.cons_append]
      by_cases hr : rest = []
      · subst hr
        have hlast : (line ++ brk).getLast? = brk.getLast? := by
          cases hb <;> simp [List.getLast?_append]
        rw [List.append_nil, ofText_append_break hl hb, hlast]
        rfl
      · rw [List.append_assoc _ rest t, ofText_append hl (hb.append fun h => absurd h hr),
          ih h.of_append, List.getLast?_eq_some_getLast hr]
        rfl

/-! ### Terminated lines -/

/-- A text up to its last terminator, without an unterminated end. -/
def finished (s : Bytes) : Bytes := s.rdropWhile (!isTerminator ·)

theorem complete_finished (s : Bytes) : Complete (finished s) := by
  intro b hb
  have hne : finished s ≠ [] := fun h => by simp [h] at hb
  have ht := List.rdropWhile_last_not (!isTerminator ·) s hne
  rw [List.getLast?_eq_some_getLast hne] at hb
  cases hb
  simpa [finished] using ht

theorem finished_of_unbroken {s : Bytes} (hs : Unbroken s) : finished s = [] :=
  List.rdropWhile_eq_nil_iff.mpr fun b hb => by rw [hs b hb]; rfl

/-- What stands before a terminator is finished. -/
theorem finished_append_terminator {t : Byte} (ht : isTerminator t = true) (s rest : Bytes) :
    finished (s ++ t :: rest) = s ++ t :: finished rest := by
  have hd : (t :: s.reverse).dropWhile (!isTerminator ·) = t :: s.reverse := by
    rw [List.dropWhile_cons, ht]
    rfl
  simp only [finished, List.rdropWhile, List.reverse_append, List.reverse_cons, List.append_assoc,
    List.singleton_append, List.dropWhile_append, hd]
  split <;> simp_all

/-- The unterminated end of a text, from its last terminator on. -/
theorem exists_finished_append (s : Bytes) : ∃ tail, s = finished s ++ tail := by
  obtain ⟨tail, h⟩ := List.rdropWhile_prefix (!isTerminator ·) s
  exact ⟨tail, h.symm⟩

/-- **Terminated lines** are lines of every text that goes on from there. -/
theorem ofText_finished_append (s t : Bytes) :
    ∃ lines, ofText (s ++ t) = ofText (finished s) ++ lines := by
  obtain ⟨tail, h⟩ := exists_finished_append s
  have ht : s ++ t = finished s ++ (tail ++ t) := by rw [← List.append_assoc, ← h]
  exact ⟨_, ht ▸ ofText_append_of_complete (complete_finished s) (tail ++ t)⟩

/-- A line feed that belongs to a terminator before may be taken away first. -/
theorem finished_resume (afterReturn : Bool) (s : Bytes) :
    finished (resume afterReturn s) = resume afterReturn (finished s) := by
  rcases resume_cases afterReturn s with ⟨h, hs⟩ | ⟨rfl, h⟩
  · rw [h]
    refine (resume_of_head? fun har hf => hs har ?_).symm
    obtain ⟨tail, ht⟩ := exists_finished_append s
    rw [ht, List.head?_append, hf]
    rfl
  · have hf := finished_append_terminator (t := Ascii.lf) rfl [] (resume true s)
    rw [List.nil_append, List.nil_append, ← h] at hf
    rw [hf, resume_lineFeed]

end Lines

end DoctypeProbe
