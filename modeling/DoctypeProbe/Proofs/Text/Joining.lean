import DoctypeProbe.Proofs.Text.Document
import Mathlib.Data.List.Chain

/-!
# Joining Lines

Lines are joined into a text by putting a terminator behind each of them. Reading the text gives
the lines back, whichever terminators were put there, with one exception: behind a line that ends
in a return, an empty line that ends in a line feed is lost, for its line feed is taken for the
second byte of a terminator of two.

The proof follows the rows of the joined text with the one bit that a reader keeps between them,
whether a return came last. `kept` tells which rows are left; all of them are, exactly if no row
is lost as above.

## Main results

* `Lines.continuing_joined`: the lines of a joined text are those of the rows that are left.
* `Lines.kept_eq_self_iff`: when all rows are left.
* `LineReader.outcome_joined_iff`: when reading undoes joining.
-/

namespace DoctypeProbe

namespace Lines

/-! ### Joined lines -/

/-- What can be put behind a line to end it. -/
inductive Terminator where
  /-- A line feed. -/
  | lineFeed
  /-- A return. -/
  | ret
  /-- A return and a line feed. -/
  | returnLineFeed
deriving DecidableEq

/-- The bytes of a terminator. -/
def Terminator.bytes : Terminator → Bytes
  | lineFeed => [Ascii.lf]
  | ret => [Ascii.cr]
  | returnLineFeed => [Ascii.cr, Ascii.lf]

/-- A line and what is put behind it. -/
structure Row where
  /-- The line. -/
  line : Bytes
  /-- What ends it. -/
  terminator : Terminator
  /-- No terminator is in the line itself. -/
  unbroken : Unbroken line

/-- A row that is joined into a line feed and nothing else. -/
def Row.IsLineFeed (row : Row) : Prop := row.line = [] ∧ row.terminator = .lineFeed

instance (row : Row) : Decidable row.IsLineFeed :=
  inferInstanceAs (Decidable (row.line = [] ∧ row.terminator = .lineFeed))

/-- The text of rows, with a line behind them that has no terminator. An empty `last` is no
line. -/
def joined (rows : List Row) (last : Bytes) : Bytes :=
  rows.flatMap (fun row => row.line ++ row.terminator.bytes) ++ last

/-- The lines that are joined in a text. -/
def linesOf (rows : List Row) (last : Bytes) : List Bytes :=
  rows.map Row.line ++ (LineReader.unterminated last).toList

theorem joined_cons (row : Row) (rows : List Row) (last : Bytes) :
    joined (row :: rows) last = row.line ++ row.terminator.bytes ++ joined rows last := by
  rw [joined, joined, List.flatMap_cons, List.append_assoc]

/-- Where a row is lost, no reader could tell: another row makes the same text. -/
example : joined [⟨[], .ret, unbroken_nil⟩, ⟨[], .lineFeed, unbroken_nil⟩] [] =
    joined [⟨[], .returnLineFeed, unbroken_nil⟩] [] := rfl

theorem linesOf_cons (row : Row) (rows : List Row) (last : Bytes) :
    linesOf (row :: rows) last = row.line :: linesOf rows last := rfl

theorem length_linesOf (rows : List Row) (last : Bytes) :
    (linesOf rows last).length = rows.length + (LineReader.unterminated last).toList.length := by
  rw [linesOf, List.length_append, List.length_map]

/-! ### Rows that are left -/

/-- The rows that are left of a joined text that may stand behind a return. -/
def kept (afterReturn : Bool) : List Row → List Row
  | [] => []
  | row :: rows =>
    if afterReturn = true ∧ row.IsLineFeed then kept false rows
    else row :: kept (row.terminator == .ret) rows

/-- **A row in front of a text** ends a line, unless it is a line feed that belongs to the return
before it. -/
theorem continuing_row (afterReturn : Bool) (row : Row) (s : Bytes) :
    continuing afterReturn (row.line ++ row.terminator.bytes ++ s) =
      if afterReturn = true ∧ row.IsLineFeed then continuing false s
      else row.line :: continuing (row.terminator == .ret) s := by
  obtain ⟨line, terminator, hline⟩ := row
  rw [List.append_assoc]
  cases terminator with
  | lineFeed =>
      by_cases h : afterReturn = true ∧ line = []
      · obtain ⟨rfl, rfl⟩ := h
        rfl
      · rw [if_neg fun hlost => h ⟨hlost.1, hlost.2.1⟩]
        refine continuing_append_terminator hline (by decide) (fun hnil => ?_) s
        rw [Bool.eq_false_iff.mpr fun har => h ⟨har, hnil⟩, Bool.false_and]
  | ret =>
      rw [if_neg fun hlost => Terminator.noConfusion hlost.2.2]
      exact continuing_append_terminator hline (by decide) (fun _ => Bool.and_false _) s
  | returnLineFeed =>
      rw [if_neg fun hlost => Terminator.noConfusion hlost.2.2]
      -- the return ends the line, and the line feed behind it belongs to it
      exact continuing_append_terminator hline (by decide) (fun _ => Bool.and_false _)
        (Ascii.lf :: s)

/-- A line without a terminator is the one line of its text, if it is not empty. -/
theorem continuing_unbroken {last : Bytes} (h : Unbroken last) (afterReturn : Bool) :
    continuing afterReturn last = (LineReader.unterminated last).toList := by
  by_cases hne : last = []
  · subst hne
    rfl
  · have hlast := continuing_append h hne afterReturn []
    rw [List.append_nil] at hlast
    rw [hlast, LineReader.unterminated, if_neg (by simpa using hne)]
    rfl

/-- **The lines of a joined text** are those of the rows that are left, and the last one. -/
theorem continuing_joined {last : Bytes} (h : Unbroken last) (afterReturn : Bool)
    (rows : List Row) :
    continuing afterReturn (joined rows last) = linesOf (kept afterReturn rows) last := by
  induction rows generalizing afterReturn with
  | nil => exact continuing_unbroken h afterReturn
  | cons row rows ih =>
      rw [joined_cons, continuing_row, kept, ih, ih]
      split
      · rfl
      · rw [linesOf_cons]

/-- Rows are only ever lost. -/
theorem kept_sublist (afterReturn : Bool) (rows : List Row) :
    (kept afterReturn rows).Sublist rows := by
  induction rows generalizing afterReturn with
  | nil => exact .slnil
  | cons row rows ih =>
      rw [kept]
      split
      · exact .cons row (ih false)
      · exact .cons_cons row (ih _)

/-- Rows of which none is lost: no row that ends in a return stands before an empty one that ends
in a line feed. -/
def Unambiguous (rows : List Row) : Prop :=
  rows.IsChain fun row next => ¬(row.terminator = .ret ∧ next.IsLineFeed)

/-- **All rows are left** exactly if none of them is lost to the row before it, and the first is
not lost to what stands before all of them. -/
theorem kept_eq_self_iff (afterReturn : Bool) (rows : List Row) :
    kept afterReturn rows = rows ↔
      (∀ row ∈ rows.head?, ¬(afterReturn = true ∧ row.IsLineFeed)) ∧ Unambiguous rows := by
  induction rows generalizing afterReturn with
  | nil => simp [kept, Unambiguous]
  | cons row rows ih =>
      rw [kept, List.head?_cons]
      split
      · rename_i hlost
        refine iff_of_false (fun heq => ?_) fun h => h.1 row rfl hlost
        have hle := (kept_sublist false rows).length_le
        rw [heq, List.length_cons] at hle
        omega
      · rename_i hkept
        rw [List.cons_inj_right, ih, Unambiguous, Unambiguous, List.isChain_cons]
        simp only [Option.mem_some_iff, forall_eq', hkept, not_false_eq_true, true_and, beq_iff_eq]

end Lines

namespace LineReader

open Lines

variable {σ : Type} [InputSource σ]

/-- What a reader answers about joined lines: the rows that are left, each decoded. -/
theorem outcome_joined {s : σ} {rows : List Row} {last : Bytes} (hlast : Unbroken last)
    (h : Delivers s (joined rows last)) (charset : Charset) (bufferSize k : Nat) :
    (LineReader.over s charset bufferSize).outcome k =
      (linesOf (kept false rows) last)[k]?.elim (.ok none) (decoded charset) := by
  rw [(ahead_over h charset bufferSize).outcome k, ofText, continuing_joined hlast]
  rfl

theorem decoded_ne_none (charset : Charset) (raw : Bytes) : decoded charset raw ≠ .ok none := by
  intro h
  obtain ⟨text, -, htext⟩ := decoded_eq_ok_iff.mp h
  cases htext

/-- **Reading undoes joining**, with one exception. Over a source that delivers joined lines, with
any terminators behind them and with or without one behind the last, a reader of any block size
answers these lines, decoded and in order, and then that there are no more, exactly if no line
that ends in a return stands before an empty line that ends in a line feed. -/
theorem outcome_joined_iff {s : σ} {rows : List Row} {last : Bytes} (hlast : Unbroken last)
    (h : Delivers s (joined rows last)) (charset : Charset) (bufferSize : Nat) :
    (∀ k, (LineReader.over s charset bufferSize).outcome k =
      (linesOf rows last)[k]?.elim (.ok none) (decoded charset)) ↔ Unambiguous rows := by
  have hall : Unambiguous rows ↔ kept false rows = rows := by
    rw [kept_eq_self_iff]
    simp
  rw [hall]
  constructor
  · intro hlines
    -- the call behind the rows that are left finds no line, so there is no more to find
    have hend := hlines (linesOf (kept false rows) last).length
    rw [outcome_joined hlast h, List.getElem?_eq_none (Nat.le_refl _)] at hend
    have hle : (linesOf rows last).length ≤ (linesOf (kept false rows) last).length := by
      by_contra hlt
      rw [List.getElem?_eq_getElem (Nat.lt_of_not_le hlt)] at hend
      exact decoded_ne_none charset _ hend.symm
    rw [length_linesOf, length_linesOf] at hle
    exact (kept_sublist false rows).eq_of_length_le (by omega)
  · intro hkept k
    rw [outcome_joined hlast h, hkept]

/-- Rows with every terminator, empty lines among them. In blocks of two bytes, the first return
and its line feed are apart. -/
def joinedSample : List Row :=
  [⟨ascii "a", .returnLineFeed, by unfold Unbroken; decide +kernel⟩, ⟨[], .lineFeed, unbroken_nil⟩,
    ⟨ascii "b", .ret, by unfold Unbroken; decide +kernel⟩, ⟨[], .returnLineFeed, unbroken_nil⟩]

theorem outcome_joinedSample :
    let source : MemorySource := { rest := joined joinedSample (ascii "c") }
    let r := LineReader.over source .utf8 2
    Unbroken (ascii "c") ∧ Delivers source (joined joinedSample (ascii "c")) ∧
      Unambiguous joinedSample ∧
      r.outcome 0 = .ok (some (ascii "a")) ∧ r.outcome 1 = .ok (some []) ∧
      r.outcome 3 = .ok (some []) ∧ r.outcome 4 = .ok (some (ascii "c")) ∧
      r.outcome 5 = .ok none := by
  have hlast : Unbroken (ascii "c") := by unfold Unbroken; decide +kernel
  have hdelivers := delivers_memory (joined joinedSample (ascii "c")) (ascii "memory buffer")
  have hrows : Unambiguous joinedSample := by
    simp [Unambiguous, joinedSample, Row.IsLineFeed]
  have h := (outcome_joined_iff hlast hdelivers .utf8 2).mpr hrows
  refine ⟨hlast, hdelivers, hrows, ?_, ?_, ?_, ?_, h 5⟩
  · exact (h 0).trans (by decide +kernel)
  · exact (h 1).trans (by decide +kernel)
  · exact (h 3).trans (by decide +kernel)
  · exact (h 4).trans (by decide +kernel)

end LineReader

end DoctypeProbe
