import DoctypeProbe.Proofs.Source.Delivery
import DoctypeProbe.Proofs.Text.Lines
import DoctypeProbe.Text.LineReader

/-!
# Reading the Lines of a Source

A reader gathers a line over as many blocks as it takes, and puts the line feed of a
terminator off to the next call. None of this shows: as long as its source delivers its
bytes, a reader hands out the lines of these bytes and then comes to an end, whatever the
size of its blocks and of the answers that fill them.

The invariant is `Ahead r lines`. It computes the lines that are still to come from three
things together: the rest of the block at hand, the bytes that the source has left, and
whether a line feed may still belong to the last terminator. How the bytes are divided
between block and source does not matter to it, which is why filling a block keeps it.

## Main results

* `LineReader.ahead_over`: a new reader has the lines of its source ahead.
* `LineReader.Ahead.gather`: gathering takes the first line ahead.
* `LineReader.Ahead.readLine_cons`, `LineReader.Ahead.readLine_nil`: reading answers the
  first line ahead, decoded, and then nothing.
-/

namespace DoctypeProbe

namespace LineReader

variable {σ : Type} [InputSource σ]

/-- The lines that a reader still has ahead: those of its unread bytes together with the
bytes that its source has left. Nothing is left once the source has come to its end. -/
def Ahead (r : LineReader σ) (lines : List Bytes) : Prop :=
  ∃ left, lines = Lines.continuing r.afterReturn (r.unread ++ left) ∧ 0 < r.bufferSize ∧
    (r.atEnd = true → left = []) ∧ (r.atEnd = false → Delivers r.source left)

/-- What reading leaves alone, how many lines it counts, and where it leads the source. -/
structure Advanced (count : Nat) (r r' : LineReader σ) : Prop where
  charset : r'.charset = r.charset
  lineNumber : r'.lineNumber = r.lineNumber + count
  source : Reached r.source r'.source

/-- A new reader has the lines of its source ahead. -/
theorem ahead_over {s : σ} {d : Bytes} (h : Delivers s d) (charset : Charset)
    (bufferSize : Nat) : Ahead (LineReader.over s charset bufferSize) (Lines.ofText d) :=
  ⟨d, rfl, by simp only [LineReader.over]; omega, fun he => Bool.noConfusion he, fun _ => h⟩

/-! ### Gathering -/

/-- What gathering answers if `lines` are ahead and `raw` has been gathered before. -/
def firstOf (raw : Bytes) : List Bytes → Option Bytes
  | [] => unterminated raw
  | line :: _ => some (raw ++ line)

theorem firstOf_extend {raw piece : Bytes} (h : piece ≠ []) (lines : List Bytes) :
    firstOf raw (Lines.extend piece lines) = firstOf (raw ++ piece) lines := by
  cases lines with
  | nil => simp [firstOf, Lines.extend, unterminated, h]
  | cons line lines => simp [firstOf, Lines.extend]

theorem tail_extend (piece : Bytes) (lines : List Bytes) :
    (Lines.extend piece lines).tail = lines.tail := by
  cases lines <;> rfl

/-- **Gathering takes the first line ahead**, and leaves the others ahead. -/
theorem Ahead.gather {r : LineReader σ} {lines : List Bytes} (h : Ahead r lines) (raw : Bytes) :
    ∃ r', r.gather raw = (.ok (firstOf raw lines), r') ∧ Ahead r' lines.tail ∧
      Advanced 0 r r' := by
  obtain ⟨left, hlines, hsize, hend, hleft⟩ := h
  fun_induction LineReader.gather raw r generalizing lines left with
  | case1 raw r hu he =>
      -- the end of the source has been seen before
      obtain rfl := hend he
      rw [hu] at hlines
      subst hlines
      exact ⟨r, rfl, ⟨[], by rw [hu]; rfl, hsize, hend, hleft⟩, rfl, rfl, .start⟩
  | case2 raw r hu he e s hr =>
      obtain ⟨bs, s', rest, hr', -⟩ := (hleft (by simpa using he)).read hsize
      rw [hr] at hr'
      cases hr'
  | case3 raw r hu he s hr =>
      obtain ⟨bs, s', rest, hr', -, hnil, -⟩ := (hleft (by simpa using he)).read hsize
      rw [hr] at hr'
      cases hr'
      rw [hu, hnil rfl] at hlines
      subst hlines
      exact ⟨_, rfl, ⟨[], by simp only [hu]; rfl, hsize, fun _ => rfl,
        fun h => Bool.noConfusion h⟩, rfl, rfl, .read .start hr⟩
  | case4 raw r hu he b bs s hr ih =>
      -- the answer moves from the source into the block
      obtain ⟨_, s', rest, hr', hd, -, hs'⟩ := (hleft (by simpa using he)).read hsize
      rw [hr] at hr'
      cases hr'
      have hl : lines = Lines.continuing r.afterReturn (b :: bs ++ rest) := by
        rw [hlines, hu, hd, List.nil_append]
      obtain ⟨r', hg, ha, hv⟩ := ih rest hl hsize (fun h => absurd h he) (fun _ => hs')
      exact ⟨r', hg, ha, hv.charset, hv.lineNumber, (Reached.read .start hr).trans hv.source⟩
  | case5 raw r b bs hu hs ih =>
      obtain ⟨har, hb⟩ : r.afterReturn = true ∧ b = Ascii.lf := by simpa using hs
      have hl : lines = Lines.continuing false (bs ++ left) := by
        rw [hlines, hu, har, hb, List.cons_append, Lines.continuing_lineFeed]
      obtain ⟨r', hg, ha, hv⟩ := ih left hl hsize hend hleft
      exact ⟨r', hg, ha, hv.charset, hv.lineNumber, hv.source⟩
  | case6 raw r b bs hu hs piece hd =>
      rename_i ih
      -- the whole block belongs to the line
      obtain ⟨hp, hub⟩ := Lines.takeWhile_eq_of_dropWhile_eq_nil hd
      have hl : lines = Lines.extend (b :: bs) (Lines.continuing false left) := by
        rw [hlines, hu]
        exact Lines.continuing_append hub (List.cons_ne_nil b bs) _ _
      obtain ⟨r', hg, ha, hv⟩ := ih left rfl hsize hend hleft
      rw [hl, firstOf_extend (List.cons_ne_nil b bs), tail_extend, ← hp]
      exact ⟨r', hg, ha, hv.charset, hv.lineNumber, hv.source⟩
  | case7 raw r b bs hu hs piece t rest =>
      rename_i hd
      obtain ⟨hsplit, hub, ht⟩ := Lines.takeWhile_of_dropWhile_eq_cons hd
      have hskip : (b :: bs).takeWhile (!Lines.isTerminator ·) = [] →
          (r.afterReturn && t == Ascii.lf) = false := by
        intro hp
        rw [hp, List.nil_append] at hsplit
        rw [← (List.cons.inj hsplit).1]
        simpa using hs
      have hl : lines = (b :: bs).takeWhile (!Lines.isTerminator ·) ::
          Lines.continuing (t == Ascii.cr) (rest ++ left) := by
        rw [hlines, hu]
        conv => lhs; rw [hsplit, List.append_assoc]
        exact Lines.continuing_append_terminator hub ht hskip _
      subst hl
      exact ⟨_, rfl, ⟨left, rfl, hsize, hend, hleft⟩, rfl, rfl, .start⟩

/-! ### Reading lines -/

/-- **Reading at the end** answers nothing, and leaves nothing ahead. -/
theorem Ahead.readLine_nil {r : LineReader σ} (h : Ahead r []) :
    ∃ r', r.readLine = (.ok none, r') ∧ Ahead r' [] ∧ Advanced 0 r r' := by
  obtain ⟨r', hg, ha, hv⟩ := h.gather []
  refine ⟨r', ?_, ha, hv⟩
  simp [LineReader.readLine, hg, firstOf, unterminated]

/-- **Reading a line** answers the first line ahead, decoded, and counts it. -/
theorem Ahead.readLine_cons {r : LineReader σ} {raw : Bytes} {lines : List Bytes}
    (h : Ahead r (raw :: lines)) :
    ∃ r', r.readLine = (((r.charset.decode raw).mapError .decoding).map some, r') ∧
      Ahead r' lines ∧ Advanced 1 r r' := by
  obtain ⟨r', hg, ha, hv⟩ := h.gather []
  refine ⟨{ r' with lineNumber := r'.lineNumber + 1 }, ?_, ha, hv.charset,
    congrArg (· + 1) hv.lineNumber, hv.source⟩
  simp [LineReader.readLine, hg, firstOf, hv.charset]

end LineReader

end DoctypeProbe
