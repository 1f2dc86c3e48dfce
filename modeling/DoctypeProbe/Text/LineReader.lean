import DoctypeProbe.Source
import DoctypeProbe.Text.Charset
import DoctypeProbe.Text.Lines

/-!
# Line Reader

A line reader cuts the bytes of an input source into lines and decodes each of them. It
fetches a block of bytes when it has handed out the last one, and never before: the line
feed that may follow a carriage return is only looked for when the next line is asked for.

A line that cannot be decoded is counted like any other and does not disturb the lines after
it. When fetching a block fails, what was gathered of the current line is given up and the
last block is put back to be read again.

## Main results

* `LineReader.gather` — the raw bytes of the next line, over as many blocks as it takes.
* `LineReader.readLine` — the next line, decoded.
* `LineReader.pending_lt` — every line takes something away from what is left to read, so
  that reading line after line ends.
-/

namespace DoctypeProbe

/-- Why a line cannot be had. -/
inductive ReadError where
  /-- The source failed. -/
  | io (error : IoError)
  /-- The line does not decode. -/
  | decoding (error : DecodingError)
deriving DecidableEq, Repr

/-- The state of reading lines from a source. -/
structure LineReader (σ : Type) where
  /-- The source of the bytes. -/
  source : σ
  /-- The charset of the lines. -/
  charset : Charset := .utf8
  /-- The size of the blocks asked for. -/
  bufferSize : Nat := 8192
  /-- The last block delivered. -/
  block : Bytes := []
  /-- The end of the last block that has not been handed out. -/
  unread : Bytes := []
  /-- Whether the source has come to its end. -/
  atEnd : Bool := false
  /-- Whether the last line ended in a carriage return whose line feed may still come. -/
  afterReturn : Bool := false
  /-- The number of lines so far, undecodable ones included. -/
  lineNumber : Nat := 0

variable {σ : Type} [InputSource σ]

/-- A reader at the start of a source. A block size of zero acts as one; sizes of 2⁶³ and more are
not meant, as no block is that large. -/
def LineReader.over (source : σ) (charset : Charset) (bufferSize : Nat) : LineReader σ :=
  { source, charset, bufferSize := max bufferSize 1 }

namespace LineReader

/-- The block size used when none is asked for. -/
def defaultBufferSize : Nat := 8192

/-- The line that ends without a terminator: none if nothing was gathered. -/
def unterminated (raw : Bytes) : Option Bytes := if raw.isEmpty then none else some raw

theorem unterminated_eq_none {raw : Bytes} (h : raw = []) : unterminated raw = none := by
  simp [unterminated, h]

/-- Gathers the bytes of the next line, of which `raw` has been gathered before, and moves
past its terminator. Answers `none` at the end of the stream. -/
def gather (raw : Bytes) (r : LineReader σ) : Except IoError (Option Bytes) × LineReader σ :=
  match _h : r.unread with
  | [] =>
    if r.atEnd then (.ok (unterminated raw), r)
    else
      match _hr : InputSource.read r.source r.bufferSize with
      | (.error e, s) => (.error e, { r with source := s, unread := r.block })
      | (.ok [], s) => (.ok (unterminated raw), { r with source := s, block := [], atEnd := true })
      | (.ok (b :: bs), s) =>
        gather raw { r with source := s, block := b :: bs, unread := b :: bs }
  | b :: bs =>
    if r.afterReturn && b == Ascii.lf then
      gather raw { r with unread := bs, afterReturn := false }
    else
      let piece := (b :: bs).takeWhile (!Lines.isTerminator ·)
      match (b :: bs).dropWhile (!Lines.isTerminator ·) with
      | [] => gather (raw ++ piece) { r with unread := [], afterReturn := false }
      | t :: rest =>
        (.ok (some (raw ++ piece)), { r with unread := rest, afterReturn := t == Ascii.cr })
termination_by (InputSource.remaining r.source, r.unread.length)
decreasing_by
  · exact Prod.Lex.left _ _ (InputSource.remaining_lt ‹_›)
  · exact Prod.Lex.right _ (by simp only [‹r.unread = _›, List.length_cons]; omega)
  · exact Prod.Lex.right _ (by simp only [‹r.unread = _›, List.length_cons, List.length_nil]; omega)

/-- Reads the next line and decodes it; `none` at the end of the stream. -/
def readLine (r : LineReader σ) : Except ReadError (Option Bytes) × LineReader σ :=
  match r.gather [] with
  | (.error e, r') => (.error (.io e), r')
  | (.ok none, r') => (.ok none, r')
  | (.ok (some raw), r') =>
    ((r'.charset.decode raw).mapError .decoding |>.map some,
      { r' with lineNumber := r'.lineNumber + 1 })

/-! ### Reading ends -/

/-- A bound on the bytes that a reader can still hand out. -/
def pending (r : LineReader σ) : Nat := InputSource.remaining r.source + r.unread.length

/-- Gathering never adds to what is pending, and a line of which nothing had been gathered
before takes something away from it. -/
theorem pending_gather {raw : Bytes} {r r' : LineReader σ} {line : Option Bytes}
    (h : r.gather raw = (.ok line, r')) :
    r'.pending ≤ r.pending ∧ (line ≠ none → raw = [] → r'.pending < r.pending) := by
  fun_induction gather raw r with
  | case1 raw r hu he =>
    cases h
    exact ⟨Nat.le_refl _, fun hl hr => absurd (unterminated_eq_none hr) hl⟩
  | case2 raw r hu he e s hr => cases h
  | case3 raw r hu he s hr =>
    cases h
    have hb := (InputSource.read_bound hr).2
    simp only [List.length_nil, Nat.zero_add] at hb
    simp only [pending, hu, List.length_nil]
    exact ⟨by omega, fun hl hr' => absurd (unterminated_eq_none hr') hl⟩
  | case4 raw r hu he b bs s hr ih =>
    have hb := (InputSource.read_bound hr).2
    obtain ⟨hle, hlt⟩ := ih h
    simp only [pending, hu, List.length_nil, List.length_cons] at hle hlt hb ⊢
    exact ⟨by omega, fun hl hr' => by have := hlt hl hr'; omega⟩
  | case5 raw r b bs hu hs ih =>
    obtain ⟨hle, hlt⟩ := ih h
    simp only [pending, hu, List.length_cons] at hle hlt ⊢
    exact ⟨by omega, fun hl hr' => by have := hlt hl hr'; omega⟩
  | case6 raw r b bs hu hs piece hd ih =>
    obtain ⟨hle, hlt⟩ := ih h
    simp only [pending, hu, List.length_cons, List.length_nil] at hle hlt ⊢
    exact ⟨by omega, fun _ _ => by omega⟩
  | case7 raw r b bs hu hs piece t rest hd =>
    cases h
    have hl : (t :: rest).length ≤ (b :: bs).length :=
      hd ▸ (List.dropWhile_suffix _).length_le
    simp only [pending, hu, List.length_cons] at hl ⊢
    exact ⟨by omega, fun _ _ => by omega⟩

/-- Every line read takes something away from what is pending. -/
theorem pending_lt {r r' : LineReader σ} {line : Bytes}
    (h : r.readLine = (.ok (some line), r')) : r'.pending < r.pending := by
  unfold readLine at h
  split at h
  · cases h
  · cases h
  · rename_i raw r'' hg
    have hlt := (pending_gather hg).2 (by simp) rfl
    rw [← (Prod.mk.inj h).2]
    exact hlt

end LineReader

end DoctypeProbe
