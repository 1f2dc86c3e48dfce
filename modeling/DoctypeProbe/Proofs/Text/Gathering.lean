import DoctypeProbe.Proofs.Source.Record
import DoctypeProbe.Proofs.Text.Segments
import DoctypeProbe.Text.LineReader

/-!
# What Gathering a Line Can Do

`LineReader.gather` fetches blocks until a line has come to its end. Over a source of which
nothing is known it can end in three ways: a terminator is found, the source has come to its
end, or a read fails. `Gathered` says everything about each of them once, in terms of the
blocks that were pulled, so that no proof about a particular kind of source has to follow the
loop again.

What the reader does depends on its source through the answers of reads alone, so a reader
behaves alike over two sources whose reads correspond (`LineReader.through`).

## Main results

* `LineReader.gathered`: the ways in which gathering ends.
* `LineReader.gather_through`, `LineReader.readLine_through`: reading through to another
  source.
-/

namespace DoctypeProbe

namespace LineReader

open Lines

variable {σ : Type} [InputSource σ]

/-! ### One step -/

theorem gather_atEnd {raw : Bytes} {r : LineReader σ} (hu : r.unread = []) (he : r.atEnd = true) :
    r.gather raw = (.ok (unterminated raw), r) := by
  rw [gather]
  split <;> simp_all

theorem gather_error {raw : Bytes} {r : LineReader σ} (hu : r.unread = []) (he : r.atEnd = false)
    {e : IoError} {s : σ} (hr : InputSource.read r.source r.bufferSize = (.error e, s)) :
    r.gather raw = (.error e, { r with source := s, unread := r.block }) := by
  rw [gather]
  split
  · rw [if_neg (by simp [he])]
    split <;> simp_all
  · simp_all

theorem gather_end {raw : Bytes} {r : LineReader σ} (hu : r.unread = []) (he : r.atEnd = false)
    {s : σ} (hr : InputSource.read r.source r.bufferSize = (.ok [], s)) :
    r.gather raw =
      (.ok (unterminated raw), { r with source := s, block := [], atEnd := true }) := by
  rw [gather]
  split
  · rw [if_neg (by simp [he])]
    split <;> simp_all
  · simp_all

theorem gather_block {raw : Bytes} {r : LineReader σ} (hu : r.unread = []) (he : r.atEnd = false)
    {b : Byte} {bs : Bytes} {s : σ}
    (hr : InputSource.read r.source r.bufferSize = (.ok (b :: bs), s)) :
    r.gather raw = gather raw { r with source := s, block := b :: bs, unread := b :: bs } := by
  rw [gather]
  split
  · rw [if_neg (by simp [he])]
    split
    · simp_all
    · simp_all
    · rename_i hr'
      rw [hr] at hr'
      cases hr'
      rfl
  · simp_all

theorem gather_lineFeed {raw : Bytes} {r : LineReader σ} {b : Byte} {bs : Bytes}
    (hu : r.unread = b :: bs) (hs : (r.afterReturn && b == Ascii.lf) = true) :
    r.gather raw = gather raw { r with unread := bs, afterReturn := false } := by
  rw [gather]
  split
  · simp_all
  · rename_i hu'
    rw [hu] at hu'
    cases hu'
    rw [if_pos hs]

theorem gather_unbroken {raw : Bytes} {r : LineReader σ} {b : Byte} {bs : Bytes}
    (hu : r.unread = b :: bs) (hs : ¬ (r.afterReturn && b == Ascii.lf) = true)
    (hd : (b :: bs).dropWhile (!isTerminator ·) = []) :
    r.gather raw = gather (raw ++ (b :: bs).takeWhile (!isTerminator ·))
      { r with unread := [], afterReturn := false } := by
  rw [gather]
  split
  · simp_all
  · rename_i hu'
    rw [hu] at hu'
    cases hu'
    rw [if_neg hs]
    simp only [hd]

theorem gather_terminator {raw : Bytes} {r : LineReader σ} {b : Byte} {bs : Bytes}
    (hu : r.unread = b :: bs) (hs : ¬ (r.afterReturn && b == Ascii.lf) = true)
    {t : Byte} {rest : Bytes} (hd : (b :: bs).dropWhile (!isTerminator ·) = t :: rest) :
    r.gather raw = (.ok (some (raw ++ (b :: bs).takeWhile (!isTerminator ·))),
      { r with unread := rest, afterReturn := t == Ascii.cr }) := by
  rw [gather]
  split
  · simp_all
  · rename_i hu'
    rw [hu] at hu'
    cases hu'
    rw [if_neg hs]
    simp only [hd]

/-! ### Reading through to another source -/

/-- The reader over the source that a source is read through to. -/
def through {τ : Type} (f : σ → τ) (r : LineReader σ) : LineReader τ :=
  { r with source := f r.source }

/-- **Gathering through** to another source, if reads correspond. -/
theorem gather_through {τ : Type} [InputSource τ] {f : σ → τ}
    (hf : ∀ s n, InputSource.read (f s) n = (InputSource.read s n).map id f) (raw : Bytes)
    (r : LineReader σ) : (r.through f).gather raw = (r.gather raw).map id (through f) := by
  fun_induction gather raw r with
  | case1 raw r hu he => exact gather_atEnd hu he
  | case2 raw r hu he e s hr =>
      have hr' : InputSource.read (f r.source) r.bufferSize = (.error e, f s) := by rw [hf, hr]; rfl
      exact gather_error (r := r.through f) hu (eq_false_of_ne_true he) hr'
  | case3 raw r hu he s hr =>
      have hr' : InputSource.read (f r.source) r.bufferSize = (.ok [], f s) := by rw [hf, hr]; rfl
      exact gather_end (r := r.through f) hu (eq_false_of_ne_true he) hr'
  | case4 raw r hu he b bs s hr ih =>
      have hr' : InputSource.read (f r.source) r.bufferSize = (.ok (b :: bs), f s) := by
        rw [hf, hr]
        rfl
      rw [← ih]
      exact gather_block (r := r.through f) hu (eq_false_of_ne_true he) hr'
  | case5 raw r b bs hu hs ih =>
      rw [← ih]
      exact gather_lineFeed (r := r.through f) hu hs
  | case6 raw r b bs hu hs piece hd ih =>
      rw [← ih]
      exact gather_unbroken (r := r.through f) hu hs hd
  | case7 raw r b bs hu hs piece t rest hd =>
      exact gather_terminator (r := r.through f) hu hs hd

/-- **Reading through** to another source, if reads correspond. -/
theorem readLine_through {τ : Type} [InputSource τ] {f : σ → τ}
    (hf : ∀ s n, InputSource.read (f s) n = (InputSource.read s n).map id f)
    (r : LineReader σ) : (r.through f).readLine = r.readLine.map id (through f) := by
  rw [readLine, readLine, gather_through hf]
  rcases r.gather [] with ⟨e | _ | raw, r'⟩ <;> rfl

/-! ### The ways in which gathering ends -/

/-- The last of some blocks, or the one before them if there are none. -/
def lastBlock (block : Bytes) : List Bytes → Bytes
  | [] => block
  | b :: bs => lastBlock b bs

/-- What gathering answers, and the reader it leaves. The blocks pulled are put behind the
unread bytes; of these, past the line feed that a carriage return may take, the line is made.

* `line`: a terminator was found, in the last block or in the unread bytes.
* `exhausted`: the source had come to its end before.
* `ended`: the source comes to its end.
* `failed`: a read fails, and the last block is put back. -/
inductive Gathered (raw : Bytes) (r : LineReader σ) :
    Except IoError (Option Bytes) → LineReader σ → Prop
  | line {blocks : List Bytes} {s : σ} {line : Bytes} {t : Byte} {rest : Bytes} :
      Pulls r.bufferSize r.source blocks s → (r.atEnd = true → blocks = []) →
      resume r.afterReturn (r.unread ++ blocks.flatten) = line ++ t :: rest →
      Unbroken line → isTerminator t = true → t :: rest <:+ lastBlock r.unread blocks →
      Gathered raw r (.ok (some (raw ++ line)))
        { r with source := s, block := lastBlock r.block blocks, unread := rest,
                 afterReturn := t == Ascii.cr }
  | exhausted : r.atEnd = true → Unbroken (resume r.afterReturn r.unread) →
      Gathered raw r (.ok (unterminated (raw ++ resume r.afterReturn r.unread)))
        { r with unread := [], afterReturn := r.afterReturn && r.unread.isEmpty }
  | ended {blocks : List Bytes} {s s' : σ} :
      Pulls r.bufferSize r.source blocks s → r.atEnd = false →
      InputSource.read s r.bufferSize = (.ok [], s') →
      Unbroken (resume r.afterReturn (r.unread ++ blocks.flatten)) →
      Gathered raw r
        (.ok (unterminated (raw ++ resume r.afterReturn (r.unread ++ blocks.flatten))))
        { r with source := s', block := [], unread := [], atEnd := true,
                 afterReturn := r.afterReturn && (r.unread ++ blocks.flatten).isEmpty }
  | failed {blocks : List Bytes} {s s' : σ} {e : IoError} :
      Pulls r.bufferSize r.source blocks s → r.atEnd = false →
      InputSource.read s r.bufferSize = (.error e, s') →
      Unbroken (resume r.afterReturn (r.unread ++ blocks.flatten)) →
      Gathered raw r (.error e)
        { r with source := s', block := lastBlock r.block blocks,
                 unread := lastBlock r.block blocks,
                 afterReturn := r.afterReturn && (r.unread ++ blocks.flatten).isEmpty }

/-- A block pulled first is one of the blocks pulled. -/
theorem Gathered.of_pull {raw : Bytes} {r r' : LineReader σ} {b : Byte} {bs : Bytes} {s : σ}
    {out : Except IoError (Option Bytes)} (hu : r.unread = []) (he : ¬ r.atEnd = true)
    (hr : InputSource.read r.source r.bufferSize = (.ok (b :: bs), s))
    (h : Gathered raw { r with source := s, block := b :: bs, unread := b :: bs } out r') :
    Gathered raw r out r' := by
  have htext : ∀ blocks : List Bytes, r.unread ++ ((b :: bs) :: blocks).flatten =
      (b :: bs) ++ blocks.flatten := fun blocks => by rw [hu, List.flatten_cons, List.nil_append]
  cases h with
  | line hp hend ht hl hterm hsuf =>
      exact .line (.read hr (List.cons_ne_nil b bs) hp) (fun h => absurd h he)
        (by rw [htext]; exact ht) hl hterm hsuf
  | exhausted hend => exact absurd hend he
  | ended hp hend hr' ht =>
      have h : Gathered raw r _ _ :=
        .ended (.read hr (List.cons_ne_nil b bs) hp) hend hr' (by rw [htext]; exact ht)
      rw [htext] at h
      exact h
  | failed hp hend hr' ht =>
      have h : Gathered raw r _ _ :=
        .failed (.read hr (List.cons_ne_nil b bs) hp) hend hr' (by rw [htext]; exact ht)
      rw [htext] at h
      exact h

/-- Nothing of the line is in a line feed that belongs to the terminator before. -/
theorem Gathered.of_lineFeed {raw : Bytes} {r r' : LineReader σ} {bs : Bytes}
    {out : Except IoError (Option Bytes)} (hu : r.unread = Ascii.lf :: bs)
    (har : r.afterReturn = true)
    (h : Gathered raw { r with unread := bs, afterReturn := false } out r') :
    Gathered raw r out r' := by
  have hres : ∀ s, resume r.afterReturn (r.unread ++ s) = resume false (bs ++ s) := by
    intro s
    rw [hu, har, List.cons_append, resume_lineFeed, resume_false]
  have hempty : ∀ s, (r.afterReturn && (r.unread ++ s).isEmpty) = false := by simp [hu]
  cases h with
  | @line blocks _ _ _ _ hp hend ht hl hterm hsuf =>
      refine .line hp hend ((hres _).trans ht) hl hterm ?_
      rcases blocks with - | ⟨block, blocks⟩
      · rw [lastBlock, hu]
        exact hsuf.trans (List.suffix_cons _ bs)
      · exact hsuf
  | exhausted hend ht =>
      have hres' : resume r.afterReturn r.unread = resume false bs := by simpa using hres []
      have h : Gathered raw r _ _ := .exhausted hend (hres'.symm ▸ ht)
      rw [hres', show (r.afterReturn && r.unread.isEmpty) = false by simpa using hempty []] at h
      exact h
  | ended hp hend hr' ht =>
      have h : Gathered raw r _ _ := .ended hp hend hr' ((hres _).symm ▸ ht)
      rw [hres, hempty] at h
      exact h
  | failed hp hend hr' ht =>
      have h : Gathered raw r _ _ := .failed hp hend hr' ((hres _).symm ▸ ht)
      rw [hempty] at h
      exact h

/-- Unread bytes without a terminator belong to the line. -/
theorem Gathered.of_unbroken {raw : Bytes} {r r' : LineReader σ}
    {out : Except IoError (Option Bytes)} (hu : r.unread ≠ [])
    (hres : resume r.afterReturn r.unread = r.unread) (hub : Unbroken r.unread)
    (h : Gathered (raw ++ r.unread) { r with unread := [], afterReturn := false } out r') :
    Gathered raw r out r' := by
  have hext : ∀ s, resume r.afterReturn (r.unread ++ s) = r.unread ++ resume false ([] ++ s) := by
    intro s
    rw [resume_append hu, hres, resume_false, List.nil_append]
  have hempty : ∀ s, (r.afterReturn && (r.unread ++ s).isEmpty) = false := by simp [hu]
  have hline : ∀ {s}, Unbroken s → Unbroken (r.unread ++ s) :=
    fun hs => List.forall_mem_append.mpr ⟨hub, hs⟩
  cases h with
  | @line blocks _ line _ _ hp hend ht hl hterm hsuf =>
      rcases blocks with - | ⟨block, blocks⟩
      · exact absurd hsuf.length_le (by simp [lastBlock])
      · have ht' := (hext _).trans (congrArg (r.unread ++ ·) ht)
        have h : Gathered raw r _ _ :=
          .line hp hend (ht'.trans (List.append_assoc _ line _).symm) (hline hl) hterm hsuf
        rw [← List.append_assoc] at h
        exact h
  | exhausted hend ht =>
      have h : Gathered raw r _ _ := .exhausted hend (hres.symm ▸ hub)
      rw [hres, show (r.afterReturn && r.unread.isEmpty) = false by simpa using hempty []] at h
      simpa using h
  | ended hp hend hr' ht =>
      have h : Gathered raw r _ _ := .ended hp hend hr' ((hext _).symm ▸ hline ht)
      rw [hext, hempty, ← List.append_assoc] at h
      exact h
  | failed hp hend hr' ht =>
      have h : Gathered raw r _ _ := .failed hp hend hr' ((hext _).symm ▸ hline ht)
      rw [hempty] at h
      exact h

/-- **The ways in which gathering ends.** Induction along the loop: each step takes something
off the unread bytes, or pulls a block. -/
theorem gathered (raw : Bytes) (r : LineReader σ) :
    Gathered raw r (r.gather raw).1 (r.gather raw).2 := by
  fun_induction gather raw r with
  | case1 raw r hu he =>
      have h : Gathered raw r _ _ := .exhausted he (by rw [hu]; exact unbroken_nil)
      simp only [hu, resume_nil, List.append_nil, List.isEmpty_nil, Bool.and_true] at h
      rwa [← hu] at h
  | case2 raw r hu he e s hr =>
      have h : Gathered raw r _ _ := .failed (.done r.source) (eq_false_of_ne_true he) hr
        (by rw [hu]; exact unbroken_nil)
      simpa [hu, lastBlock] using h
  | case3 raw r hu he s hr =>
      have h : Gathered raw r _ _ := .ended (.done r.source) (eq_false_of_ne_true he) hr
        (by rw [hu]; exact unbroken_nil)
      simpa [hu] using h
  | case4 raw r hu he b bs s hr ih => exact ih.of_pull hu he hr
  | case5 raw r b bs hu hs ih =>
      obtain ⟨har, rfl⟩ : r.afterReturn = true ∧ b = Ascii.lf := by simpa using hs
      exact ih.of_lineFeed hu har
  | case6 raw r b bs hu hs piece hd ih =>
      obtain ⟨hp, hub⟩ := takeWhile_eq_of_dropWhile_eq_nil hd
      have hpiece : piece = r.unread := hp.trans hu.symm
      rw [hpiece] at ih ⊢
      refine ih.of_unbroken (by simp [hu]) (resume_of_head? fun har hh => hs ?_) (hu ▸ hub)
      simpa [hu, har] using hh
  | case7 raw r b bs hu hs piece t rest hd =>
      obtain ⟨hsplit, hub, ht⟩ := takeWhile_of_dropWhile_eq_cons hd
      have hres : resume r.afterReturn r.unread = r.unread :=
        resume_of_head? fun har hh => hs (by simpa [hu, har] using hh)
      refine .line (.done r.source) (fun _ => rfl) ?_ hub ht ?_
      · rw [List.flatten_nil, List.append_nil, hres, hu]
        exact hsplit
      · rw [lastBlock, hu, hsplit]
        exact List.suffix_append _ _

end LineReader

end DoctypeProbe
