import DoctypeProbe.Proofs.Text.Place
import DoctypeProbe.Source.Faulty

/-!
# Where Lines Come From

A caller may go on after a failed read, and the source may work again later. What the calls
answer is then made of the bytes delivered, line after line, as long as a failure does not move
the reader back: bytes are used in order, and none of them in two lines, exactly if no call
follows a failure that put back a block with a terminator in it.

## Main results

* `LineReader.passage_after`: how each call of a run moves the place of the reader.
* `LineReader.inOrder_iff_unbroken`: which runs use every byte at most once and in order.
* `LineReader.not_inOrder_rereadSample`: a run that does not.
-/

namespace DoctypeProbe

namespace LineReader

open Lines

variable {σ : Type}

/-! ### Lines answered -/

/-- A call answers a line: its text, or that it does not decode. -/
inductive Answered : Except ReadError (Option Bytes) → Prop
  | line (text : Bytes) : Answered (.ok (some text))
  | undecodable (e : DecodingError) : Answered (.error (.decoding e))

theorem answered_decoded (charset : Charset) (raw : Bytes) : Answered (decoded charset raw) := by
  rw [decoded]
  rcases charset.decode raw with e | text
  · exact .undecodable e
  · exact .line text

/-- An outcome is that of a line which takes the bytes of `d` from one place to another: they
are the line and all of what ends it, or an unterminated line at the end of the source. -/
def Spans (charset : Charset) (d : Bytes) (start stop : Nat)
    (outcome : Except ReadError (Option Bytes)) : Prop :=
  ∃ raw brk, outcome = decoded charset raw ∧ Unbroken raw ∧
    d.drop start = raw ++ brk ++ d.drop stop ∧
    (Break brk (d.drop stop) ∨ brk = [] ∧ raw ≠ [] ∧ d.drop stop = [])

/-- A call that answers a line moves the reader from the front of it to behind what ends it. -/
theorem Passage.spans {d : Bytes} {r r' : LineReader (Recorded σ)}
    {out : Except ReadError (Option Bytes)} (h : Passage d r out r') (ho : Answered out) :
    Spans r.charset d (place d r) (place d r') out := by
  rw [Spans, drop_place, drop_place]
  cases h with
  | @line raw brk _ hd hub hb => exact ⟨raw, brk, rfl, hub, hd, Or.inl hb⟩
  | @last raw _ hd hub hne hend =>
      exact ⟨raw, [], rfl, hub, by rw [hd, hend, List.append_nil, List.append_nil],
        Or.inr ⟨rfl, hne, hend⟩⟩
  | none => nomatch ho
  | held => nomatch ho
  | back => nomatch ho

/-- A call leads behind some of a block only with a line. -/
theorem Passage.answered_of_behind {d : Bytes} {r r' : LineReader (Recorded σ)}
    {out : Except ReadError (Option Bytes)} (h : Passage d r out r') (hr : Behind r') :
    Answered out := by
  cases h with
  | line => exact answered_decoded _ _
  | last => exact answered_decoded _ _
  | none _ hb =>
      obtain ⟨x, t, hb', -⟩ := hr
      exact absurd (congrArg List.length (hb.symm.trans hb')) (by simp)
  | held hu => exact absurd hr (not_behind hu)
  | back hu => exact absurd hr (not_behind hu)

/-- A call that fails leaves a last block without a terminator in it, or moves the reader back. -/
theorem Passage.of_error {d : Bytes} {r r' : LineReader (Recorded σ)} {e : IoError}
    (h : Passage d r (.error (.io e)) r') :
    (Unbroken r'.block ∧ (upcoming d r').length ≤ (upcoming d r).length) ∨
      (r'.unread = r'.block ∧ ¬ Unbroken r'.block ∧ Behind r ∧
        (upcoming d r).length < (upcoming d r').length) := by
  have hout : ∀ raw, decoded r.charset raw ≠ .error (.io e) := fun raw hd =>
    nomatch hd ▸ answered_decoded r.charset raw
  generalize ho : (Except.error (.io e) : Except ReadError (Option Bytes)) = out at h hout
  cases h with
  | line => exact absurd rfl (hout _)
  | last => exact absurd rfl (hout _)
  | none => cases ho
  | held _ hub hle => exact Or.inl ⟨hub, hle⟩
  | back hu hub hbehind hlt => exact Or.inr ⟨hu, hub, hbehind, hlt⟩

variable [InputSource σ]

/-! ### Runs of calls -/

theorem charset_after (r : LineReader σ) (k : Nat) : (r.after k).charset = r.charset := by
  induction k with
  | zero => rfl
  | succ k ih =>
      obtain ⟨out, r', n, hg, -, hr⟩ := exists_gathered_after r k
      rw [hr]
      exact hg.charset_eq.trans ih

/-- The bytes delivered to a reader during its first calls. -/
def delivered (r : LineReader (Recorded σ)) (n : Nat) : Bytes := (r.after n).source.delivered

theorem kept_after {r : LineReader (Recorded σ)} (h : Kept r) (k : Nat) : Kept (r.after k) := by
  induction k with
  | zero => exact h
  | succ k ih =>
      obtain ⟨out, r', n, hg, -, hr⟩ := exists_gathered_after r k
      rw [hr]
      exact (hg.kept ih).1.count n

/-- **What is delivered** only grows, and not at all once the source has come to its end. -/
theorem delivered_after {r : LineReader (Recorded σ)} (h : Kept r) {k n : Nat} (hkn : k ≤ n) :
    ∃ later, r.delivered n = r.delivered k ++ later ∧
      ((r.after k).atEnd = true → later = [] ∧ (r.after n).atEnd = true) := by
  induction n, hkn using Nat.le_induction with
  | base => exact ⟨[], (List.append_nil _).symm, fun he => ⟨rfl, he⟩⟩
  | succ n _ ih =>
      obtain ⟨later, hd, hend⟩ := ih
      obtain ⟨out, r', c, hg, -, hr⟩ := exists_gathered_after r n
      obtain ⟨-, fresh, hfresh, hend'⟩ := hg.kept (kept_after h n)
      refine ⟨later ++ fresh, ?_, fun he => ?_⟩
      · rw [delivered, hr, ← List.append_assoc, ← hd]
        exact hfresh
      · obtain ⟨rfl, he'⟩ := hend he
        obtain ⟨rfl, he''⟩ := hend' he'
        rw [hr]
        exact ⟨rfl, he''⟩

/-- **How each call moves the place**, seen from the bytes delivered during the run. -/
theorem passage_after {r : LineReader (Recorded σ)} (h : Kept r) {k n : Nat} (hk : k < n) :
    Passage (r.delivered n) (r.after k) (r.outcome k) (r.after (k + 1)) := by
  obtain ⟨later, hd, hend⟩ := delivered_after h hk
  obtain ⟨out, r', c, hg, ho, hr⟩ := exists_gathered_after r k
  rw [hr] at hend
  rw [hd, delivered, ho, hr]
  exact hg.passage (kept_after h k) (fun he => (hend he).1) c

/-- A reader in front of a block with a terminator in it has a line to answer. -/
theorem answered_of_not_unbroken {r : LineReader (Recorded σ)} (h : Kept r)
    (hu : r.unread = r.block) (hb : ¬ Unbroken r.block) : Answered r.readLine.1 := by
  have hline : ∀ s, ¬ Unbroken (resume r.afterReturn (r.unread ++ s)) := by
    intro s hs
    cases h.standing with
    | whole _ _ hcr =>
        have hs' := unbroken_of_resume hs fun har => List.mem_append_left s (hu ▸ hcr har)
        exact hb (hu ▸ fun b hmem => hs' b (List.mem_append_left s hmem))
    | behind hb' ht => exact not_behind hu ⟨_, _, hb', ht⟩
    | ended _ hnil => exact hb (hnil ▸ unbroken_nil)
  obtain ⟨out, r', n, hg, hr⟩ := exists_gathered r
  rw [hr]
  cases hg with
  | line => exact answered_decoded _ _
  | exhausted _ hs => exact absurd hs (by simpa using hline [])
  | ended _ _ _ hs => exact absurd hs (hline _)
  | failed _ _ _ hs => exact absurd hs (hline _)

/-! ### Runs that use every byte once -/

/-- The lines that the first `n` calls answer use the bytes delivered in order, and none of
them twice: each begins where the one before has stopped, or behind that. -/
def InOrder (r : LineReader (Recorded σ)) (n : Nat) : Prop :=
  ∀ j k, j < k → k < n → Answered (r.outcome j) → Answered (r.outcome k) →
    place (r.delivered n) (r.after (j + 1)) ≤ place (r.delivered n) (r.after k)

/-- Calls that do not move the reader back take it forward. -/
theorem upcoming_antitone {r : LineReader (Recorded σ)} (h : Kept r) {n : Nat}
    (hub : ∀ i e, i + 1 < n → r.outcome i = .error (.io e) → Unbroken (r.after (i + 1)).block)
    {j k : Nat} (hjk : j ≤ k) (hk : k < n) :
    (upcoming (r.delivered n) (r.after k)).length ≤
      (upcoming (r.delivered n) (r.after j)).length := by
  induction k, hjk using Nat.le_induction with
  | base => exact Nat.le_refl _
  | succ k _ ih =>
      refine Nat.le_trans ?_ (ih (by omega))
      have hp := passage_after h (k := k) (n := n) (by omega)
      generalize ho : r.outcome k = out at hp
      cases hp with
      | line hd =>
          rw [hd, List.length_append]
          exact Nat.le_add_left _ _
      | last _ _ _ hend => simp [hend]
      | none hend => simp [hend]
      | held _ _ hle => exact hle
      | back _ hnot => exact absurd (hub k _ hk ho) hnot

/-- A call that moves the reader back stands between two that answer lines, so a run in order
has none, but for the last call. -/
theorem unbroken_of_inOrder {r : LineReader (Recorded σ)} (h : Kept r) (hstart : ¬ Behind r)
    {n : Nat} (hin : InOrder r n) {i : Nat} {e : IoError} (hi : i + 1 < n)
    (ho : r.outcome i = .error (.io e)) : Unbroken (r.after (i + 1)).block := by
  have hp := passage_after h (k := i) (n := n) (by omega)
  rw [ho] at hp
  rcases hp.of_error with ⟨hub, -⟩ | ⟨hu, hub, hbehind, hlt⟩
  · exact hub
  · rcases i with - | j
    · exact absurd hbehind hstart
    · have hj : Answered (r.outcome j) :=
        (passage_after h (k := j) (n := n) (by omega)).answered_of_behind hbehind
      have hk : Answered (r.outcome (j + 2)) :=
        answered_of_not_unbroken (kept_after h (j + 2)) hu hub
      have hle := place_le_place_iff.mp (hin j (j + 2) (by omega) hi hj hk)
      exact absurd hlt (Nat.not_lt.mpr hle)

/-- **What lines are made of.** Over any source, whose record of the bytes delivered changes
nothing that a caller can see, each line answered takes a stretch of these bytes, together with
what ends it. The stretches are in order, and no two of them have a byte in common, exactly if
every failed call that another call follows leaves a last block without a terminator in it. -/
theorem inOrder_iff_unbroken (s : σ) (charset : Charset) (bufferSize n : Nat) :
    let r := LineReader.over ({ inner := s } : Recorded σ) charset bufferSize
    (∀ k, r.outcome k = (LineReader.over s charset bufferSize).outcome k) ∧
    (∀ k < n, Answered (r.outcome k) → Spans charset (r.delivered n)
      (place (r.delivered n) (r.after k)) (place (r.delivered n) (r.after (k + 1)))
      (r.outcome k)) ∧
    (InOrder r n ↔
      ∀ i e, i + 1 < n → r.outcome i = .error (.io e) → Unbroken (r.after (i + 1)).block) := by
  intro r
  have hkept : Kept r := kept_over s charset bufferSize
  refine ⟨fun k => ?_, fun k hk ho => ?_, fun hin i e hi ho => ?_, fun hub j k hjk hk _ _ => ?_⟩
  · exact (outcome_through Recorded.read_inner r k).symm
  · have hspans := (passage_after hkept hk).spans ho
    rwa [charset_after] at hspans
  · exact unbroken_of_inOrder hkept (not_behind rfl) hin hi ho
  · exact place_le_place_iff.mpr (upcoming_antitone hkept hub hjk hk)

/-! ### A line that is answered twice -/

/-- A device that fails. -/
def deviceFailure : IoError := .device (ascii "simulated device failure") Errno.inputOutput

/-- A reader over a source of one line, `a`, that fails every read behind it. With `left` still
to be delivered, the reader is in front of what is `unread` of its last block. -/
def rereadSample (left block unread : Bytes) (lineNumber : Nat) :
    LineReader (Recorded (Faulty MemorySource)) :=
  { source :=
      { inner := { inner := { rest := left }, atEnd := some deviceFailure }, delivered := block },
    bufferSize := 4, block, unread, lineNumber }

/-- The first call answers the line; the second fails and puts the block back; the third finds
the line in it again. -/
theorem after_rereadSample :
    let r := rereadSample (ascii "a\n") [] [] 0
    r.readLine = (decoded .utf8 (ascii "a"), rereadSample [] (ascii "a\n") [] 1) ∧
    (r.after 1).readLine =
      (.error (.io deviceFailure), rereadSample [] (ascii "a\n") (ascii "a\n") 1) ∧
    (r.after 2).readLine = (decoded .utf8 (ascii "a"), rereadSample [] (ascii "a\n") [] 2) := by
  intro r
  have hfirst : r.readLine =
      (decoded .utf8 (ascii "a"), rereadSample [] (ascii "a\n") [] 1) := by
    rw [readLine, gather_block (b := 0x61) rfl rfl rfl,
      gather_terminator (b := 0x61) (t := Ascii.lf) rfl (by decide) rfl]
    rfl
  have hsecond : (r.after 1).readLine =
      (.error (.io deviceFailure), rereadSample [] (ascii "a\n") (ascii "a\n") 1) := by
    rw [after, after, hfirst, readLine, gather_error (e := deviceFailure) rfl rfl rfl]
    rfl
  refine ⟨hfirst, hsecond, ?_⟩
  rw [after, hsecond, readLine,
    gather_terminator (b := 0x61) (t := Ascii.lf) rfl (by decide) rfl]
  rfl

theorem not_inOrder_rereadSample :
    let r := LineReader.over
      ({ inner := { inner := { rest := ascii "a\n" }, atEnd := some deviceFailure } } :
        Recorded (Faulty MemorySource)) .utf8 4
    r.delivered 3 = ascii "a\n" ∧ r.outcome 0 = .ok (some (ascii "a")) ∧
      r.outcome 1 = .error (.io deviceFailure) ∧ r.outcome 2 = .ok (some (ascii "a")) ∧
      ¬ r.InOrder 3 := by
  intro r
  obtain ⟨hfirst, hsecond, hthird⟩ := after_rereadSample
  have ha : decoded .utf8 (ascii "a") = .ok (some (ascii "a")) := by decide +kernel
  refine ⟨congrArg (·.2.source.delivered) hthird, (congrArg Prod.fst hfirst).trans ha,
    congrArg Prod.fst hsecond, (congrArg Prod.fst hthird).trans ha, fun hin => ?_⟩
  have hub := unbroken_of_inOrder (kept_over _ _ _) (not_behind rfl) hin (i := 1) (by decide)
    (congrArg Prod.fst hsecond)
  have hblock : (r.after 2).block = ascii "a\n" := congrArg (·.2.block) hsecond
  exact not_unbroken_of_mem (t := Ascii.lf) (by decide) (by decide) (hblock ▸ hub)

end LineReader

end DoctypeProbe
