import DoctypeProbe.Proofs.Detector.Advance
import DoctypeProbe.Proofs.Source.Breaking

/-!
# Decisions Are Made Forward

A scan decides at the first line that does, as soon as it has seen what ends the line. What
comes after that is not looked at: other bytes, bytes that do not decode, or the failure of
the source. As long as no terminated line has decided, on the other hand, a failure is passed
on, also if an unterminated line was being gathered that would have decided.

Whether a line is terminated is settled by the first byte of what ends it. A carriage return
at the very end of what a source delivers ends a line, and the scan does not wait to see
whether a line feed follows.

## Main results

* `LineReader.AheadUntil.readLine`: one call over a source that breaks off.
* `Detector.scan_of_aheadUntil`: a scan over a source that breaks off.
* `Detector.detect_forward_only`: what is decided stays decided.
-/

namespace DoctypeProbe

variable {σ : Type} [InputSource σ]

namespace LineReader

open Lines

/-! ### Reading until a failure -/

/-- The terminated lines that a reader still has ahead until its source breaks off. -/
def AheadUntil (e : IoError) (r : LineReader σ) (lines : List Bytes) : Prop :=
  ∃ left, lines = ofText (finished (resume r.afterReturn (r.unread ++ left))) ∧
    0 < r.bufferSize ∧ r.atEnd = false ∧ BreaksOff e r.source left

/-- A new reader has the terminated lines of its source ahead. -/
theorem aheadUntil_over {e : IoError} {s : σ} {d : Bytes} (h : BreaksOff e s d)
    (charset : Charset) (bufferSize : Nat) :
    AheadUntil e (LineReader.over s charset bufferSize) (ofText (finished d)) := by
  refine ⟨d, ?_, ?_, rfl, h⟩
  · rw [LineReader.over, List.nil_append, resume_false]
  · simp only [LineReader.over]
    omega

/-- **One call** over a source that breaks off answers the first terminated line ahead. Without
one it fails as the source does. -/
theorem AheadUntil.readLine {e : IoError} {r : LineReader σ} {lines : List Bytes}
    (h : AheadUntil e r lines) :
    (∃ raw rest r', lines = raw :: rest ∧ r.readLine = (decoded r.charset raw, r') ∧
      AheadUntil e r' rest ∧ r'.charset = r.charset ∧ Reached r.source r'.source) ∨
    (lines = [] ∧ ∃ r', r.readLine = (.error (.io e), r')) := by
  obtain ⟨left, hlines, hsize, hend, hleft⟩ := h
  obtain ⟨out, r', n, hg, hr⟩ := exists_gathered r
  cases hg with
  | @line blocks s line t tail hp _ ht hl hterm _ =>
      obtain ⟨left', rfl, hs⟩ := hleft.pulls hsize hp
      have hne : r.unread ++ blocks.flatten ≠ [] := fun h => by simp [h] at ht
      refine Or.inl ⟨line, _, _, ?_, hr, ⟨left', rfl, hsize, hend, hs⟩, rfl, hp.reached⟩
      rw [hlines, ← List.append_assoc, resume_append hne, ht, List.append_assoc, List.cons_append,
        finished_append_terminator hterm, ofText_append_terminator hl hterm, finished_resume]
  | exhausted he => exact absurd he (by simp [hend])
  | ended hp _ hr' =>
      obtain ⟨left', rfl, hs⟩ := hleft.pulls hsize hp
      rcases hs.read hsize with ⟨-, s', hr''⟩ | ⟨bs, s', tail, hr'', hne, -⟩
      · rw [hr'] at hr''
        cases hr''
      · rw [hr'] at hr''
        cases hr''
        exact absurd rfl hne
  | failed hp _ hr' hub =>
      obtain ⟨left', rfl, hs⟩ := hleft.pulls hsize hp
      rcases hs.read hsize with ⟨rfl, s', hr''⟩ | ⟨bs, s', tail, hr'', -⟩
      · rw [hr'] at hr''
        cases hr''
        rw [List.append_nil, finished_of_unbroken hub] at hlines
        exact Or.inr ⟨hlines, _, hr⟩
      · rw [hr'] at hr''
        cases hr''

end LineReader

namespace Detector

open Lines

section

variable [Alphabet]

/-! ### Scanning until a failure -/

/-- **A scan over a source that breaks off** ends at the first terminated line that decides, or
with the failure if there is none. Induction on the lines ahead: each line read takes one off. -/
theorem scan_of_aheadUntil {e : IoError} {r : LineReader σ} {lines : List Bytes}
    (h : LineReader.AheadUntil e r lines) (inside : Bool) :
    (∃ mode result r', advance r.charset inside lines = .error mode ∧
      scan inside r = (result, r') ∧ verdict result = .ok mode ∧ Reached r.source r'.source) ∨
    (∃ inside' r', advance r.charset inside lines = .ok inside' ∧
      scan inside r = (.error (.io e), r')) := by
  induction lines generalizing r inside with
  | nil =>
      rcases h.readLine with ⟨raw, rest, r', hl, -⟩ | ⟨-, r', hr⟩
      · cases hl
      · exact Or.inr ⟨inside, r', rfl, scan_error hr⟩
  | cons raw lines ih =>
      rcases h.readLine with ⟨_, _, r', hl, hr, ha, hc, hsrc⟩ | ⟨hl, -⟩
      · cases hl
        rw [advance_cons]
        rcases scan_decoded hr inside with ⟨mode, result, hadv, hs, hv⟩ | ⟨inside', hadv, hs⟩
        · exact Or.inl ⟨mode, result, r', by rw [hadv]; rfl, hs, hv, hsrc⟩
        · rw [hadv, hs, ← hc]
          refine (ih ha inside').imp ?_ id
          rintro ⟨mode, result, r'', hadv', hs', hv, hsrc'⟩
          exact ⟨mode, result, r'', hadv', hs', hv, hsrc.trans hsrc'⟩
      · cases hl

/-! ### Decisions -/

/-- The mode that the first terminated line of a text to decide gives it. -/
def terminatedDecision (charset : Charset) (p : Bytes) : Option Mode :=
  (outsideComments charset false (ofText (finished p))).findSome? decision?

/-- **What a terminated line decides** is not changed by the bytes that follow. -/
theorem modeOf_append_of_terminated {charset : Charset} {p : Bytes} {mode : Mode}
    (h : terminatedDecision charset p = some mode) (q : Bytes) :
    modeOf charset (p ++ q) = mode := by
  rw [terminatedDecision, findSome?_eq_decided] at h
  obtain ⟨lines, hl⟩ := ofText_finished_append p q
  rw [modeOf, hl, modeOfLines_eq_decided, advance_append]
  cases hadv : advance charset false (ofText (finished p)) with
  | error mode' =>
      rw [hadv] at h
      cases h
      rfl
  | ok inside =>
      rw [hadv] at h
      cases h

/-- **A detection over a source that breaks off** answers what a terminated line decides, or
fails as the source does. -/
theorem detect_of_breaksOff (options : Options) {p : Bytes} {e : IoError} {s : σ}
    (h : BreaksOff e s p) :
    (∃ mode, terminatedDecision options.charset p = some mode ∧ Answers options s mode) ∨
      (terminatedDecision options.charset p = none ∧ (detect options s).outcome = .error e) := by
  rw [terminatedDecision, findSome?_eq_decided]
  have hahead := LineReader.aheadUntil_over h options.charset options.bufferSize
  rcases scan_of_aheadUntil hahead false with
    ⟨mode, result, r, hadv, hscan, hv, hsrc⟩ | ⟨inside, r, hadv, hscan⟩
  · refine Or.inl ⟨mode, congrArg decided hadv, r.source, hsrc, ?_⟩
    rw [detect_outcome, hscan]
    simp only [hv]
    rfl
  · refine Or.inr ⟨congrArg decided hadv, ?_⟩
    rw [detect_outcome, hscan]
    rfl

/-- **Detection decides forward only.** What a terminated line of `p` decides is the mode of
`p`, of every continuation of `p`, and over every source that breaks off behind `p`. If no
terminated line of `p` decides, a source that breaks off behind `p` makes the detection fail
in the same way. -/
theorem detect_forward_only (options : Options) (p : Bytes) :
    (∀ mode, terminatedDecision options.charset p = some mode →
      (∀ {σ : Type} [InputSource σ] (s : σ), Delivers s p → Answers options s mode) ∧
      (∀ {σ : Type} [InputSource σ] (q : Bytes) (s : σ), Delivers s (p ++ q) →
        Answers options s mode) ∧
      (∀ {σ : Type} [InputSource σ] (e : IoError) (s : σ), BreaksOff e s p →
        Answers options s mode)) ∧
    (terminatedDecision options.charset p = none →
      ∀ {σ : Type} [InputSource σ] (e : IoError) (s : σ), BreaksOff e s p →
        (detect options s).outcome = .error e) := by
  refine ⟨fun mode hmode => ⟨?_, ?_, ?_⟩, ?_⟩
  · intro σ _ s h
    rw [← modeOf_append_of_terminated hmode [], List.append_nil]
    exact answers_of_delivers options h
  · intro σ _ q s h
    rw [← modeOf_append_of_terminated hmode q]
    exact answers_of_delivers options h
  · intro σ _ e s h
    rcases detect_of_breaksOff options h with ⟨mode', hmode', ha⟩ | ⟨hnone, -⟩
    · rw [hmode] at hmode'
      cases hmode'
      exact ha
    · rw [hmode] at hnone
      cases hnone
  · intro hnone σ _ e s h
    rcases detect_of_breaksOff options h with ⟨mode', hmode', -⟩ | ⟨-, ho⟩
    · rw [hnone] at hmode'
      cases hmode'
    · exact ho

end

/-- A line that declares a document type, ended by a carriage return. -/
def endedSample : Bytes := ascii "<!-- a -->\n<!DOCTYPE r>\r"

/-- The declaration in a line that nothing ends. -/
def openSample : Bytes := ascii "<!-- a -->\n<!DOCTYPE r>"

/-- A source that fails behind the bytes it delivers. -/
def failingBehind (e : IoError) (d : Bytes) : Faulty MemorySource :=
  { inner := { rest := d }, atEnd := some e }

theorem detect_endedSample :
    terminatedDecision .utf8 endedSample = some .dtd ∧
    terminatedDecision .utf8 openSample = none ∧
    Answers { bufferSize := 3 } ({ rest := endedSample, description := [] } : MemorySource) .dtd ∧
    Answers { bufferSize := 3 }
      ({ rest := endedSample ++ [Ascii.lf, 0xFF], description := [] } : MemorySource) .dtd ∧
    Answers { bufferSize := 3 } (failingBehind (.device [] 5) endedSample) .dtd ∧
    (detect { bufferSize := 3 } (failingBehind (.device [] 5) openSample)).outcome =
      .error (.device [] 5) := by
  have hended : terminatedDecision .utf8 endedSample = some .dtd := by decide +kernel
  have hopen : terminatedDecision .utf8 openSample = none := by decide +kernel
  obtain ⟨hp, hq, hfail⟩ := (detect_forward_only { bufferSize := 3 } endedSample).1 _ hended
  refine ⟨hended, hopen, hp _ (delivers_memory _ _), hq _ _ (delivers_memory _ _),
    hfail (.device [] 5) _ (breaksOff_faulty (delivers_memory _ _) _ _), ?_⟩
  exact (detect_forward_only { bufferSize := 3 } openSample).2 hopen _ _
    (breaksOff_faulty (delivers_memory _ _) _ _)

end Detector

end DoctypeProbe
