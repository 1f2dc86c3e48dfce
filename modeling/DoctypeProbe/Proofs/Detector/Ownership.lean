import DoctypeProbe.Proofs.Detector.Run
import DoctypeProbe.Proofs.Source.Trace

/-!
# Owning a Source

A detection owns the source that it is given, and the source is destroyed when the detection
ends, on whatever path. Before that it is closed, once and behind the last read; only a failed
read keeps it from being closed. What the scan has found is answered unless closing fails.

The life of a source is seen by tracing it, which does not change what a detection does: a
detection depends on its source through the answers of its operations alone.

## Main results

* `Detector.detect_through`: a detection through to another source.
* `Detector.modeOfLines_eq_auto_iff`: a mode left open is a document that fails to decode.
* `Detector.detectOwned_closes`: the life of a source that a detection is given.
-/

namespace DoctypeProbe

namespace Detector

open Lines LineReader Traced

variable [Alphabet] {σ : Type} [InputSource σ]

/-! ### Detecting through to another source -/

section

variable {τ : Type} [InputSource τ] {f : σ → τ}

/-- **Scanning through** to another source, if reads correspond. -/
theorem scan_through
    (hf : ∀ s n, InputSource.read (f s) n = (InputSource.read s n).map id f) (inside : Bool)
    (r : LineReader σ) : scan inside (r.through f) = (scan inside r).map id (through f) := by
  have hread : ∀ {r r' : LineReader σ} {line}, r.readLine = (line, r') →
      (r.through f).readLine = (line, r'.through f) :=
    fun h => by rw [readLine_through hf, h]; rfl
  fun_induction scan inside r with
  | case1 inside r e r' h => exact scan_error (hread h)
  | case2 inside r r' h => exact scan_end (hread h)
  | case3 inside r line r' h finding inside' hfinding =>
      rw [scan_line (hread h), hfinding]
      rfl
  | case4 inside r line r' h inside' hfinding ih =>
      rw [scan_line (hread h), hfinding]
      exact ih

/-- **Detecting through** to another source, if all operations correspond. -/
theorem detect_through
    (hf : ∀ s n, InputSource.read (f s) n = (InputSource.read s n).map id f)
    (hclose : ∀ s, InputSource.close (f s) = (InputSource.close s).map id f)
    (hname : ∀ s, InputSource.description (f s) = InputSource.description s)
    (options : Options) (s : σ) :
    detect options (f s) =
      { outcome := (detect options s).outcome, log := (detect options s).log,
        source := f (detect options s).source } := by
  have hs := scan_through hf false (LineReader.over s options.charset options.bufferSize)
  have hover : (LineReader.over s options.charset options.bufferSize).through f =
      LineReader.over (f s) options.charset options.bufferSize := rfl
  rw [hover] at hs
  rw [detect, detect, hs]
  rcases scan false (LineReader.over s options.charset options.bufferSize) with
    ⟨(e | e) | _ | ⟨finding, line⟩, r⟩ <;>
  simp [conclude, through, hclose, hname]

end

/-! ### Documents that fail to decode -/

/-- The first line of a document that does not decode comes before any line that decides. -/
def FailsToDecode (charset : Charset) (inside : Bool) (raws : List Bytes) : Prop :=
  ∃ front raw back inside' e, raws = front ++ raw :: back ∧
    advance charset inside front = .ok inside' ∧ charset.decode raw = .error e

theorem failsToDecode_cons {charset : Charset} {inside inside' : Bool} {raw : Bytes}
    {raws : List Bytes} (h : advanceLine charset inside raw = .ok inside') :
    FailsToDecode charset inside (raw :: raws) ↔ FailsToDecode charset inside' raws := by
  constructor
  · rintro ⟨_ | ⟨raw', front⟩, x, back, i, e, hsplit, hfront, hx⟩
    · obtain ⟨rfl, -⟩ := List.cons.inj hsplit
      rw [advanceLine, hx] at h
      cases h
    · obtain ⟨rfl, rfl⟩ := List.cons.inj hsplit
      rw [advance_cons, h] at hfront
      exact ⟨front, x, back, i, e, rfl, hfront, hx⟩
  · rintro ⟨front, x, back, i, e, rfl, hfront, hx⟩
    exact ⟨raw :: front, x, back, i, e, rfl, by rw [advance_cons, h]; exact hfront, hx⟩

/-- A line that gives the mode leaves it open if the line does not decode. -/
theorem failsToDecode_of_error {charset : Charset} {inside : Bool} {raw : Bytes} {mode : Mode}
    (h : advanceLine charset inside raw = .error mode) (raws : List Bytes) :
    FailsToDecode charset inside (raw :: raws) ↔ mode = .auto := by
  cases hd : charset.decode raw with
  | error e =>
      rw [advanceLine, hd] at h
      cases h
      exact iff_of_true ⟨[], raw, raws, inside, e, rfl, rfl, hd⟩ rfl
  | ok line =>
      refine iff_of_false ?_ fun hauto => ?_
      · rintro ⟨_ | ⟨raw', front⟩, x, back, i, e, hsplit, hfront, hx⟩
        · obtain ⟨rfl, -⟩ := List.cons.inj hsplit
          cases hd.symm.trans hx
        · obtain ⟨rfl, -⟩ := List.cons.inj hsplit
          rw [advance_cons, h] at hfront
          cases hfront
      · rw [advanceLine_of_decode hd] at h
        rcases hf : finding? inside line with ⟨_ | finding, inside'⟩
        · rw [hf] at h
          cases h
        · rw [hf] at h
          exact finding.mode_ne_auto ((Except.error.inj h).trans hauto)

/-- **A mode left open** is that of a document that fails to decode. -/
theorem modeOfLines_eq_auto_iff {charset : Charset} {inside : Bool} {raws : List Bytes} :
    modeOfLines charset inside raws = .auto ↔ FailsToDecode charset inside raws := by
  rw [modeOfLines_eq_decided]
  induction raws generalizing inside with
  | nil =>
      refine iff_of_false (fun h => nomatch h) ?_
      rintro ⟨front, raw, back, -, -, h, -⟩
      exact absurd h (by simp)
  | cons raw raws ih =>
      rw [advance_cons]
      cases hline : advanceLine charset inside raw with
      | ok inside' => exact ih.trans (failsToDecode_cons hline).symm
      | error mode => exact (failsToDecode_of_error hline raws).symm

/-! ### The life of a source -/

/-- A detection that is given a source, which may be missing, owns it: the source is destroyed
when the detection ends. -/
def detectOwned (options : Options) (source : Option (Traced σ)) :
    Except Misuse (Detection (Traced σ)) :=
  (detectGiven options source).map fun run => { run with source := run.source.destroy }

/-- The source has been read and then closed, and what its bytes decide is answered, unless
closing has failed. One warning is logged if they fail to decode. -/
def ClosedOnce (options : Options) (run : Detection (Traced σ)) : Prop :=
  ∃ answers closed, run.source.events = reads answers ++ [.close closed, .destroy] ∧
    run.outcome = (closed.map fun _ => modeOf options.charset answers.flatten) ∧
    (FailsToDecode options.charset false (ofText answers.flatten) →
      ∃ text, run.log = [⟨.warning, text⟩]) ∧
    (¬ FailsToDecode options.charset false (ofText answers.flatten) →
      ∀ record ∈ run.log, record.level ≠ .warning)

/-- The source has been read until a read failed, and that failure is passed on. -/
def NeverClosed (run : Detection (Traced σ)) : Prop :=
  ∃ answers e, run.source.events = reads answers ++ [.read (.error e), .destroy] ∧
    run.outcome = .error e ∧ run.log = []

/-- A detection that closes its source behind successful reads. -/
theorem closedOnce_of_verdict {options : Options} {t : Traced σ}
    {result : Except ReadError (Option (Finding × Nat))} {r : LineReader (Traced σ)}
    {answers : List Bytes}
    (h : scan false (LineReader.over t options.charset options.bufferSize) = (result, r))
    (hv : verdict result = .ok (modeOf options.charset answers.flatten))
    (hr : r.source.events = reads answers) :
    ClosedOnce options
      { detect options t with source := (detect options t).source.destroy } := by
  obtain ⟨log, hd, hlog⟩ := detect_of_verdict options h hv
  have hauto : modeOf options.charset answers.flatten = .auto ↔
      FailsToDecode options.charset false (ofText answers.flatten) := modeOfLines_eq_auto_iff
  rw [hd]
  refine ⟨answers, (InputSource.close r.source).1, ?_, rfl, fun hf => ?_, fun hf => ?_⟩
  · change (r.source.events ++ [_]) ++ [_] = _
    rw [hr, List.append_assoc]
    rfl
  · rcases hlog with ⟨-, e, he⟩ | ⟨hne, -⟩
    · exact ⟨_, he⟩
    · exact absurd (hauto.mpr hf) hne
  · rcases hlog with ⟨ha, -⟩ | ⟨-, hnone⟩
    · exact absurd (hauto.mp ha) hf
    · exact hnone

/-- **The life of a source** is to be read and then closed, or to be read until a read fails. -/
theorem closedOnce_or_neverClosed (options : Options) (s : σ) :
    let run := detect options ({ inner := s } : Traced σ)
    ClosedOnce options { run with source := run.source.destroy } ∨
      NeverClosed { run with source := run.source.destroy } := by
  have hscanned :=
    scanned_over ({ inner := s } : Traced σ) options.charset options.bufferSize
  rcases hscan : scan false
    (LineReader.over ({ inner := s } : Traced σ) options.charset options.bufferSize) with
    ⟨result, r⟩
  rw [hscan] at hscanned
  cases hscanned with
  | @decided blocks _ mode _ hp _ hat hv =>
      have hmode := modeOf_append_of_terminated hat []
      rw [List.append_nil] at hmode
      exact Or.inl (closedOnce_of_verdict hscan (hmode.symm ▸ hv) (events_of_pulls hp))
  | @ended blocks _ _ _ hp hread _ hv =>
      -- the read that finds nothing is one of the reads
      have hflatten : (blocks ++ [[]]).flatten = blocks.flatten := by simp
      refine Or.inl (closedOnce_of_verdict hscan (hflatten.symm ▸ hv) ?_)
      rw [events_of_read hread, events_of_pulls hp, reads, reads, List.map_append]
      rfl
  | @failed blocks _ _ e hp hread _ =>
      refine Or.inr ⟨blocks, e, ?_, ?_, ?_⟩
      · rw [detect_of_failed options hscan]
        change (r.source.events ++ [_]) = _
        rw [events_of_read hread, events_of_pulls hp, List.append_assoc]
        rfl
      · rw [detect_of_failed options hscan]
      · rw [detect_of_failed options hscan]

omit [InputSource σ] in
/-- A source that has been closed has seen no failed read, and the other way round. -/
theorem not_closed_iff {options : Options} {run : Detection (Traced σ)}
    (h : ClosedOnce options run ∨ NeverClosed run) :
    (∀ closed, .close closed ∉ run.source.events) ↔
      ∃ e, .read (.error e) ∈ run.source.events := by
  rcases h with ⟨answers, closed, hevents, -⟩ | ⟨answers, e, hevents, -⟩
  · refine iff_of_false (fun hnot => hnot closed ?_) ?_
    · simp [hevents]
    · rintro ⟨e, he⟩
      simp [hevents, reads] at he
  · refine iff_of_true (fun closed hclosed => ?_) ⟨e, by simp [hevents]⟩
    simp [hevents, reads] at hclosed

/-- **A detection closes its source exactly once**, behind the last read, unless a read fails:
then it is not closed at all, and the failure is passed on. The source is destroyed in either
case. What is answered and logged is what the same detection answers and logs of the source
without its trace. A missing source is refused. -/
theorem detectOwned_closes (options : Options) (s : σ) :
    (∃ run, detectOwned options (some ({ inner := s } : Traced σ)) = .ok run ∧
      run.outcome = (detect options s).outcome ∧ run.log = (detect options s).log ∧
      (ClosedOnce options run ∨ NeverClosed run) ∧
      ((∀ closed, .close closed ∉ run.source.events) ↔
        ∃ e, .read (.error e) ∈ run.source.events)) ∧
    detectOwned options (none : Option (Traced σ)) = .error .noSource := by
  have hinner : detect options s = _ :=
    detect_through (f := inner) (fun _ _ => rfl) (fun _ => rfl) (fun _ => rfl) options
      ({ inner := s } : Traced σ)
  have hlife := closedOnce_or_neverClosed options s
  exact ⟨⟨_, rfl, by rw [hinner], by rw [hinner], hlife, not_closed_iff hlife⟩, rfl⟩

end Detector

end DoctypeProbe
