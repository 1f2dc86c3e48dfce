import DoctypeProbe.Detector
import DoctypeProbe.Proofs.Text.LineReader

/-!
# Scanning the Lines of a Source

A scan reads lines from a source until one of them decides. This module takes the source out
of it: over a source that delivers its bytes, a scan ends as `modeOfLines` says for the lines
of these bytes, whatever the size of the blocks read and of the answers that fill them.

## Main results

* `Detector.scan_of_ahead`: the end of a scan, from the lines ahead of its reader.
* `Detector.detect_of_delivers`: the outcome of a detection, from the bytes of its source.
-/

namespace DoctypeProbe

namespace Detector

variable [Alphabet] {σ : Type} [InputSource σ]

/-! ### One line of a scan -/

theorem scan_error {inside : Bool} {r r' : LineReader σ} {e : ReadError}
    (h : r.readLine = (.error e, r')) : scan inside r = (.error e, r') := by
  rw [scan]
  split <;> simp_all

theorem scan_end {inside : Bool} {r r' : LineReader σ} (h : r.readLine = (.ok none, r')) :
    scan inside r = (.ok none, r') := by
  rw [scan]
  split <;> simp_all

theorem scan_line {inside : Bool} {r r' : LineReader σ} {line : Bytes}
    (h : r.readLine = (.ok (some line), r')) :
    scan inside r =
      match finding? inside line with
      | (some finding, _) => (.ok (some (finding, r'.lineNumber)), r')
      | (none, inside') => scan inside' r' := by
  rw [scan]
  split
  · simp_all
  · simp_all
  · rename_i line' r'' h'
    rw [h] at h'
    cases h'
    rfl

/-! ### Whole scans -/

/-- What the end of a scan says about the document, unless its source failed. -/
def verdict : Except ReadError (Option (Finding × Nat)) → Except IoError Mode
  | .error (.io e) => .error e
  | .error (.decoding _) => .ok .auto
  | .ok none => .ok .xsd
  | .ok (some (finding, _)) => .ok finding.mode

omit [Alphabet] in
theorem Finding.mode_ne_auto (finding : Finding) : finding.mode ≠ .auto := by
  cases finding <;> decide

/-- **A scan ends as the lines ahead say**, and only reads from its source. Induction on the
lines ahead: each line read takes one off. -/
theorem scan_of_ahead {r : LineReader σ} {lines : List Bytes} (h : r.Ahead lines)
    (inside : Bool) : ∃ result r', scan inside r = (result, r') ∧
      verdict result = .ok (modeOfLines r.charset inside lines) ∧
      Reached r.source r'.source := by
  induction lines generalizing r inside with
  | nil =>
      obtain ⟨r', hr, -, hv⟩ := h.readLine_nil
      exact ⟨_, r', scan_end hr, rfl, hv.source⟩
  | cons raw lines ih =>
      obtain ⟨r', hr, ha, hv⟩ := h.readLine_cons
      cases hd : r.charset.decode raw with
      | error e =>
          rw [hd] at hr
          exact ⟨_, r', scan_error hr, by simp [verdict, modeOfLines, hd], hv.source⟩
      | ok line =>
          rw [hd] at hr
          rcases hf : finding? inside line with ⟨_ | finding, inside'⟩
          · obtain ⟨result, r'', hs, hres, hsrc⟩ := ih ha inside'
            refine ⟨result, r'', ?_, ?_, hv.source.trans hsrc⟩
            · rw [scan_line hr, hf]
              exact hs
            · simp only [hres, hv.charset, modeOfLines, hd, hf]
          · refine ⟨.ok (some (finding, r'.lineNumber)), r', ?_, ?_, hv.source⟩
            · rw [scan_line hr, hf]
            · simp only [verdict, modeOfLines, hd, hf]

/-- A detection passes a failed read on; otherwise it closes the source that its scan left,
and answers what the scan says unless closing fails. -/
theorem detect_outcome (options : Options) (s : σ) :
    (detect options s).outcome =
      match scan false (LineReader.over s options.charset options.bufferSize) with
      | (result, r) => (verdict result).bind fun mode =>
          (InputSource.close r.source).1.map fun _ => mode := by
  rw [detect]
  rcases scan false (LineReader.over s options.charset options.bufferSize) with
    ⟨(e | e) | _ | ⟨finding, line⟩, r⟩ <;> rfl

/-- **A detection decides on the bytes its source delivers**: it reads some of them, and
answers their mode unless the source then fails to close. -/
theorem detect_of_delivers (options : Options) {s : σ} {d : Bytes} (h : Delivers s d) :
    ∃ s', Reached s s' ∧ (detect options s).outcome =
      (InputSource.close s').1.map fun _ => modeOf options.charset d := by
  obtain ⟨result, r, hs, hres, hsrc⟩ :=
    scan_of_ahead (LineReader.ahead_over h options.charset options.bufferSize) false
  refine ⟨r.source, hsrc, ?_⟩
  rw [detect_outcome, hs]
  simp only [hres]
  rfl

end Detector

end DoctypeProbe
