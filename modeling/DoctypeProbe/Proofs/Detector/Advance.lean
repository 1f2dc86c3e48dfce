import DoctypeProbe.Proofs.Detector.Mode
import DoctypeProbe.Proofs.Text.Calls

/-!
# One Line After the Other

A scan stops at the first line that decides, and carries one bit from every line before it to
the next. `advance` is that walk over the raw lines of a document, without a source and
without an end: it answers the mode if a line decides, and otherwise the bit that the lines
hand on, so that a document can be walked part after part.

## Main results

* `Detector.advance_append`: a document is walked part after part.
* `Detector.findSome?_eq_decided`, `Detector.modeOfLines_eq_decided`: the walk finds the first
  line that decides.
* `Detector.scan_decoded`: one line of a scan is one step of the walk.
-/

namespace DoctypeProbe

namespace Detector

variable [Alphabet]

/-- What one line does to a scan: it gives the mode, or hands on whether a comment is open. -/
def advanceLine (charset : Charset) (inside : Bool) (raw : Bytes) : Except Mode Bool :=
  match charset.decode raw with
  | .error _ => .error .auto
  | .ok line =>
    match finding? inside line with
    | (some finding, _) => .error finding.mode
    | (none, inside') => .ok inside'

/-- What lines do to a scan: the first that decides gives the mode. -/
def advance (charset : Charset) (inside : Bool) (raws : List Bytes) : Except Mode Bool :=
  raws.foldlM (advanceLine charset) inside

/-- The mode that has been given, if one has. -/
def decided : Except Mode Bool → Option Mode
  | .error mode => some mode
  | .ok _ => none

theorem advance_cons (charset : Charset) (inside : Bool) (raw : Bytes) (raws : List Bytes) :
    advance charset inside (raw :: raws) =
      (advanceLine charset inside raw).bind fun inside' => advance charset inside' raws := rfl

/-- **A document is walked part after part.** -/
theorem advance_append (charset : Charset) (inside : Bool) (raws more : List Bytes) :
    advance charset inside (raws ++ more) =
      (advance charset inside raws).bind fun inside' => advance charset inside' more :=
  List.foldlM_append

/-- A line that decodes decides what it shows. -/
theorem advanceLine_of_decode {charset : Charset} {raw line : Bytes}
    (h : charset.decode raw = .ok line) (inside : Bool) :
    advanceLine charset inside raw =
      match finding? inside line with
      | (some finding, _) => .error finding.mode
      | (none, inside') => .ok inside' := by
  simp only [advanceLine, h]

/-- **The walk finds the first line that decides.** -/
theorem findSome?_eq_decided (charset : Charset) (inside : Bool) (raws : List Bytes) :
    (outsideComments charset inside raws).findSome? decision? =
      decided (advance charset inside raws) := by
  induction raws generalizing inside with
  | nil => rfl
  | cons raw raws ih =>
      rw [findSome?_outsideComments_cons, advance_cons, advanceLine]
      cases charset.decode raw with
      | error e => rfl
      | ok line =>
          rcases hf : finding? inside line with ⟨_ | finding, inside'⟩
          · simp only [hf]
            exact ih inside'
          · simp only [hf]
            rfl

theorem modeOfLines_eq_decided (charset : Charset) (inside : Bool) (raws : List Bytes) :
    modeOfLines charset inside raws = (decided (advance charset inside raws)).getD .xsd := by
  rw [← findSome?_eq_decided, findSome?_outsideComments]

variable {σ : Type} [InputSource σ]

/-- **One line of a scan** is one step of the walk: it decides, and the scan ends there, or the
scan goes on with what the line hands on. -/
theorem scan_decoded {r r' : LineReader σ} {raw : Bytes}
    (h : r.readLine = (LineReader.decoded r.charset raw, r')) (inside : Bool) :
    (∃ mode result, advanceLine r.charset inside raw = .error mode ∧
      scan inside r = (result, r') ∧ verdict result = .ok mode) ∨
    (∃ inside', advanceLine r.charset inside raw = .ok inside' ∧
      scan inside r = scan inside' r') := by
  rw [LineReader.decoded] at h
  cases hd : r.charset.decode raw with
  | error e =>
      rw [hd] at h
      exact Or.inl ⟨.auto, _, by rw [advanceLine, hd], scan_error h, rfl⟩
  | ok line =>
      rw [hd] at h
      rw [advanceLine_of_decode hd, scan_line h]
      rcases finding? inside line with ⟨_ | finding, inside'⟩
      · exact Or.inr ⟨inside', rfl, rfl⟩
      · exact Or.inl ⟨finding.mode, _, rfl, rfl, rfl⟩

/-! ### Outcomes -/

/-- A detection answers a mode, unless the source that it has read some of then fails to
close. -/
def Answers (options : Options) (s : σ) (mode : Mode) : Prop :=
  ∃ s', Reached s s' ∧ (detect options s).outcome = (InputSource.close s').1.map fun _ => mode

/-- What has been answered is the only mode that can be. -/
theorem Answers.eq_of_outcome {options : Options} {s : σ} {mode mode' : Mode}
    (h : Answers options s mode) (ho : (detect options s).outcome = .ok mode') : mode = mode' := by
  obtain ⟨s', -, hclose⟩ := h
  rw [hclose] at ho
  cases hc : (InputSource.close s').1 with
  | error e =>
      rw [hc] at ho
      cases ho
  | ok _ =>
      rw [hc] at ho
      exact Except.ok.inj ho

theorem answers_of_delivers (options : Options) {s : σ} {d : Bytes} (h : Delivers s d) :
    Answers options s (modeOf options.charset d) :=
  detect_of_delivers options h

end Detector

end DoctypeProbe
