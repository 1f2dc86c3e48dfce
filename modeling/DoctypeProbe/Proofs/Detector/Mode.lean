import DoctypeProbe.Proofs.Bytes.Search
import DoctypeProbe.Proofs.Detector.Scan
import DoctypeProbe.Resource
import Mathlib.Data.List.Infix

/-!
# The Mode of a Document

The mode of a document is a function of its bytes and its charset alone: the first of its
lines that decides gives it. This module states that function in the order in which one
would say it, `firstDecision`, and shows that every detection answers it, over whatever
source the bytes come from.

The detector also skips a line without text before it looks at it. `firstDecision` does not,
and need not: a text that declares a document type or opens an element is not blank
(`findingIn_eq`).

## Main results

* `Detector.firstDecision_eq_modeOf`: the function in the two forms.
* `Detector.detect_eq_firstDecision`: a detection answers it for every source that delivers
  the document, and so do files, memory, streams and the resources over them.
-/

namespace DoctypeProbe

namespace Detector

/-! ### The first line that decides -/

/-- What is left of the raw lines of a document outside comments, line by line: nothing of a
line that ends inside a comment or keeps no content. The walk ends at a line that does not
decode. -/
def outsideComments (charset : Charset) (inside : Bool) :
    List Bytes → List (Except DecodingError (Option Bytes))
  | [] => []
  | raw :: lines =>
    match charset.decode raw with
    | .error e => [.error e]
    | .ok line =>
      match Comment.strip inside line with
      | (content, inside') =>
        .ok (if inside' then none else content) :: outsideComments charset inside' lines

/-- What stands behind the first `<` of a text; nothing if there is none. -/
def behindLess (content : Bytes) : Bytes := (content.dropWhile (· != Ascii.less)).tail

/-- What a line decides. A line that does not decode leaves the mode open; otherwise a document
type wins over an element, which is a letter right behind the first `<`. -/
def decision? [Alphabet] : Except DecodingError (Option Bytes) → Option Mode
  | .error _ => some .auto
  | .ok none => none
  | .ok (some content) =>
    if doctype <:+: content then some .dtd
    else if Letter.startsWith (behindLess content) then some .xsd
    else none

/-- The mode that the first line to decide gives a document; without one it is `xsd`. -/
def firstDecision [Alphabet] (charset : Charset) (d : Bytes) : Mode :=
  ((outsideComments charset false (Lines.ofText d)).findSome? decision?).getD .xsd

/-! ### Blank lines decide nothing -/

theorem hasText_of_mem {content : Bytes} {b : Byte} (hb : b ∈ content)
    (h : isBlank b = false) : hasText content = true :=
  List.any_eq_true.mpr ⟨b, hb, by simp [h]⟩

theorem hasDoctype_iff {content : Bytes} : hasDoctype content = true ↔ doctype <:+: content :=
  Bytes.contains_iff

/-- A text that declares a document type is not blank. -/
theorem hasText_of_hasDoctype {content : Bytes} (h : hasDoctype content = true) :
    hasText content = true :=
  hasText_of_mem (b := 0x44) ((hasDoctype_iff.mp h).subset (by decide)) (by decide)

theorem behindLess_cons_of_ne {b : Byte} (h : b ≠ Ascii.less) (s : Bytes) :
    behindLess (b :: s) = behindLess s := by
  rw [behindLess, List.dropWhile_cons, if_pos (bne_iff_ne.mpr h), behindLess]

section

variable [Alphabet]

/-- The test for opening tags asks for a letter right behind the first `<`. -/
theorem hasOpeningTag_eq (content : Bytes) :
    hasOpeningTag content = Letter.startsWith (behindLess content) := by
  induction content with
  | nil => rfl
  | cons b s ih =>
      by_cases hb : b = Ascii.less
      · subst hb
        rfl
      · have hcut : Bytes.cutAt (b :: s) [Ascii.less] =
            (Bytes.cutAt s [Ascii.less]).map fun cut => (b :: cut.1, cut.2) := by
          rw [Bytes.cutAt, if_neg]
          simpa using Ne.symm hb
        rw [behindLess_cons_of_ne hb, ← ih, hasOpeningTag, hasOpeningTag, hcut]
        cases Bytes.cutAt s [Ascii.less] <;> rfl

/-- A text with a letter behind its first `<` has a `<`. -/
theorem exists_eq_behindLess {content : Bytes}
    (h : Letter.startsWith (behindLess content) = true) :
    ∃ before, content = before ++ Ascii.less :: behindLess content := by
  induction content with
  | nil => cases h
  | cons b s ih =>
      by_cases hb : b = Ascii.less
      · subst hb
        exact ⟨[], rfl⟩
      · rw [behindLess_cons_of_ne hb] at h ⊢
        obtain ⟨before, hs⟩ := ih h
        exact ⟨b :: before, congrArg (b :: ·) hs⟩

/-- A text that opens an element is not blank. -/
theorem hasText_of_startsWith {content : Bytes}
    (h : Letter.startsWith (behindLess content) = true) : hasText content = true := by
  obtain ⟨before, hs⟩ := exists_eq_behindLess h
  refine hasText_of_mem (b := Ascii.less) ?_ (by decide)
  rw [hs]
  exact List.mem_append_right before List.mem_cons_self

/-- What a text outside comments decides, without asking whether it is blank. -/
theorem findingIn_eq (content : Bytes) :
    findingIn content =
      if doctype <:+: content then some .doctype
      else if Letter.startsWith (behindLess content) then some .element
      else none := by
  rw [findingIn, hasOpeningTag_eq]
  by_cases hd : doctype <:+: content
  · have hd' := hasDoctype_iff.mpr hd
    simp [hd, hd', hasText_of_hasDoctype hd']
  · have hd' : hasDoctype content = false := Bytes.contains_eq_false_iff.mpr hd
    by_cases ho : Letter.startsWith (behindLess content) = true
    · simp [hd, hd', ho, hasText_of_startsWith ho]
    · simp [hd, hd', ho]

theorem decision?_ok (content : Bytes) :
    decision? (.ok (some content)) = (findingIn content).map Finding.mode := by
  rw [findingIn_eq, decision?]
  split
  · rfl
  · split <;> rfl

/-! ### The two forms agree -/

/-- **One line** decides by what it shows, or leaves the decision to the lines after it. -/
theorem findSome?_outsideComments_cons (charset : Charset) (inside : Bool) (raw : Bytes)
    (lines : List Bytes) :
    (outsideComments charset inside (raw :: lines)).findSome? decision? =
      match charset.decode raw with
      | .error _ => some .auto
      | .ok line =>
        match finding? inside line with
        | (some finding, _) => some finding.mode
        | (none, inside') => (outsideComments charset inside' lines).findSome? decision? := by
  rw [outsideComments]
  cases charset.decode raw with
  | error e => rfl
  | ok line =>
      simp only [finding?]
      rcases Comment.strip inside line with ⟨_ | content, _ | _⟩
      · rfl
      · rfl
      · simp only [Bool.false_eq_true, if_false, List.findSome?_cons, decision?_ok]
        cases findingIn content <;> rfl
      · rfl

theorem findSome?_outsideComments (charset : Charset) (inside : Bool) (lines : List Bytes) :
    ((outsideComments charset inside lines).findSome? decision?).getD .xsd =
      modeOfLines charset inside lines := by
  induction lines generalizing inside with
  | nil => rfl
  | cons raw lines ih =>
      rw [findSome?_outsideComments_cons, modeOfLines]
      cases charset.decode raw with
      | error e => rfl
      | ok line =>
          rcases hf : finding? inside line with ⟨_ | finding, inside'⟩
          · simp only [hf, ih]
          · simp only [hf, Option.getD_some]

/-- **The function in the two forms.** -/
theorem firstDecision_eq_modeOf (charset : Charset) (d : Bytes) :
    firstDecision charset d = modeOf charset d :=
  findSome?_outsideComments charset false (Lines.ofText d)

/-! ### Detections -/

/-- A source that can be closed leaves the mode as the outcome. -/
theorem detect_of_closable {σ : Type} [InputSource σ] (options : Options) {s : σ} {d : Bytes}
    (h : Delivers s d) (hc : Closable s) :
    (detect options s).outcome = .ok (firstDecision options.charset d) := by
  obtain ⟨s', hs, ho⟩ := detect_of_delivers options h
  rw [ho, hc s' hs, firstDecision_eq_modeOf]
  rfl

/-- Bytes in memory are detected as they are. -/
theorem detect_memory (options : Options) (d description : Bytes) :
    (detect options ({ rest := d, description } : MemorySource)).outcome =
      .ok (firstDecision options.charset d) :=
  detect_of_closable options (delivers_memory d description) (closable_memory _)

/-- Bytes kept as a resource are detected as they are. -/
theorem resource_detect_bytes {σ : Type} [InputSource σ] (options : Options)
    (files : FileSystem) (d label : Bytes) :
    (Resource.detect options files (.bytes d label : Resource σ)).1 =
      .ok (firstDecision options.charset d) := by
  have h := detect_of_closable options
    ((delivers_memory d label).map (Opened.memory (σ := σ)) fun _ _ => rfl)
    ((closable_memory _).map Opened.memory (fun _ _ => rfl) fun _ => rfl)
  simp [Resource.detect, Resource.openSource, h, Except.mapError]

/-- A regular file is detected by its contents. -/
theorem resource_detect_file {σ : Type} [InputSource σ] (options : Options)
    {files : FileSystem} {path : Path} {d : Bytes} (h : files.contentAt? path.text = some d) :
    (Resource.detect options files (.file path : Resource σ)).1 =
      .ok (firstDecision options.charset d) := by
  obtain ⟨number, rfl, ho⟩ := openPath_of_contentAt? h
  have h := detect_of_closable options
    ((delivers_file files number path.text).map (Opened.file (σ := σ)) fun _ _ => rfl)
    ((closable_file files number 0 path.text).map Opened.file (fun _ _ => rfl) fun _ => rfl)
  simp [Resource.detect, Resource.openSource, ho, h, Except.mapError]

/-- **The mode is a function of the bytes and the charset.** Every source that delivers a
document leads to the mode its first deciding line gives it, unless the source then fails to
close; so memory, streams, files and resources with the same bytes agree. -/
theorem detect_eq_firstDecision (options : Options) (d : Bytes) :
    (∀ {σ : Type} [InputSource σ] (s : σ), Delivers s d → ∃ s', Reached s s' ∧
      (detect options s).outcome =
        (InputSource.close s').1.map fun _ => firstDecision options.charset d) ∧
    (∀ description, (detect options ({ rest := d, description } : MemorySource)).outcome =
      .ok (firstDecision options.charset d)) ∧
    (∀ description,
      (detect options ({ stream := some d, description } : StreamSource)).outcome =
        .ok (firstDecision options.charset d)) ∧
    (∀ files path, files.contentAt? path = some d → ∃ s : FileSource,
      FileSource.openPath files path = .ok s ∧
        (detect options s).outcome = .ok (firstDecision options.charset d)) ∧
    (∀ {σ : Type} [InputSource σ] (files : FileSystem) label,
      (Resource.detect options files (.bytes d label : Resource σ)).1 =
        .ok (firstDecision options.charset d)) ∧
    (∀ {σ : Type} [InputSource σ] (files : FileSystem) (path : Path),
      files.contentAt? path.text = some d →
      (Resource.detect options files (.file path : Resource σ)).1 =
        .ok (firstDecision options.charset d)) := by
  refine ⟨?_, ?_, ?_, ?_, ?_, ?_⟩
  · intro σ _ s h
    rw [firstDecision_eq_modeOf]
    exact detect_of_delivers options h
  · exact detect_memory options d
  · intro description
    exact detect_of_closable options (delivers_stream d description) (closable_stream _)
  · intro files path h
    obtain ⟨number, rfl, ho⟩ := openPath_of_contentAt? h
    exact ⟨_, ho, detect_of_closable options (delivers_file files number path)
      (closable_file files number 0 path)⟩
  · intro σ _ files label
    exact resource_detect_bytes options files d label
  · intro σ _ files path h
    exact resource_detect_file options h

end

/-- A document whose first line ends in two bytes that blocks of eleven come between. -/
def cutSample : Bytes := ascii "<!-- a -->\r\n<!DOCTYPE r>\r\n"

/-- A document whose second line has an accented letter behind its first `<`. -/
def elementSample : Bytes :=
  ascii "<?xml?> <r>\n" ++ [Ascii.less, 0xC3, 0xA9] ++ ascii "/>\n<!DOCTYPE r>"

/-- A line declares a document type, and another one opens an element. -/
theorem detect_cutSample :
    (∃ s', Reached ({ rest := cutSample, description := [] } : MemorySource) s' ∧
      (detect { bufferSize := 11 }
        ({ rest := cutSample, description := [] } : MemorySource)).outcome =
        (InputSource.close s').1.map fun _ => .dtd) ∧
    ∃ s', Reached ({ rest := elementSample, description := [] } : MemorySource) s' ∧
      (detect { bufferSize := 11 }
        ({ rest := elementSample, description := [] } : MemorySource)).outcome =
        (InputSource.close s').1.map fun _ => .xsd := by
  have hdtd : firstDecision .utf8 cutSample = .dtd := by decide +kernel
  have hxsd : firstDecision .utf8 elementSample = .xsd := by decide +kernel
  rw [← hdtd, ← hxsd]
  exact ⟨(detect_eq_firstDecision { bufferSize := 11 } cutSample).1 _
      (delivers_memory cutSample []),
    (detect_eq_firstDecision { bufferSize := 11 } elementSample).1 _
      (delivers_memory elementSample [])⟩

end Detector

end DoctypeProbe
