import DoctypeProbe.Proofs.Detector.Advance
import DoctypeProbe.Proofs.Detector.Line
import DoctypeProbe.Proofs.Text.Segments

/-!
# Comments Do Not Show

A comment put between the lines of a document does not change the mode of the document,
whatever is in it: it may be as long as it likes, take any number of lines, declare document
types and open elements. The first of its lines opens it and leaves nothing; the lines in the
middle have no token and end inside; the last one closes it and leaves nothing. What stands
around the comment is cut into lines as before, but for one case. If the lines before it end in
a carriage return, and a line feed comes after, the comment comes between the two, and the line
feed ends a blank line of its own, which decides nothing.

## Main results

* `Detector.advance_comment`: a comment on lines of its own decides nothing, and leaves a scan
  outside of comments.
* `Detector.detect_comment`: a detection with and without the comment.
-/

namespace DoctypeProbe

namespace Detector

open Comment Lines Charset

/-! ### The body of a comment -/

/-- Bytes that a comment can be made of: they decode, and with the token that closes the
comment behind them no comment opens in them, and none closes before the end. -/
structure Body (charset : Charset) (body : Bytes) : Prop where
  decodes : ∃ text, charset.decode body = .ok text
  opens : ¬ opening <:+: body ++ closing
  closes : ∀ x y, body ++ closing = x ++ closing ++ y → y = []

/-- What is behind a line of a body is a body. -/
theorem Body.rest {charset : Charset} {line brk rest : Bytes} (hb : Break brk rest)
    (h : Body charset (line ++ brk ++ rest)) : Body charset rest := by
  obtain ⟨text, ht⟩ := h.decodes
  obtain ⟨-, b, -, hdec, -⟩ := decode_break hb ht
  refine ⟨⟨b, hdec⟩, fun ho => h.opens ?_, fun x y hxy => h.closes (line ++ brk ++ x) y ?_⟩
  · rw [List.append_assoc]
    exact ho.trans (List.suffix_append _ _).isInfix
  · rw [List.append_assoc, hxy]
    simp only [List.append_assoc]

/-- A line of a body that is not its last one has no token in it. -/
theorem Body.line {charset : Charset} {line brk rest : Bytes} (hb : Break brk rest)
    (h : Body charset (line ++ brk ++ rest)) :
    (∃ text, charset.decode line = .ok text) ∧ ¬ opening <:+: line ∧ ¬ closing <:+: line := by
  obtain ⟨text, ht⟩ := h.decodes
  obtain ⟨a, -, hdec, -⟩ := decode_break hb ht
  refine ⟨⟨a, hdec⟩, fun ho => h.opens ?_, ?_⟩
  · rw [List.append_assoc, List.append_assoc]
    exact ho.trans (List.prefix_append line _).isInfix
  · rintro ⟨x, y, rfl⟩
    have hy := h.closes x (y ++ brk ++ rest ++ closing) (by simp only [List.append_assoc])
    exact absurd (List.append_eq_nil_iff.mp hy).2 (token_ne_nil true)

/-! ### The lines of a comment -/

/-- What a line begins with if a comment has to be opened on it, and if it starts inside one. -/
def front (inside : Bool) : Bytes := if inside then [] else opening

theorem asciiOnly_front (inside : Bool) : AsciiOnly (front inside) := by
  cases inside <;> decide +kernel

theorem unbroken_front (inside : Bool) : Unbroken (front inside) := by
  cases inside with
  | false => exact (by decide +kernel : ∀ b ∈ opening, isTerminator b = false)
  | true => exact unbroken_nil

theorem unbroken_closing : Unbroken closing :=
  (by decide +kernel : ∀ b ∈ closing, isTerminator b = false)

/-- A comment opened at the front of a line is walked from there. -/
theorem strip_opened (line : Bytes) : strip false (opening ++ line) = walk [] true line := by
  obtain ⟨hcut, hafter⟩ := Bytes.after_append_token opening line
  have hafter' : (opening ++ line).after (token false) = some line := hafter
  rw [strip_opening hcut, walk_step hafter' fun h => nomatch h]
  rfl

/-- **A line of a comment that does not close it** ends inside, and decides nothing. -/
theorem finding?_within [Alphabet] (inside : Bool) {line : Bytes} (ho : ¬ opening <:+: line)
    (hc : ¬ closing <:+: line) : finding? inside (front inside ++ line) = (none, true) := by
  have hc' : ¬ token true <:+: line := hc
  have hs : ∃ content, strip inside (front inside ++ line) = (content, true) := by
    cases inside with
    | false => exact ⟨none, (strip_opened line).trans (walk_end hc')⟩
    | true => exact ⟨some line, strip_plain ho hc⟩
  obtain ⟨content, hs⟩ := hs
  rw [finding?, hs]
  cases content <;> rfl

/-- **The line that closes a comment** ends outside, and decides nothing. -/
theorem finding?_closed [Alphabet] (inside : Bool) {line : Bytes}
    (ho : ¬ opening <:+: line ++ closing)
    (hc : ∀ x y, line ++ closing = x ++ closing ++ y → y = []) :
    finding? inside (front inside ++ (line ++ closing)) = (none, false) := by
  have hw : walk [] true (line ++ closing) = (some [], false) :=
    walk_stop (Bytes.after_append_self hc) rfl
  have hs : strip inside (front inside ++ (line ++ closing)) = (some [], false) := by
    cases inside with
    | false => exact (strip_opened _).trans hw
    | true => exact (strip_closing ho (List.suffix_append line closing).isInfix).trans hw
  rw [finding?, hs]
  rfl

/-! ### Whole comments -/

/-- The last line of a comment, or its only one. -/
theorem advanceLine_closed [Alphabet] {charset : Charset} (inside : Bool) {line : Bytes}
    (h : Body charset line) :
    advanceLine charset inside (front inside ++ (line ++ closing)) = .ok false := by
  obtain ⟨text, ht⟩ := h.decodes
  have hline : charset.decode (line ++ closing) = .ok (text ++ closing) :=
    decode_append_word (by decide +kernel) ht
  have hcut : charset.decode (line ++ closing.dropLast) = .ok (text ++ closing.dropLast) :=
    decode_append_word (by decide +kernel) ht
  rw [advanceLine_of_decode (decode_word_append (asciiOnly_front inside) hline), finding?_closed]
  · exact fun ho => h.opens (infix_of_decode (by decide +kernel) hline ho)
  · refine (Bytes.only_at_end_iff (token_ne_nil true)).mpr fun hc => ?_
    refine (Bytes.only_at_end_iff (token_ne_nil true)).mp h.closes ?_
    exact infix_of_decode (by decide +kernel) hcut hc

/-- A comment, and the line feed that ends its last line. -/
def commentLines (inside : Bool) (body : Bytes) : Bytes :=
  front inside ++ body ++ closing ++ [Ascii.lf]

theorem advance_of_unbroken [Alphabet] {charset : Charset} (inside : Bool) {line : Bytes}
    (hl : Unbroken line) (h : Body charset line) :
    advance charset inside (ofText (commentLines inside line)) = .ok false := by
  have hub : Unbroken (front inside ++ (line ++ closing)) :=
    List.forall_mem_append.mpr
      ⟨unbroken_front inside, List.forall_mem_append.mpr ⟨hl, unbroken_closing⟩⟩
  have hlines : ofText (commentLines inside line) = [front inside ++ (line ++ closing)] := by
    have hcut := ofText_append hub (.lineFeed [])
    rw [List.append_nil] at hcut
    rw [commentLines, List.append_assoc (front inside), hcut]
    rfl
  rw [hlines, advance_cons, advanceLine_closed inside h]
  rfl

/-- **A comment on lines of its own**, or what is left of one, decides nothing and leaves a
scan outside of comments. Induction along the lines of its body: those before the last end
inside. -/
theorem advance_comment [Alphabet] {charset : Charset} (inside : Bool) {body : Bytes}
    (h : Body charset body) :
    advance charset inside (ofText (commentLines inside body)) = .ok false := by
  induction body using inductionOn generalizing inside with
  | nil => exact advance_of_unbroken inside unbroken_nil h
  | last line _ hl => exact advance_of_unbroken inside hl h
  | line line brk rest hl hb ih =>
      obtain ⟨⟨text, ht⟩, ho, hc⟩ := h.line hb
      have hub : Unbroken (front inside ++ line) :=
        List.forall_mem_append.mpr ⟨unbroken_front inside, hl⟩
      have hbreak : Break brk (commentLines true rest) := by
        rw [commentLines, List.append_assoc, front, if_pos rfl, List.nil_append]
        exact hb.append fun _ => by decide +kernel
      have hlines : ofText (commentLines inside (line ++ brk ++ rest)) =
          (front inside ++ line) :: ofText (commentLines true rest) := by
        rw [← ofText_append hub hbreak]
        simp only [commentLines, front, List.append_assoc, if_true, List.nil_append]
      rw [hlines, advance_cons,
        advanceLine_of_decode (decode_word_append (asciiOnly_front inside) ht),
        finding?_within inside]
      · exact ih true (h.rest hb)
      · exact fun hi => ho (infix_of_decode (by decide +kernel) ht hi)
      · exact fun hi => hc (infix_of_decode (by decide +kernel) ht hi)

section

variable [Alphabet]

/-! ### The lines around a comment -/

/-- A blank line decides nothing. -/
theorem advance_blank (charset : Charset) (raws : List Bytes) :
    advance charset false ([] :: raws) = advance charset false raws := by
  rw [advance_cons, advanceLine_of_decode (decode_nil charset)]
  rfl

/-- A line feed taken away from the front of a text decides nothing. -/
theorem advance_resume (charset : Charset) (afterReturn : Bool) (s : Bytes) :
    advance charset false (ofText (resume afterReturn s)) = advance charset false (ofText s) := by
  rcases resume_cases afterReturn s with ⟨h, -⟩ | ⟨rfl, h⟩
  · rw [h]
  · have hblank := ofText_append_terminator unbroken_nil (t := Ascii.lf) rfl (resume true s)
    rw [List.nil_append, ← h, lineFeed_beq_return, resume_false] at hblank
    rw [hblank, advance_blank]

/-- Lines that decide nothing decode, and hand on the state of the scanner behind them. -/
theorem scannerState_of_advance {charset : Charset} {inside inside' : Bool} {raws : List Bytes}
    (h : advance charset inside raws = .ok inside') :
    ∃ lines, raws.mapM charset.decode = .ok lines ∧ scannerState inside lines = inside' := by
  induction raws generalizing inside with
  | nil =>
      cases h
      exact ⟨[], rfl, rfl⟩
  | cons raw raws ih =>
      rw [advance_cons] at h
      cases hd : charset.decode raw with
      | error e =>
          rw [advanceLine, hd] at h
          cases h
      | ok line =>
          rw [advanceLine_of_decode hd] at h
          have hstate := finding?_state inside line
          rcases hf : finding? inside line with ⟨_ | finding, state⟩
          · rw [hf] at h hstate
            obtain ⟨lines, hl, hs⟩ := ih h
            refine ⟨line :: lines, ?_, ?_⟩
            · rw [List.mapM_cons, hd, hl]
              rfl
            · rw [← hs, scannerState, List.foldl_cons, ← hstate]
              rfl
          · rw [hf] at h
            cases h

/-- **The mode of a document** does not depend on a comment between its lines. -/
theorem modeOf_comment {charset : Charset} {before body : Bytes} (after : Bytes)
    (hc : Complete before)
    (hs : ∀ lines, (ofText before).mapM charset.decode = .ok lines →
      scannerState false lines = false) (h : Body charset body) :
    modeOf charset (before ++ commentLines false body ++ after) =
      modeOf charset (before ++ after) := by
  -- the comment begins with no line feed, and ends in one
  have hfront : ∀ afterReturn, resume afterReturn (commentLines false body ++ after) =
      commentLines false body ++ after := fun afterReturn =>
    resume_of_head? fun _ hl => by
      have hless : (commentLines false body ++ after).head? = some Ascii.less := rfl
      rw [hless] at hl
      cases hl
  have hend : (commentLines false body).getLast? = some Ascii.lf := List.getLast?_concat
  have hcomplete : Complete (commentLines false body) := by
    rw [Complete, hend]
    rintro b ⟨⟩
    rfl
  have hwith : ofText (before ++ commentLines false body ++ after) =
      ofText before ++ (ofText (commentLines false body) ++ ofText after) := by
    rw [List.append_assoc, ofText_append_of_complete hc, hfront,
      ofText_append_of_complete hcomplete, hend, Option.some_beq_some, lineFeed_beq_return,
      resume_false]
  rw [modeOf, modeOf, hwith, ofText_append_of_complete hc, modeOfLines_eq_decided,
    modeOfLines_eq_decided, advance_append, advance_append]
  cases hadv : advance charset false (ofText before) with
  | error mode => rfl
  | ok inside =>
      obtain ⟨lines, hl, hstate⟩ := scannerState_of_advance hadv
      obtain rfl : inside = false := hstate.symm.trans (hs lines hl)
      simp only [Except.bind, advance_append, advance_comment false h, advance_resume]

/-- **Comments do not show.** For complete lines behind which the scanner is outside of
comments, a comment put behind them makes no difference to a detection, whatever follows. -/
theorem detect_comment (options : Options) {before body : Bytes} (after : Bytes)
    (hc : Complete before)
    (hs : ∀ lines, (ofText before).mapM options.charset.decode = .ok lines →
      scannerState false lines = false) (h : Body options.charset body) :
    (∀ {σ τ : Type} [InputSource σ] [InputSource τ] (s : σ) (t : τ),
      Delivers s (before ++ (opening ++ body ++ closing ++ [Ascii.lf]) ++ after) →
      Delivers t (before ++ after) →
      ∃ mode, Answers options s mode ∧ Answers options t mode) ∧
    (∀ description description',
      (detect options (⟨before ++ (opening ++ body ++ closing ++ [Ascii.lf]) ++ after,
        description, true⟩ : MemorySource)).outcome =
      (detect options (⟨before ++ after, description', true⟩ : MemorySource)).outcome) := by
  have hmode := modeOf_comment after hc hs h
  refine ⟨fun s t hds hdt => ⟨modeOf options.charset (before ++ after), ?_, ?_⟩, fun x y => ?_⟩
  · rw [← hmode]
    exact answers_of_delivers options hds
  · exact answers_of_delivers options hdt
  · rw [detect_memory, detect_memory, firstDecision_eq_modeOf, firstDecision_eq_modeOf]
    exact congrArg Except.ok hmode

end

/-- The body of a comment over four lines that has a declaration and a tag in it. -/
def bodySample : Bytes := ascii " a -\n<!DOCTYPE b>\r\n<c>\r-"

/-- The document without its comment. -/
def uncommentedSample : Bytes := ascii "<?d?>\r" ++ ascii "\n<!DOCTYPE e>"

/-- The line in front ends in a carriage return, and a line feed comes behind the comment. -/
theorem detect_comment_bodySample :
    Complete (ascii "<?d?>\r") ∧ Body .utf8 bodySample ∧
    Answers { bufferSize := 2 } (⟨ascii "<?d?>\r" ++ (opening ++ bodySample ++ closing ++
      [Ascii.lf]) ++ ascii "\n<!DOCTYPE e>", [], true⟩ : MemorySource) .dtd ∧
    Answers { bufferSize := 2 } (⟨uncommentedSample, [], true⟩ : MemorySource) .dtd := by
  have hc : Complete (ascii "<?d?>\r") := by decide +kernel
  have hs : ∀ lines, (ofText (ascii "<?d?>\r")).mapM (Charset.decode .utf8) = .ok lines →
      scannerState false lines = false := by
    have hlines : (ofText (ascii "<?d?>\r")).mapM (Charset.decode .utf8) =
        .ok [ascii "<?d?>"] := by decide +kernel
    intro lines hl
    cases hlines.symm.trans hl
    decide +kernel
  have hbody : Body .utf8 bodySample := by
    refine ⟨⟨bodySample, by decide +kernel⟩, by decide +kernel, ?_⟩
    exact (Bytes.only_at_end_iff (token_ne_nil true)).mpr (by decide +kernel)
  obtain ⟨mode, hwith, hwithout⟩ :=
    (detect_comment { bufferSize := 2 } (ascii "\n<!DOCTYPE e>") hc hs hbody).1
      (⟨_, [], true⟩ : MemorySource) (⟨uncommentedSample, [], true⟩ : MemorySource)
      (delivers_memory _ _) (delivers_memory _ _)
  have hdtd : firstDecision .utf8 uncommentedSample = .dtd := by decide +kernel
  obtain rfl : mode = .dtd := by
    refine hwithout.eq_of_outcome ?_
    rw [detect_memory, hdtd]
  exact ⟨hc, hbody, hwith, hwithout⟩

end Detector

end DoctypeProbe
