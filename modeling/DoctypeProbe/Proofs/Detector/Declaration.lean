import DoctypeProbe.Proofs.Comment.Extent
import DoctypeProbe.Proofs.Detector.Advance
import DoctypeProbe.Proofs.Detector.Line

/-!
# Declarations and Comments

A declaration in a comment should not count, and one outside comments should. The comments meant
are those of the whole decoded text, found by one scan from the left (`Comment.marks`). A detection
looks at a document line by line and carries one bit from each line to the next, and it keeps two
stretches of a line in one. So a declaration may come about where a line joins two stretches
(`Joins`), an opening tag may too, and a line that keeps nothing of its text outside comments
(`Comment.Dropped`) loses the declaration on it. That is how lines are meant to be looked at.

The conditions are on lines, each with the state that the scan of the whole text is in at its
start, and are said by the layout of comments on the line. The layouts left out are those that a
scanner of lines is not up to: it loses the comment that a line leaves open behind its run of
comments (`Comment.Settled`), and it keeps the text of a comment that is not in the run
(`Comment.LaidOut`).

## Main results

* `Detector.modeOf_of_decode`: a document that decodes has the mode of its decoded text.
* `Detector.modeOfLines_eq_dtd_iff`, `Detector.detect_dtd_iff_joins`: where all declarations are
  in comments, the mode is `dtd` exactly when a line joins one.
* `Detector.detect_eq_dtd_of_declared`: a declaration outside comments counts.
-/

namespace DoctypeProbe

namespace Detector

open Comment Lines

section

variable [Alphabet]

/-! ### Decoded documents -/

theorem modeOfLines_of_finding {charset : Charset} {inside : Bool} {raw line : Bytes}
    {finding : Finding} (hd : charset.decode raw = .ok line)
    (h : (finding? inside line).1 = some finding) (lines : List Bytes) :
    modeOfLines charset inside (raw :: lines) = finding.mode := by
  rw [modeOfLines, hd]
  rcases hf : finding? inside line with ⟨_ | finding', inside'⟩
  · simp [hf] at h
  · obtain rfl : finding' = finding := by simpa [hf] using h
    simp [hf]

theorem modeOfLines_of_none {charset : Charset} {inside : Bool} {raw line : Bytes}
    (hd : charset.decode raw = .ok line) (h : (finding? inside line).1 = none)
    (lines : List Bytes) :
    modeOfLines charset inside (raw :: lines) =
      modeOfLines charset (finding? inside line).2 lines := by
  rw [modeOfLines, hd]
  rcases hf : finding? inside line with ⟨_ | finding', inside'⟩
  · simp [hf]
  · simp [hf] at h

omit [Alphabet] in
theorem decode_unknown (s : Bytes) : Charset.decode .unknown s = .ok s := rfl

/-- The lines of a document that decodes decide what its decoded lines do. -/
theorem modeOfLines_of_decode {charset : Charset} {raws lines : List Bytes}
    (h : raws.map charset.decode = lines.map .ok) (inside : Bool) :
    modeOfLines charset inside raws = modeOfLines .unknown inside lines := by
  induction raws generalizing lines inside with
  | nil =>
      obtain rfl : lines = [] := by simpa using h.symm
      rfl
  | cons raw raws ih =>
      rcases lines with - | ⟨line, lines⟩
      · cases h
      · obtain ⟨hd, ht⟩ := List.cons.inj h
        cases hf : (finding? inside line).1 with
        | none =>
            rw [modeOfLines_of_none hd hf, modeOfLines_of_none (decode_unknown line) hf, ih ht]
        | some finding =>
            rw [modeOfLines_of_finding hd hf, modeOfLines_of_finding (decode_unknown line) hf]

/-- **A document that decodes** has the mode of its decoded text. -/
theorem modeOf_of_decode {charset : Charset} {d text : Bytes} (h : charset.decode d = .ok text) :
    modeOf charset d = modeOfLines .unknown false (ofText text) :=
  modeOfLines_of_decode (Charset.decode_ofText h) false

/-- A settled line that does not decide hands the state of the automaton on. -/
theorem modeOfLines_of_settled {inside : Bool} {line : Bytes}
    (h : (finding? inside line).1 = none) (hs : Settled inside line) (lines : List Bytes) :
    modeOfLines .unknown inside (line :: lines) =
      modeOfLines .unknown (endsInside inside line) lines := by
  rw [modeOfLines_of_none (decode_unknown line) h, finding?_state, strip_state_iff.mpr hs]

omit [Alphabet] in
theorem mode_eq_dtd_iff {finding : Finding} : finding.mode = .dtd ↔ finding = .doctype := by
  cases finding <;> decide

omit [Alphabet] in
/-- The automaton reads a line and what ends it as part of the whole text. -/
theorem endsInside_line_append {line brk x y : Bytes} (inside : Bool)
    (hb : Break brk (x ++ y)) :
    endsInside inside (line ++ brk ++ x) = endsInside (endsInside inside line) x :=
  endsInside_of_line inside hb.of_append

/-! ### Declarations in comments -/

/-- A line, with the state at its start, that no line before it keeps from being looked at by
opening an element. -/
def InProlog (inside : Bool) (lines : List Bytes) (e : Bool × Bytes) : Prop :=
  ∃ front back, entered inside lines = front ++ e :: back ∧ ∀ e' ∈ front, ¬OpensElement e'.1 e'.2

theorem inProlog_cons {inside : Bool} {line : Bytes} {lines : List Bytes} {e : Bool × Bytes} :
    InProlog inside (line :: lines) e ↔ e = (inside, line) ∨
      (¬OpensElement inside line ∧ InProlog (endsInside inside line) lines e) := by
  constructor
  · rintro ⟨- | ⟨first, front⟩, back, hsplit, hfront⟩
    · exact Or.inl (List.cons.inj hsplit).1.symm
    · obtain ⟨rfl, hrest⟩ := List.cons.inj hsplit
      obtain ⟨hfirst, hfront⟩ := List.forall_mem_cons.mp hfront
      exact Or.inr ⟨hfirst, front, back, hrest, hfront⟩
  · rintro (rfl | ⟨hfirst, front, back, hsplit, hfront⟩)
    · exact ⟨[], _, rfl, fun _ h => absurd h List.not_mem_nil⟩
    · refine ⟨(inside, line) :: front, back, ?_, List.forall_mem_cons.mpr ⟨hfirst, hfront⟩⟩
      rw [entered, hsplit, List.cons_append]

/-- What is so of all lines is so of those in the prolog. -/
theorem InProlog.mem_entered {inside : Bool} {lines : List Bytes} {e : Bool × Bytes}
    (h : InProlog inside lines e) : e ∈ entered inside lines := by
  obtain ⟨front, back, hsplit, -⟩ := h
  rw [hsplit]
  exact List.mem_append_right front List.mem_cons_self

/-- The first line decides the mode, or the lines behind it do. -/
theorem modeOfLines_eq_dtd_cons {inside : Bool} {line : Bytes} {lines : List Bytes}
    (hcov : ∀ x s, line = x ++ s → Finding.doctype.Begins s → endsInside inside x = true)
    (hsettled : ¬OpensElement inside line → Settled inside line)
    (hlaid : Mentions .doctype line → LaidOut inside line)
    (ih : ¬OpensElement inside line →
      (modeOfLines .unknown (endsInside inside line) lines = .dtd ↔
        ∃ e, InProlog (endsInside inside line) lines e ∧ Joins .doctype e.1 e.2)) :
    modeOfLines .unknown inside (line :: lines) = .dtd ↔
      ∃ e, InProlog inside (line :: lines) e ∧ Joins .doctype e.1 e.2 := by
  have hiff := finding?_eq_doctype_iff hcov hlaid
  simp only [inProlog_cons, or_and_right, exists_or, exists_eq_left, ← hiff]
  cases hf : (finding? inside line).1 with
  | some finding =>
      rw [modeOfLines_of_finding (decode_unknown line) hf, mode_eq_dtd_iff, Option.some.injEq]
      refine ⟨Or.inl, fun h => h.elim id ?_⟩
      -- a line that opens no element can only declare a document type
      rintro ⟨-, ⟨hopens, -⟩, -⟩
      cases finding with
      | doctype => rfl
      | element => exact absurd (opensElement_of_finding hf) hopens
  | none =>
      have hopens := not_opensElement_of_none hf
      rw [modeOfLines_of_settled hf (hsettled hopens), ih hopens]
      simp [hopens]

/-- **Where all declarations are in comments**, the mode is `dtd` exactly when a line of the prolog
joins a declaration. Induction along the lines of the text: a settled line hands on the state that
the rest of the text is read in. -/
theorem modeOfLines_eq_dtd_iff {inside : Bool} {text : Bytes}
    (hcov : ∀ x y, text = x ++ y → Finding.doctype.Begins y → endsInside inside x = true)
    (hsettled : ∀ e, InProlog inside (ofText text) e → ¬OpensElement e.1 e.2 → Settled e.1 e.2)
    (hlaid : ∀ e, InProlog inside (ofText text) e → Mentions .doctype e.2 → LaidOut e.1 e.2) :
    modeOfLines .unknown inside (ofText text) = .dtd ↔
      ∃ e, InProlog inside (ofText text) e ∧ Joins .doctype e.1 e.2 := by
  induction text using Lines.inductionOn generalizing inside with
  | nil => simp [ofText, continuing, modeOfLines, InProlog, entered]
  | last line hne hl =>
      rw [ofText_unbroken hl hne] at hsettled hlaid ⊢
      have hfirst : InProlog inside [line] (inside, line) := inProlog_cons.mpr (Or.inl rfl)
      refine modeOfLines_eq_dtd_cons hcov (hsettled _ hfirst) (hlaid _ hfirst) fun _ => ?_
      simp [modeOfLines, InProlog, entered]
  | line line brk rest hl hb ih =>
      rw [ofText_append hl hb] at hsettled hlaid ⊢
      have hfirst : InProlog inside (line :: ofText rest) (inside, line) :=
        inProlog_cons.mpr (Or.inl rfl)
      refine modeOfLines_eq_dtd_cons ?_ (hsettled _ hfirst) (hlaid _ hfirst) ?_
      · intro x s hs hy
        refine hcov x (s ++ (brk ++ rest)) ?_ (hy.append _)
        rw [hs]
        simp only [List.append_assoc]
      · intro hopens
        refine ih ?_ (fun e he => hsettled e (inProlog_cons.mpr (Or.inr ⟨hopens, he⟩)))
          fun e he => hlaid e (inProlog_cons.mpr (Or.inr ⟨hopens, he⟩))
        intro x y hxy hy
        subst hxy
        rw [← endsInside_line_append inside hb]
        exact hcov _ y (by simp) hy

/-- All declarations of a text overlap its comments. -/
def Covered (text : Bytes) : Prop :=
  ∀ k < text.length, doctype <+: text.drop k →
    ∃ j < doctype.length, (marks false text)[k + j]? = some true

instance (text : Bytes) : Decidable (Covered text) := Nat.decidableBallLT text.length _

/-- The automaton is inside a comment where a covered declaration begins. -/
theorem Covered.endsInside {text x y : Bytes} (h : Covered text) (ht : text = x ++ y)
    (hy : Finding.doctype.Begins y) : endsInside false x = true := by
  obtain ⟨y, rfl⟩ := hy
  have hlt : x.length < text.length := by
    have hpos : 0 < doctype.length := by decide
    simp only [ht, List.length_append]
    omega
  obtain ⟨j, hj, hm⟩ := h x.length hlt (by simp [ht])
  rw [ht, getElem?_marks_word (fun b hb => (word_doctype.2 b hb).1) hj] at hm
  exact Option.some.inj hm

/-- **Declarations in comments do not count.** A detection of a document whose declarations all
overlap comments answers `dtd` only if a line of the prolog joins a declaration out of the text
around its comments; and then it does, unless the source fails to close. The lines of the prolog are
settled, but for one that opens an element, and those with a declaration on them are laid out in one
run. -/
theorem detect_dtd_iff_joins {σ : Type} [InputSource σ] (options : Options) {s : σ}
    {d text : Bytes} (hs : Delivers s d) (hd : options.charset.decode d = .ok text)
    (hcov : Covered text)
    (hsettled : ∀ e, InProlog false (ofText text) e → ¬OpensElement e.1 e.2 → Settled e.1 e.2)
    (hlaid : ∀ e, InProlog false (ofText text) e → Mentions .doctype e.2 → LaidOut e.1 e.2) :
    ((detect options s).outcome = .ok .dtd →
      ∃ e, InProlog false (ofText text) e ∧ Joins .doctype e.1 e.2) ∧
    ((∃ e, InProlog false (ofText text) e ∧ Joins .doctype e.1 e.2) →
      Answers options s .dtd) := by
  have hiff := modeOfLines_eq_dtd_iff (fun x y => hcov.endsInside) hsettled hlaid
  obtain ⟨s', hs', ho⟩ := detect_of_delivers options hs
  rw [modeOf_of_decode hd] at ho
  constructor
  · intro hdtd
    refine hiff.mp ?_
    rw [ho] at hdtd
    cases hc : (InputSource.close s').1 with
    | error e =>
        rw [hc] at hdtd
        cases hdtd
    | ok u =>
        rw [hc] at hdtd
        exact Except.ok.inj hdtd
  · exact fun hjoins => ⟨s', hs', by rw [ho, hiff.mpr hjoins]⟩

end

/-- A document of three comments on three lines, two of them with declarations. -/
def commentedSample : Bytes :=
  ascii "<!-- DOCTYPE a\nDOCTYPE -->\n<!-- b --> <!-- DOCTYPE --> <r/>\n"

/-- A document with a declaration in a comment, and with one that a line joins. -/
def joinedSample : Bytes := ascii "<!-- DOCTYPE -->\nDOC<!-- a -->TYPE\n"

/-- The first sample joins no declaration, and the second does. -/
theorem detect_commentedSample :
    (detect { charset := .ascii }
      ({ rest := commentedSample, description := [] } : MemorySource)).outcome ≠ .ok .dtd ∧
    Answers { charset := .ascii } ({ rest := joinedSample, description := [] } : MemorySource)
      .dtd := by
  have hlines : ∀ e ∈ entered false (ofText commentedSample), Settled e.1 e.2 ∧
      (Mentions .doctype e.2 → LaidOut e.1 e.2) ∧ ¬Joins .doctype e.1 e.2 := by decide +kernel
  have hlines' : ∀ e ∈ entered false (ofText joinedSample), Settled e.1 e.2 ∧
      (Mentions .doctype e.2 → LaidOut e.1 e.2) := by decide +kernel
  constructor
  · intro hdtd
    obtain ⟨e, he, hjoins⟩ := (@detect_dtd_iff_joins _ _ _ _ _ commentedSample commentedSample
      (delivers_memory _ _) (by decide +kernel) (by decide +kernel)
      (fun e he _ => (hlines e he.mem_entered).1)
      fun e he => (hlines e he.mem_entered).2.1).1 hdtd
    exact (hlines e he.mem_entered).2.2 hjoins
  · refine (@detect_dtd_iff_joins _ _ _ _ _ joinedSample joinedSample
      (delivers_memory _ _) (by decide +kernel) (by decide +kernel)
      (fun e he _ => (hlines' e he.mem_entered).1)
      fun e he => (hlines' e he.mem_entered).2).2 ?_
    have htext : ofText joinedSample = [ascii "<!-- DOCTYPE -->", ascii "DOC<!-- a -->TYPE"] := by
      decide +kernel
    have hnone : (finding? false (ascii "<!-- DOCTYPE -->")).1 = none := by decide +kernel
    rw [htext]
    exact ⟨_, inProlog_cons.mpr (Or.inr ⟨not_opensElement_of_none hnone,
      inProlog_cons.mpr (Or.inl rfl)⟩), by decide +kernel⟩

/-- A document whose declarations are all in comments, and that is detected as `dtd`. -/
def Mistaken (text : Bytes) : Prop :=
  Charset.decode .ascii text = .ok text ∧ Covered text ∧
    (detect { charset := .ascii } ({ rest := text, description := [] } : MemorySource)).outcome =
      .ok .dtd

theorem mistaken_of_modeOf {text : Bytes}
    (h : Charset.decode .ascii text = .ok text ∧ Covered text ∧ modeOf .ascii text = .dtd) :
    Mistaken text := by
  refine ⟨h.1, h.2.1, ?_⟩
  rw [detect_memory, firstDecision_eq_modeOf, h.2.2]

/-- Declarations in comments do not keep a line from joining one. -/
theorem mistaken_joinedSample : Mistaken joinedSample := mistaken_of_modeOf (by decide +kernel)

/-- The layouts left out are those of which a scanner of lines loses sight: it keeps a comment
before the first opening token of a line, and one behind its run of comments, and it loses the
comment that a line leaves open. -/
theorem mistaken_layouts :
    Mistaken (ascii "<!--\nDOCTYPE --> <!-- a -->\n") ∧
      Mistaken (ascii "<!-- a --> b <!-- DOCTYPE -->\n") ∧
      Mistaken (ascii "<!-- a --> b <!-- c\nDOCTYPE\n-->\n") := by
  refine ⟨?_, ?_, ?_⟩ <;> exact mistaken_of_modeOf (by decide +kernel)

section

variable [Alphabet]

/-! ### Declarations outside comments -/

/-- An opening tag begins outside tokens. -/
theorem Finding.Begins.plain {y : Bytes} (h : Finding.element.Begins y) (x : Bytes) :
    Plain x y := by
  obtain ⟨hh, hl⟩ := h
  rcases y with - | ⟨b, y⟩
  · cases hh
  · obtain rfl : b = Ascii.less := Option.some.inj hh
    refine ⟨List.cons_ne_nil _ _, seam_of_head fun c hc => Or.inl (by cases hc; rfl), ?_⟩
    rintro (_ | _) ⟨t, ht⟩
    · -- an exclamation mark is no letter
      obtain rfl : 0x21 :: (ascii "--" ++ t) = y := (List.cons.inj ht).2
      have hmark := Alphabet.isLetter_ascii 0x21 (by decide)
      rw [List.tail_cons, Letter.startsWith, Utf8.scalar_ascii (by decide)] at hl
      exact absurd (hmark.symm.trans hl) (by decide)
    · exact absurd (List.cons.inj ht).1 (by decide)

/-- The number, from zero, of the line that a byte of a text is on. -/
def lineOf (text : Bytes) (k : Nat) : Nat := (ofText (text.take (k + 1))).length - 1

omit [Alphabet] in
/-- A declaration in a text is in its first line, or behind what ends that line. -/
theorem declared_cases {line brk rest x y : Bytes} (hb : Break brk rest)
    (h : line ++ brk ++ rest = x ++ (doctype ++ y)) :
    (∃ z, line = x ++ (doctype ++ z)) ∨
      ∃ x', x = line ++ brk ++ x' ∧ rest = x' ++ (doctype ++ y) := by
  have hword : ∀ b, Lines.isTerminator b = true → b ∉ doctype := by
    intro b hbt
    rcases isTerminator_iff.mp hbt with rfl | rfl <;> decide
  rw [List.append_assoc] at h
  rcases Bytes.cut_cases h with ⟨z, -, rfl, hz⟩ | ⟨z, rfl, hz⟩
  · have hp : doctype <+: z ++ (brk ++ rest) := hz ▸ List.prefix_append doctype y
    obtain ⟨w, rfl⟩ := prefix_of_prefix_append hp fun b hbh => hword b (hb.isTerminator_head? b hbh)
    exact Or.inl ⟨w, rfl⟩
  · have hbrk : ∀ b ∈ brk, b ∉ doctype := fun b hbm => hword b (hb.isTerminator b hbm)
    obtain ⟨x', rfl, hrest⟩ := word_doctype.append_eq hbrk hz
    exact Or.inr ⟨x', by rw [List.append_assoc], hrest⟩

/-- A line whose opening tags are all in comments is not taken to open the first element, if it
joins none. If there are any, the line is to be laid out. -/
theorem not_element_of_first {inside : Bool} {line t : Bytes} {k : Nat} (hk : line.length ≤ k)
    (hfirst : ∀ u s, line ++ t = u ++ s → u.length < k → Finding.element.Begins s →
      endsInside inside u = true)
    (hlaid : Mentions .element line → LaidOut inside line)
    (hjoins : ¬Joins .element inside line) : (finding? inside line).1 ≠ some .element := by
  intro hf
  obtain ⟨x, s, rfl, hb, hout⟩ := outside_of_finding hf hlaid hjoins
  obtain ⟨b, s, rfl, -, -⟩ := hb.exists_cons
  have hin := hfirst x (b :: s ++ t) (List.append_assoc _ _ _) (by simp at hk; omega) (hb.append t)
  rw [hout] at hin
  cases hin

/-- The line that a declaration outside comments is on makes the mode `dtd`. -/
theorem modeOfLines_of_own {inside : Bool} {line x z : Bytes} {lines : List Bytes} {n : Nat}
    (hl : line = x ++ (doctype ++ z)) (hu : Unbroken line) (ho : endsInside inside x = false)
    (hn : n + 1 = (ofText (x ++ [0x44])).length)
    (hline : ∀ e ∈ (entered inside (line :: lines))[n]?, ¬Dropped e.1 e.2 ∧ ¬Abrupt e.1 e.2) :
    modeOfLines .unknown inside (line :: lines) = .dtd := by
  have hpre : x ++ [0x44] <+: line := ⟨doctype.tail ++ z, by rw [hl, List.append_assoc]; rfl⟩
  have hux : Unbroken (x ++ [0x44]) := fun b hb => hu b (hpre.subset hb)
  rw [ofText_unbroken hux (by simp), List.length_singleton] at hn
  obtain rfl : n = 0 := by omega
  obtain ⟨hd, ha⟩ := hline (inside, line) rfl
  exact modeOfLines_of_finding (decode_unknown line) (finding?_of_declared hl ho hd ha) lines

/-- **A declaration outside comments** makes the mode `dtd`, if no opening tag stands outside
comments before it. Induction along the lines of the text up to the one that the declaration
is on: a line before it declares a document type itself, or hands on the state at its end. -/
theorem modeOfLines_of_declared {inside : Bool} {text x y : Bytes} {n : Nat}
    (ht : text = x ++ (doctype ++ y)) (ho : endsInside inside x = false)
    (hfirst : ∀ u s, text = u ++ s → u.length < x.length → Finding.element.Begins s →
      endsInside inside u = true)
    (hn : n + 1 = (ofText (x ++ [0x44])).length)
    (hbefore : ∀ e ∈ (entered inside (ofText text)).take n, Settled e.1 e.2 ∧
      (Mentions .element e.2 → LaidOut e.1 e.2) ∧ ¬Joins .element e.1 e.2)
    (hline : ∀ e ∈ (entered inside (ofText text))[n]?, ¬Dropped e.1 e.2 ∧ ¬Abrupt e.1 e.2) :
    modeOfLines .unknown inside (ofText text) = .dtd := by
  induction text using Lines.inductionOn generalizing inside x n with
  | nil =>
      have hl := congrArg List.length ht
      simp only [List.length_nil, List.length_append, show doctype.length = 7 from rfl] at hl
      omega
  | last line hne hl =>
      rw [ofText_unbroken hl hne] at hline ⊢
      exact modeOfLines_of_own ht hl ho hn hline
  | line line brk rest hl hb ih =>
      rw [ofText_append hl hb] at hbefore hline ⊢
      rcases declared_cases hb ht with ⟨z, hz⟩ | ⟨x', rfl, rfl⟩
      · exact modeOfLines_of_own hz hl ho hn hline
      · -- the declaration is on a line behind this one
        have hx : x' ++ (doctype ++ y) = (x' ++ [0x44]) ++ (doctype.tail ++ y) := by
          rw [List.append_assoc]
          rfl
        have hb' : Break brk (x' ++ [0x44]) := by
          rw [hx] at hb
          exact hb.of_append
        rw [List.append_assoc, ofText_append hl hb', List.length_cons] at hn
        obtain ⟨m, rfl⟩ : ∃ m, n = m + 1 :=
          Nat.exists_eq_succ_of_ne_zero fun h0 => by
            have hpos := length_ofText_pos (by simp : x' ++ [0x44] ≠ [])
            omega
        rw [entered, List.take_succ_cons, List.forall_mem_cons] at hbefore
        obtain ⟨⟨hsettled, hlaid, hjoins⟩, hbefore⟩ := hbefore
        have hfirst' : ∀ u s, line ++ (brk ++ (x' ++ (doctype ++ y))) = u ++ s →
            u.length < (line ++ brk ++ x').length → Finding.element.Begins s →
            endsInside inside u = true := by
          rwa [List.append_assoc] at hfirst
        have hne := not_element_of_first (by simp) hfirst' hlaid hjoins
        cases hf : (finding? inside line).1 with
        | some finding =>
            rw [modeOfLines_of_finding (decode_unknown line) hf, mode_eq_dtd_iff]
            cases finding with
            | doctype => rfl
            | element => exact absurd hf hne
        | none =>
            rw [modeOfLines_of_settled hf hsettled]
            refine ih rfl ?_ ?_ (by omega) hbefore hline
            · rw [← endsInside_line_append inside hb]
              exact ho
            · intro u s hus hlt hb'
              rw [hus] at hb
              rw [← endsInside_line_append inside hb]
              refine hfirst _ s (by rw [hus]; simp) ?_ hb'
              simp only [List.length_append]
              omega

omit [Alphabet] in
/-- A text with a declaration at `k` is cut there, and the line of the declaration is the last
one of the text up to its first byte. -/
theorem take_of_declared {text : Bytes} {k : Nat} (h : doctype <+: text.drop k) :
    ∃ y, text = text.take k ++ (doctype ++ y) ∧ (text.take k).length = k ∧
      text.take (k + 1) = text.take k ++ [0x44] := by
  obtain ⟨y, hy⟩ := h
  refine ⟨y, by rw [hy, List.take_append_drop], ?_, ?_⟩
  · have hl := congrArg List.length hy
    simp only [List.length_append, List.length_drop, show doctype.length = 7 from rfl] at hl
    rw [List.length_take]
    omega
  · have hbyte : (text.drop k)[0]? = some 0x44 := by
      rw [← hy]
      rfl
    rw [List.getElem?_drop, Nat.add_zero] at hbyte
    rw [List.take_add_one, hbyte]
    rfl

/-- An opening tag that the automaton is outside before is one outside comments. -/
theorem Finding.Begins.not_outside {text u z : Bytes} (h : Finding.element.Begins z)
    (ht : text = u ++ z) (ho : endsInside false u = false)
    (hfirst : text[u.length]? = some Ascii.less → (marks false text)[u.length]? = some false →
      Letter.startsWith (text.drop (u.length + 1)) = false) : False := by
  have hm : (marks false text)[u.length]? = some false := by
    rw [ht, getElem?_marks (h.plain u), ho]
  obtain ⟨z, rfl⟩ : ∃ z', z = Ascii.less :: z' := List.head?_eq_some_iff.mp h.1
  have hdrop : text.drop (u.length + 1) = z := by
    rw [ht, List.append_cons]
    exact List.drop_left' (by simp)
  have hl := hfirst (by simp [ht]) hm
  rw [hdrop] at hl
  exact absurd h.2 (by simp [hl])

/-- **A declaration outside comments counts.** A detection of a document with a declaration at
`k` outside all comments, and no `<` with a letter behind it outside comments before that,
answers `dtd` unless the source then fails to close. The line of the declaration is neither dropped
nor abrupt, and the lines before it are settled and join no opening tag; those of them with an
opening tag are laid out in one run. -/
theorem detect_eq_dtd_of_declared {σ : Type} [InputSource σ] (options : Options) {s : σ}
    {d text : Bytes} {k : Nat} (hs : Delivers s d)
    (hd : options.charset.decode d = .ok text) (hk : doctype <+: text.drop k)
    (hout : ∀ j < doctype.length, (marks false text)[k + j]? = some false)
    (hfirst : ∀ m < k, text[m]? = some Ascii.less → (marks false text)[m]? = some false →
      Letter.startsWith (text.drop (m + 1)) = false)
    (hbefore : ∀ e ∈ (entered false (ofText text)).take (lineOf text k), Settled e.1 e.2 ∧
      (Mentions .element e.2 → LaidOut e.1 e.2) ∧ ¬Joins .element e.1 e.2)
    (hline : ∀ e ∈ (entered false (ofText text))[lineOf text k]?,
      ¬Dropped e.1 e.2 ∧ ¬Abrupt e.1 e.2) :
    Answers options s .dtd := by
  obtain ⟨y, ht, hlen, htake⟩ := take_of_declared hk
  have ho : endsInside false (text.take k) = false := by
    have hm := @getElem?_marks_word false (text.take k) doctype y
      (fun b hb => (word_doctype.2 b hb).1) 0 (by decide)
    rw [← ht, hlen, hout 0 (by decide)] at hm
    exact (Option.some.inj hm).symm
  have hfirst' : ∀ u z, text = u ++ z → u.length < (text.take k).length →
      Finding.element.Begins z → endsInside false u = true := by
    intro u z huz hlt hz
    rw [hlen] at hlt
    rw [← Bool.not_eq_false]
    exact fun hf => hz.not_outside huz hf (hfirst u.length hlt)
  have hn : lineOf text k + 1 = (ofText (text.take k ++ [0x44])).length := by
    rw [lineOf, htake]
    exact Nat.sub_add_cancel (length_ofText_pos (by simp))
  have hmode := modeOfLines_of_declared ht ho hfirst' hn hbefore hline
  obtain ⟨s', hs', hoc⟩ := detect_of_delivers options hs
  exact ⟨s', hs', by rw [hoc, modeOf_of_decode hd, hmode]⟩

end

/-- A document with a declaration behind two comments, which both go on over lines or share
one, and before another. -/
def declaredSample : Bytes :=
  ascii "<!-- <a> DOCTYPE\n--> <!-- b -->\n<?xml?>\n<!DOCTYPE r> <!-- c -->\n<r/>"

theorem detect_eq_dtd_of_declaredSample :
    Answers { charset := .ascii } ({ rest := declaredSample, description := [] } : MemorySource)
      .dtd :=
  @detect_eq_dtd_of_declared _ _ _ _ _ declaredSample declaredSample 42 (delivers_memory _ _)
    (by decide +kernel) (by decide +kernel) (by decide +kernel) (by decide +kernel)
    (by decide +kernel) (by decide +kernel)

/-- A document with a declaration at `k` outside all comments and no opening tag outside them
before it, that is detected as `xsd`. -/
def Missed (text : Bytes) (k : Nat) : Prop :=
  Charset.decode .ascii text = .ok text ∧ doctype <+: text.drop k ∧
    (∀ j < doctype.length, (marks false text)[k + j]? = some false) ∧
    (∀ m < k, text[m]? = some Ascii.less → (marks false text)[m]? = some false →
      Letter.startsWith (text.drop (m + 1)) = false) ∧
    (detect { charset := .ascii } ({ rest := text, description := [] } : MemorySource)).outcome =
      .ok .xsd

theorem missed_of_modeOf {text : Bytes} {k : Nat}
    (h : Charset.decode .ascii text = .ok text ∧ doctype <+: text.drop k ∧
      (∀ j < doctype.length, (marks false text)[k + j]? = some false) ∧
      (∀ m < k, text[m]? = some Ascii.less → (marks false text)[m]? = some false →
        Letter.startsWith (text.drop (m + 1)) = false) ∧ modeOf .ascii text = .xsd) :
    Missed text k := by
  obtain ⟨hd, hk, hout, hfirst, hm⟩ := h
  refine ⟨hd, hk, hout, hfirst, ?_⟩
  rw [detect_memory, firstDecision_eq_modeOf, hm]

/-- The line of the declaration is dropped, for a comment left open on it or for a token that closes
nothing; or a line before it joins an opening tag around a comment. -/
theorem missed_samples :
    Missed (ascii "<!DOCTYPE a <!-- b\n-->\n") 2 ∧
      Missed (ascii "<!DOCTYPE a -->\n") 2 ∧
      Missed (ascii "<<!-- b -->a\n<!DOCTYPE c>\n") 15 := by
  refine ⟨?_, ?_, ?_⟩ <;> exact missed_of_modeOf (by decide +kernel)

/-- The layouts left out are those of which a scanner of lines loses sight: it keeps an opening tag
in a comment before the first opening token of a line, it loses the comment that a line leaves open,
and it reads on the token that opens a comment where that is closed at once. -/
theorem missed_layouts :
    Missed (ascii "<!--\n<a --> <!-- b -->\n<!DOCTYPE c>\n") 25 ∧
      Missed (ascii "<!-- a --> b <!-- c\n--> <!DOCTYPE d>\n") 26 ∧
      Missed (ascii "<!--\na --> <!--> <!--> <!DOCTYPE b> --> c\n") 25 := by
  refine ⟨?_, ?_, ?_⟩ <;> exact missed_of_modeOf (by decide +kernel)

end Detector

end DoctypeProbe
