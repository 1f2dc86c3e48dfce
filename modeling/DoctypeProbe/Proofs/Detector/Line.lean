import DoctypeProbe.Proofs.Comment.Content
import DoctypeProbe.Proofs.Comment.Layout
import DoctypeProbe.Proofs.Detector.Mode
import DoctypeProbe.Proofs.Text.Decoding

/-!
# What One Line Decides

A line decides by what its content begins somewhere: a declaration, or an opening tag. Its
content is two stretches of the line put together, the text before its run of comments and the
text behind it. So such a beginning stands in one of the stretches, or it is in neither alone and
comes about where they are joined. If the comments of the line are laid out in one run, both
stretches are outside comments, and what is found in one of them is too.

## Main results

* `Detector.outside_of_finding`: what a laid out line decides by stands outside comments, or is
  joined.
* `Detector.finding?_eq_doctype_iff`: on a laid out line with declarations in comments alone,
  only a joined one decides.
* `Detector.finding?_of_declared`: a declaration outside comments decides its line, if the
  line is neither dropped nor abrupt.
-/

namespace DoctypeProbe

namespace Detector

open Comment

variable [Alphabet]

/-! ### Beginnings -/

/-- How a text begins that leads to a finding: with a declaration, or with an opening tag. -/
def Finding.Begins : Finding → Bytes → Prop
  | doctype, s => Detector.doctype <+: s
  | element, s => s.head? = some Ascii.less ∧ Letter.startsWith s.tail = true

instance (finding : Finding) (s : Bytes) : Decidable (finding.Begins s) :=
  match finding with
  | .doctype => inferInstanceAs (Decidable (Detector.doctype <+: s))
  | .element => inferInstanceAs (Decidable (_ ∧ _))

/-- A letter in front stays one, whatever follows. -/
theorem startsWith_append {s : Bytes} (h : Letter.startsWith s = true) (t : Bytes) :
    Letter.startsWith (s ++ t) = true := by
  rcases s with - | ⟨b, s⟩
  · cases h
  · rw [Letter.startsWith] at h
    rw [List.cons_append, Letter.startsWith]
    split at h
    · rename_i code k hk
      rw [(Utf8.scalar_append hk t).1]
      exact h
    · cases h

/-- A finding begins with a byte that is neither blank nor part of a closing token. -/
theorem Finding.Begins.exists_cons {finding : Finding} {s : Bytes} (h : finding.Begins s) :
    ∃ b t, s = b :: t ∧ ¬b ≤ Ascii.space ∧ b ∉ closing := by
  cases finding with
  | doctype =>
      obtain ⟨y, rfl⟩ := h
      exact ⟨0x44, Detector.doctype.tail ++ y, rfl, by decide, by decide⟩
  | element =>
      obtain ⟨t, rfl⟩ := List.head?_eq_some_iff.mp h.1
      exact ⟨Ascii.less, t, rfl, by decide, by decide⟩

theorem Finding.Begins.append {finding : Finding} {s : Bytes} (h : finding.Begins s)
    (t : Bytes) : finding.Begins (s ++ t) := by
  cases finding with
  | doctype => exact List.IsPrefix.trans h (List.prefix_append s t)
  | element =>
      obtain ⟨hh, hl⟩ := h
      rcases s with - | ⟨b, s⟩
      · cases hh
      · exact ⟨hh, startsWith_append hl t⟩

/-- What a text decides begins somewhere in it. -/
theorem begins_of_findingIn {content : Bytes} {finding : Finding}
    (h : findingIn content = some finding) : ∃ x s, content = x ++ s ∧ finding.Begins s := by
  rw [findingIn_eq] at h
  split at h
  · rename_i hd
    cases h
    obtain ⟨x, y, hxy⟩ := hd
    exact ⟨x, doctype ++ y, by rw [← hxy, List.append_assoc], List.prefix_append doctype y⟩
  · split at h
    · rename_i ho
      cases h
      obtain ⟨before, hs⟩ := exists_eq_behindLess ho
      exact ⟨before, _, hs, rfl, ho⟩
    · cases h

/-! ### From the content to the line -/

theorem finding?_state (inside : Bool) (line : Bytes) :
    (finding? inside line).2 = (strip inside line).2 := by
  rw [finding?]
  split
  · rename_i hs
    rw [hs]
  · rename_i hs
    rw [hs]

/-- What a line decides is what its two stretches decide together. -/
theorem finding?_of_halves {inside : Bool} {line head tail : Bytes}
    (h : halves inside line = some (head, tail)) :
    (finding? inside line).1 = findingIn (head ++ tail) := by
  rw [finding?, strip_of_halves h]

theorem finding?_of_halves_none {inside : Bool} {line : Bytes} (h : halves inside line = none) :
    (finding? inside line).1 = none := by
  rw [finding?]
  split
  · rename_i content hs
    exact absurd hs (strip_of_halves_none h content)
  · rfl

/-- What a line decides is what is decided by the text that the grammar leaves of it. -/
theorem finding?_eq_some_iff {inside : Bool} {line : Bytes} {finding : Finding} :
    (finding? inside line).1 = some finding ↔
      ∃ content, Stripped inside line (some content, false) ∧
        findingIn content = some finding := by
  simp only [← strip_eq_iff_stripped]
  rw [finding?]
  rcases strip inside line with ⟨- | content, - | -⟩ <;> simp

/-- A line opens an element: a letter stands right behind the first `<` of what is left of it. -/
def OpensElement (inside : Bool) (line : Bytes) : Prop :=
  ∃ content, Stripped inside line (some content, false) ∧
    Letter.startsWith (behindLess content) = true

/-- A line that takes an opening tag for the first element opens one. -/
theorem opensElement_of_finding {inside : Bool} {line : Bytes}
    (h : (finding? inside line).1 = some .element) : OpensElement inside line := by
  obtain ⟨content, hs, hf⟩ := finding?_eq_some_iff.mp h
  refine ⟨content, hs, ?_⟩
  rw [findingIn_eq] at hf
  split at hf
  · cases hf
  · split at hf
    · assumption
    · cases hf

/-- A line that decides nothing opens no element. -/
theorem not_opensElement_of_none {inside : Bool} {line : Bytes}
    (h : (finding? inside line).1 = none) : ¬OpensElement inside line := by
  rintro ⟨content, hs, hl⟩
  cases hf : findingIn content with
  | some finding =>
      rw [finding?_eq_some_iff.mpr ⟨content, hs, hf⟩] at h
      cases h
  | none =>
      rw [findingIn_eq, if_pos hl] at hf
      split at hf <;> cases hf

/-! ### Where a beginning stands -/

/-- A finding begins somewhere in a line, in a comment or not. -/
def Mentions (finding : Finding) (line : Bytes) : Prop := ∃ s ∈ line.tails, finding.Begins s

instance (finding : Finding) (line : Bytes) : Decidable (Mentions finding line) :=
  inferInstanceAs (Decidable (∃ s ∈ line.tails, _))

theorem Mentions.of_suffix {finding : Finding} {line s : Bytes} (h : finding.Begins s)
    (hs : s <:+ line) : Mentions finding line := ⟨s, (List.mem_tails _ _).mpr hs, h⟩

/-- A line joins the text around its run of comments to a finding: some of the text before the run
does not begin with it alone, but does with the text behind the run put to it. -/
def Joins (finding : Finding) (inside : Bool) (line : Bytes) : Prop :=
  ∃ before found rest, Portions line before found ∧ BeginsRun inside found rest ∧
    ∃ s ∈ before.tails, s ≠ [] ∧ ¬finding.Begins s ∧ finding.Begins (s ++ rest)

theorem joins_iff {finding : Finding} {inside : Bool} {line : Bytes} :
    (∃ cut ∈ halves inside line, ∃ s ∈ cut.1.tails,
      s ≠ [] ∧ ¬finding.Begins s ∧ finding.Begins (s ++ cut.2)) ↔ Joins finding inside line := by
  constructor
  · rintro ⟨⟨head, tail⟩, hcut, s, hs, hne, hnot, hb⟩
    rcases halves_eq_some_iff.mp hcut with ⟨-, -, -, -, rfl⟩ | ⟨found, hp, hrun⟩
    · exact absurd (s.append_nil ▸ hb) hnot
    · exact ⟨head, found, tail, hp, hrun, s, hs, hne, hnot, hb⟩
  · rintro ⟨before, found, rest, hp, hrun, hjoin⟩
    exact ⟨(before, rest), hp.halves_eq hrun, hjoin⟩

instance (finding : Finding) (inside : Bool) (line : Bytes) :
    Decidable (Joins finding inside line) :=
  haveI : Decidable (∃ cut ∈ halves inside line, ∃ s ∈ cut.1.tails,
      s ≠ [] ∧ ¬finding.Begins s ∧ finding.Begins (s ++ cut.2)) :=
    Option.decidableExistsMem (halves inside line)
  decidable_of_iff _ joins_iff

/-- **What a line decides by stands outside comments** in it, unless the line joins the text around
its comments to it. A line that mentions it is to be laid out. -/
theorem outside_of_finding {finding : Finding} {inside : Bool} {line : Bytes}
    (h : (finding? inside line).1 = some finding)
    (hlaid : Mentions finding line → LaidOut inside line) (hjoins : ¬Joins finding inside line) :
    ∃ x s, line = x ++ s ∧ finding.Begins s ∧ endsInside inside x = false := by
  rcases hh : halves inside line with - | ⟨head, tail⟩
  · rw [finding?_of_halves_none hh] at h
    cases h
  obtain ⟨-, hsuffix⟩ := prefix_suffix_of_halves hh
  rw [finding?_of_halves hh] at h
  obtain ⟨x, s, hs, hb⟩ := begins_of_findingIn h
  rcases halves_eq_some_iff.mp hh with ⟨rfl, ho, -, rfl, rfl⟩ | ⟨found, hp, hrun⟩
  · -- the line has no comments
    rw [List.append_nil] at hs
    refine ⟨x, s, hs, hb, endsInside_of_absent fun hi => ho ?_⟩
    exact List.IsInfix.trans hi (hs ▸ List.prefix_append x s).isInfix
  · rcases Bytes.cut_cases hs with ⟨c, hc, rfl, rfl⟩ | ⟨z, rfl, rfl⟩
    · by_cases hbc : finding.Begins c
      · -- before the run of comments
        obtain ⟨b, t, rfl, hblank, hclosing⟩ := hbc.exists_cons
        have hl : line = x ++ (b :: t ++ found) := by rw [hp.eq_append, List.append_assoc]
        have hmentions := Mentions.of_suffix (hbc.append found) (hl ▸ List.suffix_append x _)
        exact ⟨x, _, hl, hbc.append found,
          (hlaid hmentions).endsInside_before hp hrun rfl hblank hclosing⟩
      · -- where the two stretches meet
        have hmem : c ∈ (x ++ c).tails := (List.mem_tails _ _).mpr (List.suffix_append x c)
        exact absurd ⟨_, _, _, hp, hrun, c, hmem, hc, hbc, hb⟩ hjoins
    · -- behind the run of comments
      have hmentions := Mentions.of_suffix hb ((List.suffix_append z s).trans hsuffix)
      obtain ⟨front, hl, hout⟩ := (hlaid hmentions).endsInside_behind hp hrun rfl
      exact ⟨front ++ z, s, by rw [hl, List.append_assoc], hb, hout⟩

/-! ### Declarations -/

/-- A declaration that is found in the content decides the line. -/
theorem finding?_of_infix {inside : Bool} {line head tail : Bytes}
    (hh : halves inside line = some (head, tail)) (h : doctype <:+: head ++ tail) :
    (finding? inside line).1 = some .doctype := by
  rw [finding?_of_halves hh, findingIn_eq, if_pos h]

/-- A declaration that a line joins decides it. -/
theorem finding?_of_joins {inside : Bool} {line : Bytes} (h : Joins .doctype inside line) :
    (finding? inside line).1 = some .doctype := by
  obtain ⟨before, found, rest, hp, hrun, s, hs, -, -, hb⟩ := h
  obtain ⟨x, rfl⟩ := (List.mem_tails _ _).mp hs
  refine finding?_of_infix (hp.halves_eq hrun) ?_
  rw [List.append_assoc]
  exact List.IsInfix.trans (List.IsPrefix.isInfix hb) (List.suffix_append x _).isInfix

/-- **A line whose declarations are all in comments** is decided by a declaration exactly when it
joins one. If there are any, the line is to be laid out. -/
theorem finding?_eq_doctype_iff {inside : Bool} {line : Bytes}
    (hcov : ∀ x s, line = x ++ s → Finding.doctype.Begins s → endsInside inside x = true)
    (hlaid : Mentions .doctype line → LaidOut inside line) :
    (finding? inside line).1 = some .doctype ↔ Joins .doctype inside line := by
  refine ⟨fun hf => ?_, finding?_of_joins⟩
  by_contra hjoins
  obtain ⟨x, s, hs, hb, hout⟩ := outside_of_finding hf hlaid hjoins
  rw [hcov x s hs hb] at hout
  cases hout

omit [Alphabet] in
theorem word_doctype : Word doctype := by decide +kernel

/-- **A declaration outside comments decides its line**, if the line is neither dropped nor
abrupt. -/
theorem finding?_of_declared {inside : Bool} {line x y : Bytes}
    (hl : line = x ++ (doctype ++ y)) (ho : endsInside inside x = false)
    (hd : ¬ Dropped inside line) (ha : ¬ Abrupt inside line) :
    (finding? inside line).1 = some .doctype := by
  obtain ⟨head, tail, hh, hw⟩ := word_kept word_doctype hl ho hd ha
  refine finding?_of_infix hh ?_
  rcases hw with hw | hw
  · exact hw.trans (List.prefix_append head tail).isInfix
  · exact hw.trans (List.suffix_append head tail).isInfix

end Detector

end DoctypeProbe
