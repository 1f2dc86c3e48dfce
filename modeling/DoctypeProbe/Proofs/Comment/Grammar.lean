import DoctypeProbe.Proofs.Comment.Scanner
import Mathlib.Data.List.TakeWhile

/-!
# The Grammar of a Stripped Line

What is left of a line can be said without a scanner. The line is cut in front of its first opening
token. What follows is a run of comments: each ends with the first closing token behind its opening
one, and between two of them there is nothing but blanks and control characters. The text before
the run and the text behind it are kept, and everything in between is taken out. Only two kinds of
lines are different. A line without any token is kept as it is, and a line whose run does not end
on it keeps nothing.

A run is read one comment at a time (`Comment.Closes`), so the shortest possible comment is taken
in each place, and whether there is another one is decided behind it and not before. The tokens of
a comment do not overlap: in `<!-->` the comment is still open.

## Main results

* `Comment.remainder_true_eq_some_iff`: a walk leaves what stands behind a run of comments.
* `Comment.strip_eq_iff_stripped`: the lines that the grammar describes, and what is left of them.
-/

namespace DoctypeProbe

namespace Comment

open Bytes

/-! ### Runs of comments -/

/-- Blanks and control characters. -/
def Spacing (s : Bytes) : Prop := ∀ b ∈ s, b ≤ Ascii.space

/-- A text opens another comment, past blanks and control characters. -/
def Reopens (s : Bytes) : Prop :=
  ∃ blanks tail, Spacing blanks ∧ s = blanks ++ (opening ++ tail)

/-- From inside a comment a text goes on to the end of a run of comments, and `rest` stands behind
the run.

* `last`: the comment is the last one of the run.
* `another`: behind the comment another one opens. -/
inductive Closes : Bytes → Bytes → Prop
  | last {comment rest : Bytes} :
      UpTo closing comment → ¬Reopens rest → Closes (comment ++ rest) rest
  | another {comment blanks tail rest : Bytes} :
      UpTo closing comment → Spacing blanks → Closes tail rest →
      Closes (comment ++ (blanks ++ (opening ++ tail))) rest

/-- A text begins with a run of comments, behind which `rest` stands. It starts inside the first
comment, or with the opening token of it. -/
def BeginsRun (inside : Bool) (s rest : Bytes) : Prop :=
  if inside then Closes s rest else ∃ tail, s = opening ++ tail ∧ Closes tail rest

/-- Behind a run of comments means behind a closing token. -/
theorem Closes.exists_append {s rest : Bytes} (h : Closes s rest) :
    ∃ front, s = front ++ (closing ++ rest) := by
  induction h with
  | @last comment rest hcomment _ =>
      obtain ⟨front, rfl⟩ := hcomment.1
      exact ⟨front, List.append_assoc _ _ _⟩
  | @another comment blanks tail rest _ _ _ ih =>
      obtain ⟨front, rfl⟩ := ih
      exact ⟨comment ++ (blanks ++ (opening ++ front)), by simp only [List.append_assoc]⟩

/-- A run of comments has a closing token at its end. -/
theorem BeginsRun.exists_append {inside : Bool} {found rest : Bytes}
    (h : BeginsRun inside found rest) :
    ∃ front, found = front ++ (closing ++ rest) := by
  cases inside with
  | true => exact Closes.exists_append h
  | false =>
      obtain ⟨tail, rfl, hcloses⟩ := h
      obtain ⟨front, rfl⟩ := hcloses.exists_append
      exact ⟨opening ++ front, (List.append_assoc _ _ _).symm⟩

theorem Spacing.not_mem_tokenBytes {s : Bytes} (h : Spacing s) : ∀ b ∈ s, b ∉ tokenBytes := by
  intro b hb hm
  have htoken : ∀ c ∈ tokenBytes, ¬c ≤ Ascii.space := by decide +kernel
  exact htoken b hm (h b hb)

/-- Past blanks an opening token is found at once. -/
theorem Spacing.after_opening {blanks : Bytes} (h : Spacing blanks) (tail : Bytes) :
    (blanks ++ (opening ++ tail)).after opening = some tail := by
  have hseam : Seam blanks (opening ++ tail) :=
    seam_of_getLast fun b hb => h.not_mem_tokenBytes b (List.mem_of_getLast? hb)
  have hfree : ¬opening <:+: blanks := by
    intro hi
    have hmem : Ascii.less ∈ blanks := hi.subset (by decide)
    exact h.not_mem_tokenBytes _ hmem (by decide)
  rw [after_append_right hfree (hseam false)]
  exact (after_append_token opening tail).2

theorem reopens_iff {s : Bytes} : Reopens s ↔ opensAnother s = true := by
  rw [opensAnother, List.isPrefixOf_iff_prefix]
  constructor
  · rintro ⟨blanks, tail, hblanks, rfl⟩
    rw [List.dropWhile_append_of_pos fun b hb => decide_eq_true (hblanks b hb)]
    exact List.prefix_append opening tail
  · rintro ⟨tail, htail⟩
    refine ⟨s.takeWhile (· ≤ Ascii.space), tail, fun b hb => ?_, ?_⟩
    · have hblank := List.mem_takeWhile_imp hb
      exact of_decide_eq_true hblank
    · rw [htail, List.takeWhile_append_dropWhile]

theorem not_reopens_iff {s : Bytes} : ¬Reopens s ↔ opensAnother s = false := by
  rw [reopens_iff, Bool.not_eq_true]

/-! ### What a walk leaves -/

/-- What a walk leaves is what it leaves behind the opening token of the next comment. -/
theorem remainder_false_of_spacing {blanks : Bytes} (h : Spacing blanks) (tail : Bytes) :
    remainder false (blanks ++ (opening ++ tail)) = remainder true tail :=
  remainder_step (h.after_opening tail) nofun

/-- A run of comments is walked to its end. -/
theorem remainder_of_closes {s rest : Bytes} (h : Closes s rest) :
    remainder true s = some rest := by
  induction h with
  | @last comment rest hcomment hlast =>
      exact remainder_stop (hcomment.after_append rest) (not_reopens_iff.mp hlast)
  | @another comment blanks tail rest hcomment hblanks _ ih =>
      have hafter : (comment ++ (blanks ++ (opening ++ tail))).after (token true) = some _ :=
        hcomment.after_append _
      have hopens := reopens_iff.mp ⟨blanks, tail, hblanks, rfl⟩
      rw [remainder_step hafter fun _ => hopens]
      exact (remainder_false_of_spacing hblanks tail).trans ih

/-- A walk that leaves something has walked a run of comments. Induction along the walk, which
comes to the next comment in two steps: behind its opening token, and from there on. -/
theorem closes_of_remainder {inside : Bool} {s rest : Bytes} (h : remainder inside s = some rest) :
    (inside = true → Closes s rest) ∧
      (inside = false → ∀ blanks tail, Spacing blanks → s = blanks ++ (opening ++ tail) →
        Closes tail rest) := by
  induction inside, s using walkInduction with
  | ends inside s hn =>
      rw [remainder_end hn] at h
      cases h
  | stops s unread hafter hopens =>
      rw [remainder_stop hafter hopens] at h
      cases h
      obtain ⟨comment, hcomment, rfl⟩ := exists_upTo_of_after hafter
      exact ⟨fun _ => .last hcomment (not_reopens_iff.mpr hopens), nofun⟩
  | steps inside s unread hafter hopens ih =>
      rw [remainder_step hafter hopens] at h
      obtain ⟨hinside, houtside⟩ := ih h
      cases inside with
      | true =>
          obtain ⟨comment, hcomment, rfl⟩ := exists_upTo_of_after hafter
          obtain ⟨blanks, tail, hblanks, rfl⟩ := reopens_iff.mpr (hopens rfl)
          refine ⟨fun _ => ?_, nofun⟩
          exact .another hcomment hblanks (houtside rfl blanks tail hblanks rfl)
      | false =>
          refine ⟨nofun, fun _ blanks tail hblanks hs => ?_⟩
          rw [hs] at hafter
          cases (hblanks.after_opening tail).symm.trans hafter
          exact hinside rfl

/-- **What a walk leaves** is what stands behind a run of comments. -/
theorem remainder_true_eq_some_iff {s rest : Bytes} :
    remainder true s = some rest ↔ Closes s rest :=
  ⟨fun h => (closes_of_remainder h).1 rfl, remainder_of_closes⟩

theorem remainder_opening (tail : Bytes) :
    remainder false (opening ++ tail) = remainder true tail :=
  remainder_false_of_spacing (List.forall_mem_nil _ : Spacing []) tail

/-- What a walk leaves of a text that starts inside a comment or with an opening token. -/
theorem remainder_eq_some_iff {inside : Bool} {s rest : Bytes}
    (h : inside = true ∨ opening <+: s) :
    remainder inside s = some rest ↔ BeginsRun inside s rest := by
  cases inside with
  | true => exact remainder_true_eq_some_iff
  | false =>
      obtain ⟨tail, rfl⟩ := h.resolve_left nofun
      rw [remainder_opening, remainder_true_eq_some_iff]
      constructor
      · exact fun hcloses => ⟨tail, rfl, hcloses⟩
      · rintro ⟨tail', htail, hcloses⟩
        rwa [List.append_cancel_left htail]

/-! ### Lines -/

/-- The text of a line before its comments, and the text that comments are read from.

* `opened`: the line is cut in front of its first opening token.
* `unopened`: it has closing tokens only, and comments are read from the start. -/
inductive Portions (line : Bytes) : Bytes → Bytes → Prop
  | opened {before tail : Bytes} :
      line = before ++ (opening ++ tail) →
      (∀ x y, line = x ++ (opening ++ y) → before.length ≤ x.length) →
      Portions line before (opening ++ tail)
  | unopened : ¬opening <:+: line → closing <:+: line → Portions line [] line

/-- What is left of a line that starts inside or outside a comment, and whether it ends inside one.

* `plain`: a line without any token is kept, and so is the state.
* `closed`: the run of comments ends, and the text around it is kept.
* `unclosed`: the run of comments does not end, and nothing is kept.
* `stray`: a closing token that closes nothing, with no opening one: nothing is kept either. -/
inductive Stripped (inside : Bool) (line : Bytes) : Option Bytes × Bool → Prop
  | plain : ¬opening <:+: line → ¬closing <:+: line → Stripped inside line (some line, inside)
  | closed {before found rest : Bytes} :
      Portions line before found → BeginsRun inside found rest →
      Stripped inside line (some (before ++ rest), false)
  | unclosed {before found : Bytes} :
      Portions line before found → (¬∃ rest, BeginsRun inside found rest) →
      inside = true ∨ opening <:+: line → Stripped inside line (none, true)
  | stray : inside = false → ¬opening <:+: line → closing <:+: line →
      Stripped inside line (none, false)

variable {inside : Bool} {line before found : Bytes}

/-- A line is walked from where its comments are read. -/
theorem Portions.strip_eq (h : Portions line before found) (inside : Bool) :
    strip inside line = walk before inside found := by
  cases h with
  | opened hs hleft => exact strip_opening (cutAt_eq_some_iff.mpr ⟨hs, hleft⟩)
  | unopened ho hc => exact strip_closing ho hc

/-- Comments are read from inside or from an opening token, but for a stray closing one. -/
theorem Portions.inside_or_prefix (h : Portions line before found)
    (hline : inside = true ∨ opening <:+: line) : inside = true ∨ opening <+: found := by
  cases h with
  | opened => exact .inr (List.prefix_append opening _)
  | unopened ho => exact .inl (hline.resolve_right ho)

/-- A run of comments has its first opening token on the line, or before. -/
theorem BeginsRun.inside_or_infix {rest : Bytes} (h : BeginsRun inside found rest)
    (hfound : Portions line before found) : inside = true ∨ opening <:+: line := by
  cases inside with
  | true => exact .inl rfl
  | false =>
      obtain ⟨tail, rfl, -⟩ := h
      cases hfound with
      | opened hs => exact .inr (hs ▸ ⟨before, tail, List.append_assoc _ _ _⟩)
      | unopened => exact .inr (List.prefix_append opening tail).isInfix

/-- What is left of a line where comments are read, by how the walk ends. -/
theorem stripped_walk (h : Portions line before found)
    (hline : inside = true ∨ opening <:+: line) :
    Stripped inside line (walk before inside found) := by
  have hfound := h.inside_or_prefix hline
  rw [walk_eq]
  cases hr : remainder inside found with
  | some rest => exact .closed h ((remainder_eq_some_iff hfound).mp hr)
  | none =>
      have hends := endsInside_of_remainder_none hr (hfound.imp_right List.IsPrefix.isInfix)
      simp only [hends]
      refine .unclosed h ?_ hline
      rintro ⟨rest, hrun⟩
      rw [(remainder_eq_some_iff hfound).mpr hrun] at hr
      cases hr

/-- What is left of every line is described by the grammar. -/
theorem stripped_strip (inside : Bool) (line : Bytes) :
    Stripped inside line (strip inside line) := by
  rcases tokens_of_line line with ⟨before, tail, hc⟩ | ⟨ho, hc⟩ | ⟨ho, hc⟩
  · obtain ⟨hs, hleft⟩ := cutAt_eq_some_iff.mp hc
    have hline : opening <:+: line := ⟨before, tail, by rw [hs, List.append_assoc]⟩
    rw [strip_opening hc]
    exact stripped_walk (.opened hs hleft) (.inr hline)
  · rw [strip_closing ho hc]
    cases inside with
    | true => exact stripped_walk (.unopened ho hc) (.inl rfl)
    | false =>
        have hend : walk [] false line = (none, false) := walk_end ho
        rw [hend]
        exact .stray rfl ho hc
  · rw [strip_plain ho hc]
    exact .plain ho hc

/-- **What is left of a line** is what the grammar describes, for every line, from inside and from
outside a comment: what `strip` answers is left, and nothing else is. -/
theorem strip_eq_iff_stripped (inside : Bool) (line : Bytes) (result : Option Bytes × Bool) :
    strip inside line = result ↔ Stripped inside line result := by
  constructor
  · rintro rfl
    exact stripped_strip inside line
  · intro h
    cases h with
    | plain ho hc => exact strip_plain ho hc
    | closed hportions hrun =>
        have hfound := hportions.inside_or_prefix (hrun.inside_or_infix hportions)
        rw [hportions.strip_eq, walk_eq, (remainder_eq_some_iff hfound).mpr hrun]
    | unclosed hportions hnone hline =>
        have hfound := hportions.inside_or_prefix hline
        have hr : remainder inside _ = none := Option.eq_none_iff_forall_ne_some.mpr
          fun rest hrest => hnone ⟨rest, (remainder_eq_some_iff hfound).mp hrest⟩
        rw [hportions.strip_eq, walk_eq, hr]
        simp only [endsInside_of_remainder_none hr (hfound.imp_right List.IsPrefix.isInfix)]
    | stray hinside ho hc =>
        rw [strip_closing ho hc, hinside]
        exact walk_end ho

end Comment

end DoctypeProbe
