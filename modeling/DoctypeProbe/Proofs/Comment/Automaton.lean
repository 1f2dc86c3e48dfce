import DoctypeProbe.Comment
import DoctypeProbe.Proofs.Bytes.Search
import DoctypeProbe.Proofs.Text.Lines

/-!
# Whether a Text Ends Inside a Comment

`Comment.endsInside` goes through a text from token to token. Where no token lies across the
seam of two parts it can stop after the first and go on with the second, which is how the
state of a whole document is had from its lines: no token has a terminator in it.

## Main results

* `Comment.endsInside_append`: the state after two parts of a text.
* `Comment.endsInside_of_line`, `Comment.endsInside_ofText`: the state after a line with its
  terminator, and after all lines of a text.
-/

namespace DoctypeProbe

namespace Comment

open Bytes

/-! ### Seams -/

/-- No token lies across the seam of two parts of a text. -/
def Seam (s t : Bytes) : Prop := ∀ inside, ¬ Straddles (token inside) s t

/-- The bytes that tokens are made of. -/
def tokenBytes : Bytes := ascii "<!->"

theorem mem_tokenBytes {b : Byte} {inside : Bool} (h : b ∈ token inside) : b ∈ tokenBytes := by
  cases inside
  · exact (by decide : opening ⊆ tokenBytes) h
  · exact (by decide : closing ⊆ tokenBytes) h

theorem not_mem_tail_token_less (inside : Bool) : Ascii.less ∉ (token inside).tail := by
  cases inside <;> decide

/-- A byte that no token goes on with begins a part of its own. -/
theorem seam_of_head {s t : Bytes} (h : ∀ b ∈ t.head?, b = Ascii.less ∨ b ∉ tokenBytes) :
    Seam s t := by
  intro inside
  refine not_straddles_of_head fun b hb hm => ?_
  rcases h b hb with rfl | hn
  · exact not_mem_tail_token_less inside hm
  · exact hn (mem_tokenBytes (List.mem_of_mem_tail hm))

/-- A byte that is in no token ends a part of its own. -/
theorem seam_of_getLast {s t : Bytes} (h : ∀ b ∈ s.getLast?, b ∉ tokenBytes) : Seam s t :=
  fun _ => not_straddles_of_getLast fun b hb hm => h b hb (mem_tokenBytes hm)

theorem Seam.of_suffix {s s' t : Bytes} (h : Seam s t) (hs : s' <:+ s) : Seam s' t := by
  rintro inside ⟨a, b, ha, hb, he, has, hbt⟩
  exact h inside ⟨a, b, ha, hb, he, has.trans hs, hbt⟩

/-- A terminator is in no token. -/
theorem not_mem_tokenBytes_of_isTerminator {t : Byte} (h : Lines.isTerminator t = true) :
    t ∉ tokenBytes := by
  rcases Lines.isTerminator_iff.mp h with rfl | rfl <;> decide

/-! ### The state after two parts -/

/-- Without the token that is waited for the state stays as it is. -/
theorem endsInside_of_absent {inside : Bool} {s : Bytes} (h : ¬ token inside <:+: s) :
    endsInside inside s = inside := by
  rw [endsInside]
  split
  · rfl
  · rename_i rest hr
    rw [after_eq_none_iff.mpr h] at hr
    cases hr

/-- The token that is waited for changes the state. -/
theorem endsInside_of_after {inside : Bool} {s rest : Bytes}
    (h : s.after (token inside) = some rest) :
    endsInside inside s = endsInside (!inside) rest := by
  rw [endsInside]
  split
  · rename_i hn
    rw [h] at hn
    cases hn
  · rename_i rest' hr
    rw [h] at hr
    cases hr
    rfl

theorem suffix_of_after {s token rest : Bytes} (h : s.after token = some rest) : rest <:+ s := by
  obtain ⟨before, hc⟩ := after_eq_some_iff.mp h
  obtain ⟨hs, -⟩ := eq_of_cutAt hc
  exact ⟨before ++ token, by rw [hs, List.append_assoc]⟩

/-- **The state after two parts**: read the second from the state after the first. -/
theorem endsInside_append (inside : Bool) {s t : Bytes} (h : Seam s t) :
    endsInside inside (s ++ t) = endsInside (endsInside inside s) t := by
  fun_induction endsInside inside s with
  | case1 inside s hn =>
      have ha := after_append_right (after_eq_none_iff.mp hn) (h inside)
      rw [endsInside, endsInside, ha]
  | case2 inside s rest hr ih =>
      rw [endsInside_of_after (after_append_left hr t)]
      exact ih (h.of_suffix (suffix_of_after hr))

@[simp] theorem endsInside_nil (inside : Bool) : endsInside inside [] = inside :=
  endsInside_of_absent fun h => token_ne_nil inside (List.infix_nil.mp h)

/-- A text of bytes that are in no token leaves the state as it is. -/
theorem endsInside_of_not_mem {inside : Bool} {s : Bytes} (h : ∀ b ∈ s, b ∉ tokenBytes) :
    endsInside inside s = inside := by
  refine endsInside_of_absent fun hi => ?_
  obtain ⟨b, hb⟩ := List.exists_mem_of_ne_nil _ (token_ne_nil inside)
  exact h b (hi.subset hb) (mem_tokenBytes hb)

theorem endsInside_append_of_not_mem (inside : Bool) (s : Bytes) {t : Bytes}
    (h : ∀ b ∈ t, b ∉ tokenBytes) : endsInside inside (s ++ t) = endsInside inside s := by
  have hs : Seam s t := seam_of_head fun b hb => Or.inr (h b (List.mem_of_mem_head? hb))
  rw [endsInside_append inside hs, endsInside_of_not_mem h]

/-! ### Bytes outside tokens -/

/-- A text goes on with a byte that is in no occurrence of a token. -/
structure Plain (x y : Bytes) : Prop where
  ne_nil : y ≠ []
  seam : Seam x y
  not_prefix : ∀ inside, ¬ token inside <+: y

/-- A byte that no token is made of is in none. -/
theorem plain_of_not_mem {x y : Bytes} {b : Byte} (h : b ∉ tokenBytes) : Plain x (b :: y) where
  ne_nil := List.cons_ne_nil b y
  seam := seam_of_head fun c hc => Or.inr (by cases hc; exact h)
  not_prefix inside hp := by
    obtain ⟨d, l, hd⟩ := List.exists_cons_of_ne_nil (token_ne_nil inside)
    rw [hd, List.cons_prefix_cons] at hp
    have hm : b ∈ token inside := by
      rw [hd, ← hp.1]
      exact List.mem_cons_self
    exact h (mem_tokenBytes hm)

/-- **A token that is found** comes behind a byte outside tokens, and the state there is the
one at the start, or before it, and the state there is the one that the token leads to. -/
theorem Plain.cases {x y rest : Bytes} {inside : Bool} (h : Plain x y)
    (hr : (x ++ y).after (token inside) = some rest) :
    (∃ z, z ≠ [] ∧ (x ++ y).cutAt (token inside) = some (x ++ z, token inside ++ rest) ∧
      endsInside inside x = inside) ∨
    (∃ w x', x = w ++ x' ∧ rest = x' ++ y ∧ endsInside inside x = endsInside (!inside) x') := by
  obtain ⟨before, hc⟩ := after_eq_some_iff.mp hr
  have hs := (eq_of_cutAt hc).1
  rcases cut_cases hs with ⟨c, hc0, rfl, hy⟩ | ⟨z, rfl, hy⟩
  · -- the byte is not in the token, so the token ends before it
    rcases cut_cases hy with ⟨d, hd0, hd, rfl⟩ | ⟨x', rfl, hrest⟩
    · refine absurd ?_ (h.seam inside)
      exact ⟨c, d, hc0, hd0, hd, List.suffix_append before c, List.prefix_append d rest⟩
    · refine Or.inr ⟨before ++ token inside, x', by rw [List.append_assoc], hrest, ?_⟩
      rw [← List.append_assoc]
      exact endsInside_of_after (after_of_cutAt hc x')
  · refine Or.inl ⟨z, ?_, hc, ?_⟩
    · rintro rfl
      exact h.not_prefix inside (hy ▸ List.prefix_append _ rest)
    · refine endsInside_of_absent fun hi => cutAt_before (token_ne_nil inside) hc ?_
      exact hi.trans (List.prefix_append x z).isInfix

theorem Plain.of_append {w x y : Bytes} (h : Plain (w ++ x) y) : Plain x y :=
  ⟨h.ne_nil, h.seam.of_suffix (List.suffix_append w x), h.not_prefix⟩

/-! ### The state after lines -/

/-- What ends a line leaves the state as it is. -/
theorem endsInside_break {brk rest : Bytes} (h : Lines.Break brk rest) (inside : Bool) :
    endsInside inside brk = inside :=
  endsInside_of_not_mem fun b hb => not_mem_tokenBytes_of_isTerminator (h.isTerminator b hb)

/-- What ends a line begins a part of its own. -/
theorem seam_break {brk rest : Bytes} (h : Lines.Break brk rest) (line : Bytes) :
    Seam line (brk ++ rest) :=
  seam_of_head fun b hb => Or.inr (not_mem_tokenBytes_of_isTerminator (h.isTerminator_head? b hb))

/-- What ends a line ends a part of its own. -/
theorem seam_break_left {brk rest : Bytes} (h : Lines.Break brk rest) (t : Bytes) :
    Seam brk t := by
  refine seam_of_getLast fun b hb => ?_
  exact not_mem_tokenBytes_of_isTerminator (h.isTerminator b (List.mem_of_getLast? hb))

/-- **The state after a line** and its terminator is the state after the line. -/
theorem endsInside_of_line (inside : Bool) {line brk rest : Bytes} (h : Lines.Break brk rest) :
    endsInside inside (line ++ brk ++ rest) = endsInside (endsInside inside line) rest := by
  rw [List.append_assoc, endsInside_append inside (seam_break h line),
    endsInside_append _ (seam_break_left h rest), endsInside_break h]

/-- The state after lines read one after the other. -/
def endsInsideLines (inside : Bool) (lines : List Bytes) : Bool := lines.foldl endsInside inside

/-- **The state after a text** is the state after its lines. -/
theorem endsInside_ofText (inside : Bool) (s : Bytes) :
    endsInside inside s = endsInsideLines inside (Lines.ofText s) := by
  induction s using Lines.inductionOn generalizing inside with
  | nil => exact endsInside_nil inside
  | last line hne hl =>
      rw [Lines.ofText_unbroken hl hne]
      rfl
  | line line brk rest hl hb ih =>
      rw [endsInside_of_line inside hb, ih, Lines.ofText_append hl hb]
      rfl

end Comment

end DoctypeProbe
