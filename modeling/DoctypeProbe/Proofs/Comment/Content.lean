import DoctypeProbe.Proofs.Comment.State

/-!
# What a Line Keeps of Its Text Outside Comments

A line does not keep all of its text outside comments. A line whose run of comments is not
closed before its end keeps nothing, and neither does one with a closing token that closes
nothing: such a line is dropped. On a line that is neither dropped nor abrupt a word outside
comments is kept in one piece, in the text before the first opening token or in what is left
unread behind the run.

## Main results

* `Comment.Dropped`: the lines that keep nothing.
* `Comment.word_kept`: words outside comments are kept by the other lines.
-/

namespace DoctypeProbe

namespace Comment

open Bytes

/-! ### Words -/

/-- A word of bytes that are neither blank nor part of a token. -/
def Word (word : Bytes) : Prop := word ≠ [] ∧ ∀ b ∈ word, b ∉ tokenBytes ∧ ¬ b ≤ Ascii.space

instance (word : Bytes) : Decidable (Word word) := inferInstanceAs (Decidable (_ ∧ _))

/-- A word at the front of two parts is in the first, if the second begins with a byte that is
not in the word. -/
theorem prefix_of_prefix_append {word s t : Bytes} (h : word <+: s ++ t)
    (ht : ∀ b ∈ t.head?, b ∉ word) : word <+: s := by
  rcases prefix_append_iff.mp h with hp | ⟨y, hy, rfl, z, rfl⟩
  · exact hp
  · obtain ⟨b, y, rfl⟩ := List.exists_cons_of_ne_nil hy
    exact absurd (List.mem_append_right s List.mem_cons_self) (ht b rfl)

/-- A word and a stretch of other bytes in one text: the word comes behind the stretch or
before its end. -/
theorem Word.append_eq {word s t x y : Bytes} (hw : Word word)
    (hs : ∀ b ∈ s, b ∉ word) (h : s ++ t = x ++ (word ++ y)) :
    ∃ x', x = s ++ x' ∧ t = x' ++ (word ++ y) := by
  rcases cut_cases h with ⟨z, hz, rfl, ht⟩ | ⟨x', hx, ht⟩
  · obtain ⟨b, z, rfl⟩ := List.exists_cons_of_ne_nil hz
    obtain ⟨d, word, rfl⟩ := List.exists_cons_of_ne_nil hw.1
    obtain rfl : d = b := (List.cons.inj ht).1
    exact absurd List.mem_cons_self (hs d (by simp))
  · exact ⟨x', hx, ht⟩

theorem not_mem_token_of_mem_word {word : Bytes} (hw : Word word) (inside : Bool) {b : Byte}
    (hb : b ∈ word) : b ∉ token inside :=
  fun hm => (hw.2 b hb).1 (mem_tokenBytes hm)

/-- A word outside comments is in what a walk leaves unread. -/
theorem Word.infix_remainder {word s x y unread : Bytes} {inside : Bool} (hw : Word word)
    (hs : s = x ++ (word ++ y)) (hrun : inside = true ∨ opensAnother s = true)
    (hr : remainder inside s = some unread) (ho : endsInside inside x = false) :
    word <:+: unread := by
  obtain ⟨b, w, rfl⟩ := List.exists_cons_of_ne_nil hw.1
  obtain ⟨hb, hsp⟩ := hw.2 b List.mem_cons_self
  have hsuf := suffix_remainder (y := w ++ y) hs (plain_of_not_mem hb) hsp hrun hr ho
  exact (List.prefix_append (b :: w) y).isInfix.trans hsuf.isInfix

/-! ### Lines that keep nothing -/

/-- A line that keeps nothing, although it may have text outside comments: its run of comments
does not end on it, or it has a closing token that closes nothing, and no opening one. -/
def Dropped (inside : Bool) (line : Bytes) : Prop :=
  ∃ state, Stripped inside line (none, state)

theorem dropped_iff {inside : Bool} {line : Bytes} :
    (strip inside line).1 = none ↔ Dropped inside line := by
  simp only [Dropped, ← strip_eq_iff_stripped]
  constructor
  · exact fun h => ⟨(strip inside line).2, Prod.ext h rfl⟩
  · rintro ⟨state, h⟩
    rw [h]

instance (inside : Bool) (line : Bytes) : Decidable (Dropped inside line) :=
  decidable_of_iff _ dropped_iff

theorem opensAnother_opening (rest : Bytes) : opensAnother (opening ++ rest) = true := rfl

/-- The text behind a comment on a line without an opening token is left unread. -/
theorem exists_remainder_of_closing {line : Bytes} (ho : ¬ opening <:+: line)
    (hc : closing <:+: line) : ∃ unread, remainder true line = some unread := by
  obtain ⟨rest, hr⟩ := Option.ne_none_iff_exists'.mp fun hn => after_eq_none_iff.mp hn hc
  refine ⟨rest, remainder_stop hr ?_⟩
  rw [← Bool.not_eq_true]
  intro hopens
  exact ho ((infix_of_opensAnother hopens).trans (suffix_of_after hr).isInfix)

/-- On a line with an opening token a word outside comments stands before that token, or is
left unread behind the run of comments. -/
theorem word_kept_of_opening {word line x y before rest unread : Bytes} {inside : Bool}
    (hw : Word word) (hl : line = x ++ (word ++ y)) (ho : endsInside inside x = false)
    (ha : ¬ Abrupt inside line) (hc : line.cutAt opening = some (before, opening ++ rest))
    (hr : remainder inside (opening ++ rest) = some unread) :
    word <:+: before ∨ word <:+: unread := by
  have hopening : ∀ b ∈ opening, b ∉ word := fun b hb hm => not_mem_token_of_mem_word hw false hm hb
  have hs : before ++ (opening ++ rest) = x ++ (word ++ y) := (eq_of_cutAt hc).1 ▸ hl
  rcases cut_cases hs with ⟨z, -, rfl, ht⟩ | ⟨z, rfl, ht⟩
  · have hp : word <+: z ++ (opening ++ rest) := ht ▸ List.prefix_append word y
    have hz : word <+: z := by
      refine prefix_of_prefix_append hp fun b hb => ?_
      cases hb
      exact hopening _ List.mem_cons_self
    exact Or.inl (hz.isInfix.trans (List.suffix_append x z).isInfix)
  · -- behind the opening token: the automaton is outside there, read from the token on
    obtain ⟨x', rfl, hrest⟩ := hw.append_eq hopening ht
    have ha' : ¬ Abrupt inside (before ++ (opening ++ x')) := fun h =>
      ha (h.of_leads hc (hrest ▸ List.prefix_append x' _))
    rw [endsInside_of_not_abrupt (cutAt_of_leads hc) ha'] at ho
    have hs' : opening ++ rest = (opening ++ x') ++ (word ++ y) := by
      rw [hrest, List.append_assoc]
    exact Or.inr (hw.infix_remainder hs' (Or.inr (opensAnother_opening rest)) hr ho)

/-- **A word outside comments is kept**, before the first opening token or behind the run of
comments, by a line that is neither dropped nor abrupt. -/
theorem word_kept {word line x y : Bytes} {inside : Bool} (hw : Word word)
    (hl : line = x ++ (word ++ y)) (ho : endsInside inside x = false)
    (hd : ¬ Dropped inside line) (ha : ¬ Abrupt inside line) :
    ∃ head tail, halves inside line = some (head, tail) ∧ (word <:+: head ∨ word <:+: tail) := by
  have hkeeps : (strip inside line).1 ≠ none := fun hn => hd (dropped_iff.mp hn)
  rcases tokens_of_line line with ⟨before, rest, hc⟩ | ⟨hop, hc⟩ | ⟨hop, hc⟩
  · obtain ⟨unread, hr⟩ : ∃ unread, remainder inside (opening ++ rest) = some unread :=
      Option.ne_none_iff_exists'.mp fun hn => hkeeps (by rw [strip_opening hc, walk_eq, hn])
    refine ⟨before, unread, ?_, word_kept_of_opening hw hl ho ha hc hr⟩
    rw [halves_opening hc, hr]
    rfl
  · obtain rfl : inside = true := by
      cases inside
      · have hend : walk [] false line = (none, false) := walk_end hop
        exact absurd (by rw [strip_closing hop hc, hend]) hkeeps
      · rfl
    obtain ⟨unread, hr⟩ := exists_remainder_of_closing hop hc
    refine ⟨[], unread, ?_, Or.inr (hw.infix_remainder hl (Or.inl rfl) hr ho)⟩
    rw [halves_closing hop hc, hr]
    rfl
  · obtain rfl : inside = false := by
      cases inside
      · rfl
      · have hx : ¬ token true <:+: x :=
          fun h => hc (h.trans (hl ▸ List.prefix_append x _).isInfix)
        rw [endsInside_of_absent hx] at ho
        cases ho
    refine ⟨line, [], ?_, Or.inl ⟨x, y, by rw [hl, List.append_assoc]⟩⟩
    rw [halves_plain hop hc]
    rfl

end Comment

end DoctypeProbe
