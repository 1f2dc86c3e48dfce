import DoctypeProbe.Proofs.Comment.Automaton

/-!
# The Extent of Comments

The comments of a whole text are found by one scan from the left: a comment runs from an
opening token to the end of the next closing token behind it, and to the end of the text if
there is none. `Comment.marks` says of each byte whether it is in a comment, the bytes of the
tokens included.

A byte that is in no token is in a comment exactly when the automaton is inside before it, so
for such bytes the extent of comments can be had from the automaton alone.

## Main results

* `Comment.length_marks`: there is one mark for each byte.
* `Comment.getElem?_marks`: the mark of a byte outside tokens.
* `Comment.getElem?_marks_word`: the marks of a word whose bytes no token is made of.
-/

namespace DoctypeProbe

namespace Comment

open Bytes

/-- Which bytes of a text are in comments, tokens included, if the text starts inside or
outside one. -/
def marks (inside : Bool) (s : Bytes) : List Bool :=
  match _h : s.cutAt (token inside) with
  | none => List.replicate s.length inside
  | some (before, found) =>
    List.replicate before.length inside ++ (List.replicate (token inside).length true ++
      marks (!inside) (found.drop (token inside).length))
termination_by s.length
decreasing_by
  refine length_after_lt (token_ne_nil inside) ?_
  rw [after, ‹s.cutAt _ = _›]
  rfl

/-- Without the token that is waited for all bytes are marked alike. -/
theorem marks_end {inside : Bool} {s : Bytes} (h : ¬ token inside <:+: s) :
    marks inside s = List.replicate s.length inside := by
  rw [marks]
  split
  · rfl
  · rename_i hc
    rw [cutAt_eq_none_iff.mpr h] at hc
    cases hc

/-- The bytes before the token that is waited for are marked alike, and its own are in the
comment it opens or closes. -/
theorem marks_step {inside : Bool} {s before rest : Bytes}
    (h : s.cutAt (token inside) = some (before, token inside ++ rest)) :
    marks inside s = List.replicate before.length inside ++
      (List.replicate (token inside).length true ++ marks (!inside) rest) := by
  rw [marks]
  split
  · rename_i hc
    rw [h] at hc
    cases hc
  · rename_i hc
    rw [h] at hc
    cases hc
    rw [List.drop_left]

/-- **Induction along the tokens of a text.** -/
theorem tokenInduction {P : Bool → Bytes → Prop}
    (ends : ∀ inside s, ¬ token inside <:+: s → P inside s)
    (steps : ∀ inside s before rest, s.cutAt (token inside) = some (before, token inside ++ rest) →
      P (!inside) rest → P inside s)
    (inside : Bool) (s : Bytes) : P inside s := by
  fun_induction endsInside inside s with
  | case1 inside s hn => exact ends inside s (after_eq_none_iff.mp hn)
  | case2 inside s rest hr ih =>
      obtain ⟨before, hc⟩ := after_eq_some_iff.mp hr
      exact steps inside s before rest hc ih

/-- **There is one mark for each byte.** -/
theorem length_marks (inside : Bool) (s : Bytes) : (marks inside s).length = s.length := by
  induction inside, s using tokenInduction with
  | ends inside s h => rw [marks_end h, List.length_replicate]
  | steps inside s before rest h ih =>
      rw [marks_step h, (eq_of_cutAt h).1]
      simp only [List.length_append, List.length_replicate, ih]

/-- **The mark of a byte outside tokens** is the state of the automaton before it. -/
theorem getElem?_marks {inside : Bool} {x y : Bytes} (h : Plain x y) :
    (marks inside (x ++ y))[x.length]? = some (endsInside inside x) := by
  have hpos : 0 < y.length := List.length_pos_iff.mpr h.ne_nil
  generalize hs : x ++ y = s
  induction inside, s using tokenInduction generalizing x with
  | ends inside s hn =>
      subst hs
      have hx : ¬ token inside <:+: x :=
        fun hi => hn (hi.trans (List.prefix_append x y).isInfix)
      rw [marks_end hn, endsInside_of_absent hx, List.getElem?_replicate, if_pos]
      rw [List.length_append]
      omega
  | steps inside s before rest hc ih =>
      subst hs
      rw [marks_step hc]
      have hr : (x ++ y).after (token inside) = some rest := after_eq_some_iff.mpr ⟨before, hc⟩
      rcases h.cases hr with ⟨z, hz, hc', hx⟩ | ⟨w, x', rfl, rfl, hx⟩
      · have hb : before = x ++ z := by
          rw [hc] at hc'
          exact (Prod.mk.inj (Option.some.inj hc')).1
        have hzpos := List.length_pos_iff.mpr hz
        have hlt : x.length < before.length := by
          rw [hb, List.length_append]
          omega
        rw [hx, List.getElem?_append_left (by simpa using hlt), List.getElem?_replicate,
          if_pos hlt]
      · have hw : w = before ++ token inside := by
          have he := (eq_of_cutAt hc).1
          rw [List.append_assoc, ← List.append_assoc before] at he
          exact List.append_cancel_right he
        rw [hx, ← List.append_assoc, List.getElem?_append_right (by simp [hw]),
          ← ih h.of_append rfl]
        congr 1
        simp only [hw, List.length_append, List.length_replicate]
        omega

/-- **The marks of a word** whose bytes no token is made of are alike. -/
theorem getElem?_marks_word {inside : Bool} {x word y : Bytes}
    (hw : ∀ b ∈ word, b ∉ tokenBytes) {j : Nat} (hj : j < word.length) :
    (marks inside (x ++ (word ++ y)))[x.length + j]? = some (endsInside inside x) := by
  have hd : word.drop j = word[j] :: word.drop (j + 1) := List.drop_eq_getElem_cons hj
  have hp : Plain (x ++ word.take j) (word.drop j ++ y) := by
    rw [hd]
    exact plain_of_not_mem (hw _ (List.getElem_mem hj))
  have hm := @getElem?_marks inside _ _ hp
  rw [endsInside_append_of_not_mem inside x fun b hb => hw b (List.mem_of_mem_take hb)] at hm
  rw [← hm, List.length_append, List.length_take, Nat.min_eq_left (Nat.le_of_lt hj)]
  simp only [List.append_assoc]
  rw [← List.append_assoc (word.take j), List.take_append_drop]

end Comment

end DoctypeProbe
