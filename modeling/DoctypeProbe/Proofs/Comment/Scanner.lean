import DoctypeProbe.Proofs.Comment.Automaton

/-!
# What Stripping a Line Keeps

`Comment.strip` keeps two stretches of a line: what stands before its first opening token,
and what is left unread when a run of comments ends. The walk over the run is the automaton
of `Comment.endsInside` with an early stop, so it leaves the automaton outside a comment, in
front of the unread stretch.

## Main results

* `Comment.remainder`: what a walk leaves unread.
* `Comment.walk_eq`: a walk from its remainder and the automaton.
* `Comment.endsInside_of_remainder`: the automaton is outside where the remainder begins.
* `Comment.suffix_remainder`: what stands outside comments is not walked over.
* `Comment.halves`: the two stretches a line keeps.
-/

namespace DoctypeProbe

namespace Comment

open Bytes

/-! ### One step of a walk -/

/-- Without the token that is waited for a walk ends, and the line has no content. -/
theorem walk_end {kept : Bytes} {inside : Bool} {s : Bytes} (h : ¬ token inside <:+: s) :
    walk kept inside s = (none, inside) := by
  rw [walk]
  split
  · rfl
  · rename_i rest hr
    rw [after_eq_none_iff.mpr h] at hr
    cases hr

/-- A walk stops behind a comment after which no other one opens. -/
theorem walk_stop {kept s rest : Bytes} (h : s.after closing = some rest)
    (ho : opensAnother rest = false) : walk kept true s = (some (kept ++ rest), false) := by
  rw [walk]
  split
  · rename_i hn
    rw [token, if_pos rfl, h] at hn
    cases hn
  · rename_i rest' hr
    rw [token, if_pos rfl, h] at hr
    cases hr
    simp [ho]

/-- A walk goes on behind an opening token, and behind a comment after which another one
opens. -/
theorem walk_step {kept : Bytes} {inside : Bool} {s rest : Bytes}
    (h : s.after (token inside) = some rest) (ho : inside = true → opensAnother rest = true) :
    walk kept inside s = walk kept (!inside) rest := by
  rw [walk]
  split
  · rename_i hn
    rw [h] at hn
    cases hn
  · rename_i rest' hr
    rw [h] at hr
    cases hr
    rw [if_neg]
    cases inside
    · simp
    · simp [ho rfl]

/-! ### What a walk leaves unread -/

/-- What a walk leaves unread: the text behind the first comment after which no other one
opens. `none` if the text ends before. -/
def remainder (inside : Bool) (s : Bytes) : Option Bytes := (walk [] inside s).1

theorem remainder_end {inside : Bool} {s : Bytes} (h : ¬ token inside <:+: s) :
    remainder inside s = none := by
  rw [remainder, walk_end h]

theorem remainder_stop {s rest : Bytes} (h : s.after closing = some rest)
    (ho : opensAnother rest = false) : remainder true s = some rest := by
  rw [remainder, walk_stop h ho, List.nil_append]

theorem remainder_step {inside : Bool} {s rest : Bytes} (h : s.after (token inside) = some rest)
    (ho : inside = true → opensAnother rest = true) :
    remainder inside s = remainder (!inside) rest := by
  rw [remainder, walk_step h ho, remainder]

/-- **Induction along a walk.** -/
theorem walkInduction {P : Bool → Bytes → Prop}
    (ends : ∀ inside s, ¬ token inside <:+: s → P inside s)
    (stops : ∀ s rest, s.after closing = some rest → opensAnother rest = false → P true s)
    (steps : ∀ inside s rest, s.after (token inside) = some rest →
      (inside = true → opensAnother rest = true) → P (!inside) rest → P inside s)
    (inside : Bool) (s : Bytes) : P inside s := by
  fun_induction walk [] inside s with
  | case1 inside s hn => exact ends inside s (after_eq_none_iff.mp hn)
  | case2 inside s rest hr ho =>
      obtain ⟨rfl, hn⟩ : inside = true ∧ opensAnother rest = false := by simpa using ho
      exact stops s rest hr hn
  | case3 inside s rest hr ho ih =>
      exact steps inside s rest hr (fun hi => by simpa [hi] using ho) ih

/-- **A walk** keeps what it was given and its remainder, and is outside then; a walk without
remainder ends where the automaton does. -/
theorem walk_eq (kept : Bytes) (inside : Bool) (s : Bytes) :
    walk kept inside s =
      match remainder inside s with
      | some unread => (some (kept ++ unread), false)
      | none => (none, endsInside inside s) := by
  induction inside, s using walkInduction with
  | ends inside s h => rw [walk_end h, remainder_end h, endsInside_of_absent h]
  | stops s rest h ho => rw [walk_stop h ho, remainder_stop h ho]
  | steps inside s rest h ho ih =>
      rw [walk_step h ho, remainder_step h ho, endsInside_of_after h, ih]

/-- A text that opens another comment has an opening token in it. -/
theorem infix_of_opensAnother {s : Bytes} (h : opensAnother s = true) : opening <:+: s :=
  (List.isPrefixOf_iff_prefix.mp h).isInfix.trans (List.dropWhile_suffix _).isInfix

/-- **A walk that finds no end** was left inside a comment, if there was one at all. -/
theorem endsInside_of_remainder_none {inside : Bool} {s : Bytes} (h : remainder inside s = none)
    (hs : inside = true ∨ opening <:+: s) : endsInside inside s = true := by
  induction inside, s using walkInduction with
  | ends inside s hn =>
      rw [endsInside_of_absent hn]
      rcases hs with hi | ho
      · exact hi
      · cases inside
        · exact absurd ho hn
        · rfl
  | stops s rest hr ho =>
      rw [remainder_stop hr ho] at h
      cases h
  | steps inside s rest hr ho ih =>
      rw [remainder_step hr ho] at h
      rw [endsInside_of_after hr]
      refine ih h ?_
      cases inside
      · exact Or.inl rfl
      · exact Or.inr (infix_of_opensAnother (ho rfl))

/-- **The automaton is outside where the remainder begins**, whatever follows there. -/
theorem endsInside_of_remainder {inside : Bool} {s unread : Bytes}
    (h : remainder inside s = some unread) :
    ∃ x, s = x ++ unread ∧ ∀ t, endsInside inside (x ++ t) = endsInside false t := by
  induction inside, s using walkInduction with
  | ends inside s hn =>
      rw [remainder_end hn] at h
      cases h
  | stops s rest hr ho =>
      rw [remainder_stop hr ho] at h
      cases h
      obtain ⟨before, hc⟩ := after_eq_some_iff.mp hr
      refine ⟨before ++ closing, ?_, fun t => ?_⟩
      · rw [(eq_of_cutAt hc).1, List.append_assoc]
      · have ht : (before ++ closing ++ t).after (token true) = some t := after_of_cutAt hc t
        exact endsInside_of_after ht
  | steps inside s rest hr ho ih =>
      rw [remainder_step hr ho] at h
      obtain ⟨x, rfl, hx⟩ := ih h
      obtain ⟨before, hc⟩ := after_eq_some_iff.mp hr
      refine ⟨before ++ token inside ++ x, ?_, fun t => ?_⟩
      · rw [(eq_of_cutAt hc).1]
        simp
      · rw [List.append_assoc (before ++ token inside), endsInside_of_after (after_of_cutAt hc _),
          hx]

/-- A text that opens another comment has only blanks before its first opening token. -/
theorem le_space_of_opensAnother {s before rest : Bytes} (h : opensAnother s = true)
    (hc : s.cutAt opening = some (before, rest)) : ∀ b ∈ before, b ≤ Ascii.space := by
  obtain ⟨-, -, hfirst⟩ := cutAt_eq_some hc
  obtain ⟨z, hz⟩ := hfirst _ _ (List.takeWhile_append_dropWhile (p := (· ≤ Ascii.space))).symm
    (List.isPrefixOf_iff_prefix.mp h)
  intro b hb
  have hm : b ∈ s.takeWhile (· ≤ Ascii.space) := hz ▸ List.mem_append_left z hb
  simpa using List.all_eq_true.mp (List.all_takeWhile (p := (· ≤ Ascii.space))) b hm

/-- **What stands outside comments is not walked over**: within a run of comments there are
only blanks between them, so other text outside is in the remainder. -/
theorem suffix_remainder {inside : Bool} {x y s unread : Bytes} {b : Byte}
    (hs : s = x ++ b :: y) (hp : Plain x (b :: y)) (hb : ¬ b ≤ Ascii.space)
    (hrun : inside = true ∨ opensAnother s = true) (hr : remainder inside s = some unread)
    (ho : endsInside inside x = false) : b :: y <:+ unread := by
  induction inside, s using walkInduction generalizing x with
  | ends inside s hn =>
      rw [remainder_end hn] at hr
      cases hr
  | stops s rest hrest hn =>
      subst hs
      rw [remainder_stop hrest hn] at hr
      cases hr
      have hrest' : (x ++ b :: y).after (token true) = some unread := hrest
      rcases hp.cases hrest' with ⟨z, -, -, hx⟩ | ⟨w, x', -, rfl, -⟩
      · rw [hx] at ho
        cases ho
      · exact List.suffix_append x' (b :: y)
  | steps inside s rest hrest hn ih =>
      subst hs
      rw [remainder_step hrest hn] at hr
      rcases hp.cases hrest with ⟨z, hz, hc, hx⟩ | ⟨w, x', rfl, rfl, hx⟩
      · -- outside, before the opening token: there are only blanks
        obtain rfl : inside = false := hx.symm.trans ho
        obtain ⟨c, z, rfl⟩ := List.exists_cons_of_ne_nil hz
        obtain ⟨hxy, -⟩ := eq_of_cutAt hc
        obtain rfl : b = c := by
          rw [List.append_assoc] at hxy
          exact (List.cons.inj (List.append_cancel_left hxy)).1
        rcases hrun with h | h
        · cases h
        · exact absurd (le_space_of_opensAnother h hc b (by simp)) hb
      · refine ih rfl hp.of_append ?_ hr (hx ▸ ho)
        cases inside
        · exact Or.inl rfl
        · exact Or.inr (hn rfl)

/-! ### The content of a line -/

/-- A line has an opening token, or only closing ones, or none. -/
theorem tokens_of_line (line : Bytes) :
    (∃ before rest, line.cutAt opening = some (before, opening ++ rest)) ∨
    (¬ opening <:+: line ∧ closing <:+: line) ∨ (¬ opening <:+: line ∧ ¬ closing <:+: line) := by
  by_cases ho : opening <:+: line
  · obtain ⟨⟨before, found⟩, hc⟩ := Option.isSome_iff_exists.mp (contains_iff.mpr ho)
    obtain ⟨rest, rfl⟩ := (eq_of_cutAt hc).2
    exact Or.inl ⟨before, rest, hc⟩
  · by_cases hc : closing <:+: line
    · exact Or.inr (Or.inl ⟨ho, hc⟩)
    · exact Or.inr (Or.inr ⟨ho, hc⟩)

theorem strip_opening {inside : Bool} {line before rest : Bytes}
    (h : line.cutAt opening = some (before, rest)) :
    strip inside line = walk before inside rest := by
  rw [strip, h]

theorem strip_closing {inside : Bool} {line : Bytes} (ho : ¬ opening <:+: line)
    (hc : closing <:+: line) : strip inside line = walk [] inside line := by
  rw [strip, cutAt_eq_none_iff.mpr ho]
  exact if_pos (contains_iff.mpr hc)

theorem strip_plain {inside : Bool} {line : Bytes} (ho : ¬ opening <:+: line)
    (hc : ¬ closing <:+: line) : strip inside line = (some line, inside) := by
  rw [strip, cutAt_eq_none_iff.mpr ho]
  exact if_neg (fun h => hc (contains_iff.mp h))

/-- The two stretches of a line that make up its content: the text before the first opening
token, and what the walk from there leaves unread. `none` for a line that keeps nothing. -/
def halves (inside : Bool) (line : Bytes) : Option (Bytes × Bytes) :=
  match line.cutAt opening with
  | some (before, rest) => (remainder inside rest).map fun unread => (before, unread)
  | none =>
    if line.contains closing then (remainder inside line).map fun unread => ([], unread)
    else if inside then none
    else some (line, [])

theorem halves_opening {inside : Bool} {line before rest : Bytes}
    (h : line.cutAt opening = some (before, rest)) :
    halves inside line = (remainder inside rest).map fun unread => (before, unread) := by
  rw [halves, h]

theorem halves_closing {inside : Bool} {line : Bytes} (ho : ¬ opening <:+: line)
    (hc : closing <:+: line) :
    halves inside line = (remainder inside line).map fun unread => ([], unread) := by
  rw [halves, cutAt_eq_none_iff.mpr ho]
  exact if_pos (contains_iff.mpr hc)

theorem halves_plain {inside : Bool} {line : Bytes} (ho : ¬ opening <:+: line)
    (hc : ¬ closing <:+: line) :
    halves inside line = if inside then none else some (line, []) := by
  rw [halves, cutAt_eq_none_iff.mpr ho]
  exact if_neg (fun h => hc (contains_iff.mp h))

/-- **The content of a line** is its two stretches put together; it ends outside then. -/
theorem strip_of_halves {inside : Bool} {line head tail : Bytes}
    (h : halves inside line = some (head, tail)) :
    strip inside line = (some (head ++ tail), false) := by
  rcases tokens_of_line line with ⟨before, rest, hc⟩ | ⟨ho, hc⟩ | ⟨ho, hc⟩
  · rw [halves_opening hc, Option.map_eq_some_iff] at h
    obtain ⟨unread, hr, he⟩ := h
    cases he
    rw [strip_opening hc, walk_eq, hr]
  · rw [halves_closing ho hc, Option.map_eq_some_iff] at h
    obtain ⟨unread, hr, he⟩ := h
    cases he
    rw [strip_closing ho hc, walk_eq, hr]
  · rw [halves_plain ho hc] at h
    cases inside
    · cases h
      rw [strip_plain ho hc, List.append_nil]
    · cases h

/-- A line that keeps nothing has no content outside comments. -/
theorem strip_of_halves_none {inside : Bool} {line : Bytes} (h : halves inside line = none)
    (content : Bytes) : strip inside line ≠ (some content, false) := by
  rcases tokens_of_line line with ⟨before, rest, hc⟩ | ⟨ho, hc⟩ | ⟨ho, hc⟩
  · rw [halves_opening hc, Option.map_eq_none_iff] at h
    rw [strip_opening hc, walk_eq, h]
    simp
  · rw [halves_closing ho hc, Option.map_eq_none_iff] at h
    rw [strip_closing ho hc, walk_eq, h]
    simp
  · rw [halves_plain ho hc] at h
    cases inside
    · cases h
    · rw [strip_plain ho hc]
      simp

/-- The text before the first opening token begins the line, and what is left unread ends
it. -/
theorem prefix_suffix_of_halves {inside : Bool} {line head tail : Bytes}
    (h : halves inside line = some (head, tail)) : head <+: line ∧ tail <:+ line := by
  rcases tokens_of_line line with ⟨before, rest, hc⟩ | ⟨ho, hc⟩ | ⟨ho, hc⟩
  · rw [halves_opening hc, Option.map_eq_some_iff] at h
    obtain ⟨unread, hr, he⟩ := h
    cases he
    obtain ⟨x, hx, -⟩ := endsInside_of_remainder hr
    rw [(eq_of_cutAt hc).1, hx]
    refine ⟨List.prefix_append head _, ?_⟩
    exact (List.suffix_append x tail).trans (List.suffix_append head _)
  · rw [halves_closing ho hc, Option.map_eq_some_iff] at h
    obtain ⟨unread, hr, he⟩ := h
    cases he
    obtain ⟨x, hx, -⟩ := endsInside_of_remainder hr
    exact ⟨List.nil_prefix, hx ▸ List.suffix_append x tail⟩
  · rw [halves_plain ho hc] at h
    cases inside
    · cases h
      exact ⟨List.prefix_refl line, List.nil_suffix⟩
    · cases h

end Comment

end DoctypeProbe
