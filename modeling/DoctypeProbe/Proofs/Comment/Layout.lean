import DoctypeProbe.Proofs.Comment.State
import Mathlib.Data.List.Infix

/-!
# Lines Whose Comments Are Laid Out in One Run

A scanner does not look for every comment of a line. What stands in front of the first opening
token is kept as it is, and what stands behind the first run of comments is too, so that a
comment in either place would be kept with it. A line is laid out in one run if there is none: no
comment opens behind the run, and of a comment that the line starts in, nothing but blanks stands
before it is closed in front of the first opening token. Such a line keeps nothing of a comment.

The layout is a matter of the text alone. It is said by the grammar of a line (`Portions`,
`BeginsRun`), which no scanner has a part in.

## Main results

* `Comment.halves_eq_some_iff`: the two stretches that a line keeps, by the grammar.
* `Comment.LaidOut.endsInside_before`: the text before the run is outside comments.
* `Comment.LaidOut.endsInside_behind`: so is the text behind it.
-/

namespace DoctypeProbe

namespace Comment

open Bytes

variable {inside : Bool} {line before found rest : Bytes}

/-! ### The stretches of a line, by the grammar -/

theorem BeginsRun.remainder_eq (h : BeginsRun inside found rest) (hp : Portions line before found) :
    remainder inside found = some rest :=
  (remainder_eq_some_iff (hp.inside_or_prefix (h.inside_or_infix hp))).mpr h

/-- A line keeps the text around its run of comments. -/
theorem Portions.halves_eq (hp : Portions line before found) (h : BeginsRun inside found rest) :
    halves inside line = some (before, rest) := by
  have hr := h.remainder_eq hp
  cases hp with
  | opened hs hleft => rw [halves_opening (cutAt_eq_some_iff.mpr ⟨hs, hleft⟩), hr, Option.map_some]
  | unopened ho hc => rw [halves_closing ho hc, hr, Option.map_some]

/-- **The two stretches that a line keeps** are the text before its run of comments and the text
behind it. A line outside comments that has no token is kept as it is. -/
theorem halves_eq_some_iff {head tail : Bytes} :
    halves inside line = some (head, tail) ↔
      (inside = false ∧ ¬opening <:+: line ∧ ¬closing <:+: line ∧ head = line ∧ tail = []) ∨
        ∃ found, Portions line head found ∧ BeginsRun inside found tail := by
  constructor
  · intro h
    rcases tokens_of_line line with ⟨before, rest, hc⟩ | ⟨ho, hc⟩ | ⟨ho, hc⟩
    · rw [halves_opening hc, Option.map_eq_some_iff] at h
      obtain ⟨unread, hr, ⟨⟩⟩ := h
      obtain ⟨hs, hleft⟩ := cutAt_eq_some_iff.mp hc
      have hrun := (remainder_eq_some_iff (Or.inr (List.prefix_append opening rest))).mp hr
      exact Or.inr ⟨_, .opened hs hleft, hrun⟩
    · rw [halves_closing ho hc, Option.map_eq_some_iff] at h
      obtain ⟨unread, hr, ⟨⟩⟩ := h
      cases inside with
      | true => exact Or.inr ⟨line, .unopened ho hc, remainder_true_eq_some_iff.mp hr⟩
      | false =>
          have hnone : remainder false line = none := remainder_end ho
          rw [hnone] at hr
          cases hr
    · rw [halves_plain ho hc] at h
      cases inside with
      | true => cases h
      | false =>
          cases h
          exact Or.inl ⟨rfl, ho, hc, rfl, rfl⟩
  · rintro (⟨rfl, ho, hc, rfl, rfl⟩ | ⟨found, hp, hrun⟩)
    · rw [halves_plain ho hc, if_neg Bool.false_ne_true]
    · exact hp.halves_eq hrun

/-! ### The layout -/

/-- Past blanks a text is at its end, or closes a comment. -/
def BlankFront (before : Bytes) : Prop :=
  before.dropWhile (· ≤ Ascii.space) = [] ∨ closing <+: before.dropWhile (· ≤ Ascii.space)

instance (before : Bytes) : Decidable (BlankFront before) := inferInstanceAs (Decidable (_ ∨ _))

/-- The comments of a line are laid out in one run: no other one opens behind it, and if the line
starts inside a comment, only blanks of that comment stand in front of the first opening token. -/
structure LaidOut (inside : Bool) (line : Bytes) : Prop where
  not_abrupt : ¬Abrupt inside line
  behind : ∀ {before found rest : Bytes}, Portions line before found →
    BeginsRun inside found rest → ¬opening <:+: rest
  front : ∀ {before found rest : Bytes}, Portions line before found →
    BeginsRun inside found rest → inside = true → BlankFront before

theorem laidOut_iff :
    (¬Abrupt inside line ∧ ∀ cut ∈ halves inside line,
      ¬opening <:+: cut.2 ∧ (inside = true → BlankFront cut.1)) ↔ LaidOut inside line := by
  constructor
  · rintro ⟨ha, h⟩
    exact ⟨ha, fun hp hrun => (h _ (hp.halves_eq hrun)).1,
      fun hp hrun => (h _ (hp.halves_eq hrun)).2⟩
  · rintro ⟨ha, hbehind, hfront⟩
    refine ⟨ha, ?_⟩
    rintro ⟨head, tail⟩ hcut
    rcases halves_eq_some_iff.mp hcut with ⟨rfl, -, -, rfl, rfl⟩ | ⟨found, hp, hrun⟩
    · exact ⟨(by decide : ¬opening <:+: []), nofun⟩
    · exact ⟨hbehind hp hrun, hfront hp hrun⟩

instance (inside : Bool) (line : Bytes) : Decidable (LaidOut inside line) :=
  haveI : Decidable (∀ cut ∈ halves inside line,
      ¬opening <:+: cut.2 ∧ (inside = true → BlankFront cut.1)) :=
    Option.decidableForallMem (halves inside line)
  decidable_of_iff _ laidOut_iff

/-! ### What a laid out line keeps -/

theorem Portions.eq_append (hp : Portions line before found) : line = before ++ found := by
  cases hp with
  | opened hs _ => exact hs
  | unopened _ _ => rfl

/-- No comment opens in the text before the first opening token. -/
theorem Portions.not_opening (hp : Portions line before found) : ¬opening <:+: before := by
  cases hp with
  | opened hs hleft =>
      exact cutAt_before (token_ne_nil false) (cutAt_eq_some_iff.mpr ⟨hs, hleft⟩)
  | unopened _ _ => exact fun h => absurd (List.infix_nil.mp h) (by decide)

/-- Behind blanks and a closing token the automaton is outside, as long as no comment opens. -/
theorem Spacing.endsInside_closing {blanks mid : Bytes} (h : Spacing blanks)
    (hmid : ¬opening <:+: mid) : endsInside true (blanks ++ (closing ++ mid)) = false := by
  have hseam : Seam blanks (closing ++ mid) :=
    seam_of_getLast fun b hb => h.not_mem_tokenBytes b (List.mem_of_getLast? hb)
  have hclose : endsInside true (closing ++ mid) = endsInside false mid :=
    endsInside_of_after (after_append_token closing mid).2
  rw [endsInside_append true hseam, endsInside_of_not_mem h.not_mem_tokenBytes, hclose]
  exact endsInside_of_absent hmid

/-- **The text before the run** of a laid out line is outside comments wherever a byte stands that
is neither blank nor part of a closing token. -/
theorem LaidOut.endsInside_before (h : LaidOut inside line) (hp : Portions line before found)
    (hrun : BeginsRun inside found rest) {x s : Bytes} {b : Byte} (hs : before = x ++ b :: s)
    (hblank : ¬b ≤ Ascii.space) (hclosing : b ∉ closing) : endsInside inside x = false := by
  have hopening : ¬opening <:+: x := fun hi =>
    hp.not_opening (hi.trans (hs ▸ List.prefix_append x (b :: s)).isInfix)
  cases inside with
  | false => exact endsInside_of_absent hopening
  | true =>
      have hblanks : Spacing (before.takeWhile (· ≤ Ascii.space)) := fun c hc => by
        simpa using List.mem_takeWhile_imp hc
      have hcut : before.takeWhile (· ≤ Ascii.space) ++ before.dropWhile (· ≤ Ascii.space) =
          x ++ b :: s := by
        rw [List.takeWhile_append_dropWhile, hs]
      rcases cut_cases hcut with ⟨z, hz, hx, hbs⟩ | ⟨z, rfl, hback⟩
      · -- the byte would be one of the blanks
        obtain ⟨c, z, rfl⟩ := List.exists_cons_of_ne_nil hz
        obtain rfl : b = c := (List.cons.inj hbs).1
        exact absurd (hblanks b (by simp [hx])) hblank
      · rcases h.front hp hrun rfl with hnil | hclose
        · rw [hnil] at hback
          simp at hback
        · rw [hback, prefix_append_iff] at hclose
          rcases hclose with ⟨mid, rfl⟩ | ⟨y, hy, hzy, hprefix⟩
          · refine hblanks.endsInside_closing fun hi => hopening (hi.trans ?_)
            exact ((List.suffix_append closing mid).trans (List.suffix_append _ _)).isInfix
          · -- the byte would be part of the closing token
            obtain ⟨c, y, rfl⟩ := List.exists_cons_of_ne_nil hy
            obtain rfl : c = b := (List.cons_prefix_cons.mp hprefix).1
            exact absurd (hzy ▸ by simp) hclosing

/-- Where a run of comments begins with an opening token, the automaton that reads it from there
is outside behind the run. -/
theorem BeginsRun.exists_opening {tail : Bytes} (h : BeginsRun inside (opening ++ tail) rest) :
    ∃ run, tail = run ++ rest ∧
      ∀ t, endsInside inside (opening ++ (run ++ t)) = endsInside false t := by
  have hr := (remainder_eq_some_iff (Or.inr (List.prefix_append opening tail))).mpr h
  obtain ⟨y, hy, hends⟩ := endsInside_of_remainder hr
  obtain ⟨front, hfront⟩ := h.exists_append
  obtain rfl : y = front ++ closing := by
    refine List.append_cancel_right (?_ : y ++ rest = _ ++ rest)
    rw [← hy, hfront, List.append_assoc]
  -- the tokens may overlap, but the opening one comes first
  have hopening : opening <+: front ++ closing := by
    refine List.prefix_of_prefix_length_le (List.prefix_append opening tail)
      (hy ▸ List.prefix_append _ rest) ?_
    rcases front with - | ⟨b, front⟩
    · exact absurd (List.cons.inj hfront).1 (by decide)
    · simp only [List.cons_append, List.length_cons, List.length_append,
        show opening.length = 4 from rfl, show closing.length = 3 from rfl]
      omega
  obtain ⟨run, hrun⟩ := hopening
  refine ⟨run, ?_, fun t => ?_⟩
  · rw [← hrun, List.append_assoc] at hy
    exact List.append_cancel_left hy
  · rw [← List.append_assoc, hrun, hends]

/-- **The text behind the run** of a laid out line is outside comments. -/
theorem LaidOut.endsInside_behind (h : LaidOut inside line) (hp : Portions line before found)
    (hrun : BeginsRun inside found rest) {x s : Bytes} (hs : rest = x ++ s) :
    ∃ front, line = front ++ rest ∧ endsInside inside (front ++ x) = false := by
  have houtside : endsInside false x = false := endsInside_of_absent fun hi =>
    h.behind hp hrun (List.IsInfix.trans hi (hs ▸ List.prefix_append x s).isInfix)
  cases hp with
  | @opened before tail hline hleft =>
      have hc : line.cutAt opening = some (before, opening ++ tail) :=
        cutAt_eq_some_iff.mpr ⟨hline, hleft⟩
      obtain ⟨run, rfl, hends⟩ := hrun.exists_opening
      refine ⟨before ++ (opening ++ run), by rw [hline]; simp only [List.append_assoc], ?_⟩
      have hrest : run ++ x <+: run ++ rest := by
        rw [hs, ← List.append_assoc]
        exact List.prefix_append _ s
      have ha : ¬Abrupt inside (before ++ (opening ++ (run ++ x))) := fun ha =>
        h.not_abrupt (ha.of_leads hc hrest)
      have hshape : before ++ (opening ++ run) ++ x = before ++ (opening ++ (run ++ x)) := by
        simp only [List.append_assoc]
      rw [hshape, endsInside_of_not_abrupt (cutAt_of_leads hc) ha, hends, houtside]
  | unopened ho hc =>
      obtain ⟨y, hy, hends⟩ := endsInside_of_remainder (hrun.remainder_eq (.unopened ho hc))
      exact ⟨y, hy, by rw [hends, houtside]⟩

end Comment

end DoctypeProbe
