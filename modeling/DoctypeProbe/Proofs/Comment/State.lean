import DoctypeProbe.Proofs.Comment.Grammar

/-!
# The State Between Lines

Between two lines a scanner remembers whether the first ended inside a comment. That should
be the state of the automaton, which goes from token to token, and on most lines it is. The
scanner differs from it in two ways. It stops behind the first run of comments, so an opening
token after that run is not seen; and it begins at the first opening token in the state of
the line's start, so a comment that closes before that token is closed only behind it. The
second matters where the opening token itself can be read on as a closing one.

`Settled` says of a line that neither makes a difference. The states agree all along the
lines fed exactly when every line is settled in the state that the automaton enters it with.

## Main results

* `Comment.strip_state_iff`: the lines after which the state is the automaton's.
* `Comment.scannerState_eq_iff_settled`: the runs along which it is.
-/

namespace DoctypeProbe

namespace Comment

open Bytes

/-! ### The automaton on a line with an opening token -/

/-- **An opening token cuts a line**: the automaton reads it outside if it starts there, and
also if a comment closes before. -/
theorem endsInside_of_cutAt {inside : Bool} {line before found : Bytes}
    (h : line.cutAt opening = some (before, found)) :
    endsInside inside line = endsInside (inside && !before.contains closing) found := by
  obtain ⟨hs, y, rfl⟩ := eq_of_cutAt h
  have hseam : Seam before (opening ++ y) := seam_of_head fun b hb => by
    cases hb
    exact Or.inl rfl
  rw [hs, endsInside_append inside hseam]
  congr 1
  have ho : ¬ opening <:+: before := cutAt_before (token_ne_nil false) h
  cases inside with
  | false => exact endsInside_of_absent ho
  | true =>
      rw [Bool.true_and]
      by_cases hc : closing <:+: before
      · obtain ⟨rest, hr⟩ := Option.ne_none_iff_exists'.mp (fun hn => after_eq_none_iff.mp hn hc)
        have hn : ¬ opening <:+: rest := fun hi => ho (hi.trans (suffix_of_after hr).isInfix)
        have he : endsInside true before = endsInside false rest := endsInside_of_after hr
        rw [he, contains_iff.mpr hc]
        exact endsInside_of_absent hn
      · rw [contains_eq_false_iff.mpr hc]
        exact endsInside_of_absent hc

theorem endsInside_opening (rest : Bytes) :
    endsInside false (opening ++ rest) = endsInside true rest := by
  refine endsInside_of_after (after_eq_some_iff.mpr ⟨[], ?_⟩)
  rfl

/-- A text that turns an opening token before it into a closing one, as in `<!-->`. -/
def ClosesAtOnce (rest : Bytes) : Prop := ascii ">" <+: rest ∨ ascii "->" <+: rest

instance (rest : Bytes) : Decidable (ClosesAtOnce rest) := inferInstanceAs (Decidable (_ ∨ _))

theorem not_straddles_of_not_closesAtOnce {rest : Bytes} (h : ¬ ClosesAtOnce rest) :
    ¬ Straddles closing opening rest := by
  rintro ⟨a, b, ha, hb, he, -, hbt⟩
  rcases a with - | ⟨x, - | ⟨y, - | ⟨z, a⟩⟩⟩
  · exact ha rfl
  · obtain rfl : ascii "->" = b := (List.cons.inj he).2
    exact h (Or.inr hbt)
  · obtain rfl : ascii ">" = b := (List.cons.inj (List.cons.inj he).2).2
    exact h (Or.inl hbt)
  · have hl := congrArg List.length he
    have h0 := List.length_pos_iff.mpr hb
    simp only [List.length_append, List.length_cons, show closing.length = 3 from rfl] at hl
    omega

/-- Inside a comment an opening token is text like any other, unless it turns into a closing
one. -/
theorem endsInside_true_opening {rest : Bytes} (h : ¬ ClosesAtOnce rest) :
    endsInside true (opening ++ rest) = endsInside true rest := by
  have hs : ¬ Straddles (token true) opening rest := not_straddles_of_not_closesAtOnce h
  have ha : (opening ++ rest).after (token true) = rest.after (token true) :=
    after_append_right (by decide) hs
  rw [endsInside, ha]
  exact (endsInside.eq_def true rest).symm

/-! ### One line -/

/-- The comment that a line starts in closes before the line's first opening token, and this
token turns into a closing one. -/
def Abrupt (inside : Bool) (line : Bytes) : Prop :=
  inside = true ∧ ∃ cut ∈ line.cutAt opening,
    closing <:+: cut.1 ∧ ClosesAtOnce (cut.2.drop opening.length)

instance (inside : Bool) (line : Bytes) : Decidable (Abrupt inside line) :=
  inferInstanceAs (Decidable (_ ∧ _))

/-- A line up to some place behind its first opening token. -/
theorem cutAt_of_leads {line before rest t : Bytes}
    (h : line.cutAt opening = some (before, opening ++ rest)) :
    (before ++ (opening ++ t)).cutAt opening = some (before, opening ++ t) := by
  rw [← List.append_assoc]
  exact cutAt_of_cutAt h t

/-- A line is abrupt if it is up to some place behind its first opening token. -/
theorem Abrupt.of_leads {inside : Bool} {line before rest t : Bytes}
    (hc : line.cutAt opening = some (before, opening ++ rest)) (ht : t <+: rest)
    (h : Abrupt inside (before ++ (opening ++ t))) : Abrupt inside line := by
  obtain ⟨hi, cut, hcut, hb, hclose⟩ := h
  obtain rfl := Option.some.inj ((cutAt_of_leads hc).symm.trans hcut)
  refine ⟨hi, _, hc, hb, ?_⟩
  rw [List.drop_left] at hclose ⊢
  exact hclose.imp (·.trans ht) (·.trans ht)

/-- A line whose state the scanner gets right. The text behind its run of comments leaves no
comment open; or the line is abrupt, and its run does not end exactly when the text behind the
opening token leaves the comment open that the token opens. -/
def Settled (inside : Bool) (line : Bytes) : Prop :=
  ∀ cut ∈ line.cutAt opening,
    if Abrupt inside line then
      (¬∃ rest, BeginsRun inside cut.2 rest) ↔
        endsInside true (cut.2.drop opening.length) = true
    else ∀ rest, BeginsRun inside cut.2 rest → endsInside false rest = false

/-- A line without an opening token is settled. -/
theorem strip_state_of_not_opening {inside : Bool} {line : Bytes} (ho : ¬ opening <:+: line) :
    (strip inside line).2 = endsInside inside line := by
  by_cases hc : closing <:+: line
  · rw [strip_closing ho hc, walk_eq]
    cases hr : remainder inside line with
    | none => rfl
    | some unread =>
        obtain ⟨x, rfl, hx⟩ := endsInside_of_remainder hr
        have hn : ¬ token false <:+: unread :=
          fun hi => ho (hi.trans (List.suffix_append x unread).isInfix)
        rw [hx, endsInside_of_absent hn]
  · rw [strip_plain ho hc]
    refine (endsInside_of_absent ?_).symm
    cases inside
    · exact ho
    · exact hc

/-- The automaton reads the opening token in the state of the line's start, or as if it did,
unless the line is abrupt. -/
theorem endsInside_of_not_abrupt {inside : Bool} {line before found : Bytes}
    (h : line.cutAt opening = some (before, found)) (ha : ¬ Abrupt inside line) :
    endsInside inside line = endsInside inside found := by
  rw [endsInside_of_cutAt h]
  cases inside with
  | false => rfl
  | true =>
      cases hc : before.contains closing with
      | false => rfl
      | true =>
          obtain ⟨-, rest, rfl⟩ := eq_of_cutAt h
          have hn : ¬ ClosesAtOnce rest := by
            refine fun hr => ha ⟨rfl, _, h, contains_iff.mp hc, ?_⟩
            rwa [List.drop_left]
          exact (endsInside_opening rest).trans (endsInside_true_opening hn).symm

/-- **The state after a line** is the automaton's exactly when the line is settled. -/
theorem strip_state_iff {inside : Bool} {line : Bytes} :
    (strip inside line).2 = endsInside inside line ↔ Settled inside line := by
  by_cases ho : opening <:+: line
  · obtain ⟨⟨before, found⟩, hc⟩ := Option.isSome_iff_exists.mp (contains_iff.mpr ho)
    have hf : inside = true ∨ opening <:+: found := Or.inr (eq_of_cutAt hc).2.isInfix
    have hrun : ∀ rest, BeginsRun inside found rest ↔ remainder inside found = some rest :=
      fun rest => (remainder_eq_some_iff (Or.inr (eq_of_cutAt hc).2)).symm
    rw [strip_opening hc, walk_eq, Settled]
    simp only [hc, Option.mem_def, Option.some.injEq, forall_eq', hrun]
    by_cases ha : Abrupt inside line
    · rw [if_pos ha]
      obtain ⟨rfl, cut, hcut, hb, -⟩ := ha
      obtain rfl := Option.some.inj (hc.symm.trans hcut)
      obtain ⟨-, rest, rfl⟩ := eq_of_cutAt hc
      rw [endsInside_of_cutAt hc, contains_iff.mpr hb, List.drop_left]
      rw [Bool.not_true, Bool.and_false, endsInside_opening]
      cases hr : remainder true (opening ++ rest) with
      | none =>
          rw [endsInside_of_remainder_none hr (Or.inl rfl)]
          cases endsInside true rest <;> simp
      | some unread => cases endsInside true rest <;> simp
    · rw [if_neg ha, endsInside_of_not_abrupt hc ha]
      cases hr : remainder inside found with
      | none => simp
      | some unread =>
          obtain ⟨x, rfl, hx⟩ := endsInside_of_remainder hr
          simp only [hx, Option.some.injEq, forall_eq']
          exact eq_comm
  · refine iff_of_true (strip_state_of_not_opening ho) ?_
    intro cut hcut
    rw [cutAt_eq_none_iff.mpr ho] at hcut
    cases hcut

instance (inside : Bool) (line : Bytes) : Decidable (Settled inside line) :=
  decidable_of_iff _ strip_state_iff

/-! ### Runs -/

/-- The state that a scanner is in after lines fed in order. -/
def scannerState (inside : Bool) (lines : List Bytes) : Bool :=
  lines.foldl (fun inside line => (strip inside line).2) inside

/-- The lines, each with the state that the automaton enters it with. -/
def entered (inside : Bool) : List Bytes → List (Bool × Bytes)
  | [] => []
  | line :: lines => (inside, line) :: entered (endsInside inside line) lines

/-- **The states agree all along a run** exactly when every line of it is settled. Induction
on the lines: as long as the states agree, the scanner enters a line as the automaton does. -/
theorem scannerState_eq_iff_settled (inside : Bool) (lines : List Bytes) :
    (∀ fed, fed <+: lines → scannerState inside fed = endsInsideLines inside fed) ↔
      ∀ e ∈ entered inside lines, Settled e.1 e.2 := by
  induction lines generalizing inside with
  | nil =>
      refine iff_of_true ?_ (by simp [entered])
      intro fed hf
      rw [List.prefix_nil.mp hf]
      rfl
  | cons line lines ih =>
      rw [entered, List.forall_mem_cons, ← ih]
      change _ ↔ Settled inside line ∧ _
      rw [← strip_state_iff]
      constructor
      · intro h
        have hl : (strip inside line).2 = endsInside inside line :=
          h [line] (List.prefix_append [line] lines)
        refine ⟨hl, fun fed hf => ?_⟩
        have ht := h (line :: fed) (List.cons_prefix_cons.mpr ⟨rfl, hf⟩)
        rwa [scannerState, List.foldl_cons, hl] at ht
      · rintro ⟨hl, h⟩ fed hf
        rcases fed with - | ⟨b, fed⟩
        · rfl
        · obtain ⟨rfl, hfed⟩ := List.cons_prefix_cons.mp hf
          calc scannerState inside (b :: fed) = scannerState (strip inside b).2 fed := rfl
            _ = scannerState (endsInside inside b) fed := by rw [hl]
            _ = endsInsideLines (endsInside inside b) fed := h fed hfed
            _ = endsInsideLines inside (b :: fed) := rfl

/-- The states do not agree along every run: behind the first comment of this line another
one opens, and is not remembered. -/
theorem scannerState_ne_endsInsideLines :
    ¬ ∀ lines, scannerState false lines = endsInsideLines false lines := by
  intro h
  have hs := h [ascii "<!-- a --> b <!-- c"]
  exact absurd hs (by decide +kernel)

end Comment

end DoctypeProbe
