import DoctypeProbe.Bytes

/-!
# Searching for a Token

`Bytes.cutAt` finds the first occurrence of a token, and `Bytes.contains` and `Bytes.after`
are read off it. Here they are tied to the infix relation on lists, and it is shown what they
find in a text that is put together from two parts: the first occurrence in the first part,
or else the first one in the second part, unless the token lies across the seam.

## Main results

* `Bytes.contains_iff`: a text contains a token when the token is an infix of it.
* `Bytes.cutAt_eq_some`: what is found, and that nothing is found before it.
* `Bytes.cut_cases`: a text cut in two ways.
* `Bytes.cutAt_append_left`, `Bytes.cutAt_append_right`: searching through two parts.
* `Bytes.not_straddles_of_head`, `Bytes.not_straddles_of_getLast`: seams that no occurrence
  of a token lies across.
* `Bytes.exists_upTo_of_after`, `Bytes.cutAt_eq_some_iff`: the first occurrence as the end of the
  shortest text that ends in the token, and as the leftmost place where it stands.
-/

namespace DoctypeProbe

namespace Bytes

/-! ### What is found -/

theorem cutAt_eq_none_iff {s token : Bytes} : s.cutAt token = none ↔ ¬ token <:+: s := by
  induction s with
  | nil =>
      rw [cutAt, List.infix_nil]
      cases token <;> simp
  | cons b s ih =>
      rw [cutAt, List.infix_cons_iff]
      by_cases hp : token <+: b :: s
      · rw [if_pos (List.isPrefixOf_iff_prefix.mpr hp)]
        simp [hp]
      · rw [if_neg (fun h => hp (List.isPrefixOf_iff_prefix.mp h)), Option.map_eq_none_iff, ih]
        simp [hp]

/-- A text contains a token when the token is an infix of it. -/
theorem contains_iff {s token : Bytes} : s.contains token = true ↔ token <:+: s := by
  rw [contains, Option.isSome_iff_ne_none, ne_eq, cutAt_eq_none_iff, Decidable.not_not]

theorem contains_eq_false_iff {s token : Bytes} :
    s.contains token = false ↔ ¬ token <:+: s := by
  rw [← contains_iff, Bool.not_eq_true]

/-- **What is found** is the whole text, split where the token begins, and no occurrence
begins before. -/
theorem cutAt_eq_some {s token before rest : Bytes} (h : s.cutAt token = some (before, rest)) :
    s = before ++ rest ∧ token <+: rest ∧
      ∀ x y, s = x ++ y → token <+: y → ∃ z, x = before ++ z := by
  obtain ⟨hs, hp⟩ := eq_of_cutAt h
  refine ⟨hs, hp, ?_⟩
  clear hs hp
  induction s generalizing before with
  | nil =>
      intro x y hxy hy
      obtain ⟨rfl, rfl⟩ := List.nil_eq_append_iff.mp hxy
      obtain rfl := List.prefix_nil.mp hy
      obtain rfl : [] = before := by simp_all [cutAt]
      exact ⟨[], rfl⟩
  | cons b s ih =>
      intro x y hxy hy
      rw [cutAt] at h
      split at h
      · cases h
        exact ⟨x, rfl⟩
      · rename_i hn
        obtain ⟨⟨before', rest'⟩, hc, he⟩ := Option.map_eq_some_iff.mp h
        cases he
        rcases List.cons_eq_append_iff.mp hxy with ⟨rfl, rfl⟩ | ⟨x, rfl, hx⟩
        · exact absurd (List.isPrefixOf_iff_prefix.mpr hy) hn
        · obtain ⟨z, rfl⟩ := ih hc x y hx hy
          exact ⟨z, rfl⟩

/-- Nothing is found in what stands before the first occurrence. -/
theorem cutAt_before {s token before rest : Bytes} (ht : token ≠ [])
    (h : s.cutAt token = some (before, rest)) : ¬ token <:+: before := by
  rintro ⟨x, y, hxy⟩
  obtain ⟨hs, -, hfirst⟩ := cutAt_eq_some h
  obtain ⟨z, hz⟩ := hfirst x (token ++ (y ++ rest)) (by simp [hs, ← hxy])
    (List.prefix_append _ _)
  have hl := congrArg List.length hxy
  have hl' := congrArg List.length hz
  have h0 := List.length_pos_iff.mpr ht
  simp only [List.length_append] at hl hl'
  omega

theorem after_eq_some_iff {s token rest : Bytes} :
    s.after token = some rest ↔ ∃ before, s.cutAt token = some (before, token ++ rest) := by
  rw [after, Option.map_eq_some_iff]
  constructor
  · rintro ⟨⟨before, found⟩, hc, rfl⟩
    obtain ⟨y, rfl⟩ := (eq_of_cutAt hc).2
    exact ⟨before, by simpa using hc⟩
  · rintro ⟨before, hc⟩
    exact ⟨(before, token ++ rest), hc, by simp⟩

theorem after_eq_none_iff {s token : Bytes} : s.after token = none ↔ ¬ token <:+: s := by
  rw [after, Option.map_eq_none_iff, cutAt_eq_none_iff]

/-! ### Searching through two parts -/

/-- A text cut in two ways: the second cut is inside the first part, or not before its end. -/
theorem cut_cases {s t x y : Bytes} (h : s ++ t = x ++ y) :
    (∃ z, z ≠ [] ∧ s = x ++ z ∧ y = z ++ t) ∨ (∃ z, x = s ++ z ∧ t = z ++ y) := by
  rcases List.append_eq_append_iff.mp h with ⟨z, hx, ht⟩ | ⟨z, hs, hy⟩
  · exact Or.inr ⟨z, hx, ht⟩
  · by_cases hz : z = []
    · exact Or.inr ⟨[], by simp [hs, hz], by simp [hy, hz]⟩
    · exact Or.inl ⟨z, hz, hs, hy⟩

/-- A token lies across the seam of two parts: it begins in the first and ends in the
second. -/
def Straddles (token s t : Bytes) : Prop :=
  ∃ a b, a ≠ [] ∧ b ≠ [] ∧ token = a ++ b ∧ a <:+ s ∧ b <+: t

/-- Nothing lies across a seam after which a byte follows that the token can only begin
with. -/
theorem not_straddles_of_head {token s t : Bytes} (h : ∀ b ∈ t.head?, b ∉ token.tail) :
    ¬ Straddles token s t := by
  rintro ⟨a, b, ha, hb, rfl, -, y, rfl⟩
  obtain ⟨c, a, rfl⟩ := List.exists_cons_of_ne_nil ha
  obtain ⟨x, b, rfl⟩ := List.exists_cons_of_ne_nil hb
  exact h x rfl (by simp)

/-- Nothing lies across a seam before which a byte stands that is not in the token. -/
theorem not_straddles_of_getLast {token s t : Bytes} (h : ∀ b ∈ s.getLast?, b ∉ token) :
    ¬ Straddles token s t := by
  rintro ⟨a, b, ha, -, rfl, ⟨x, rfl⟩, -⟩
  have hl : (x ++ a).getLast? = some (a.getLast ha) := by
    rw [List.getLast?_append, List.getLast?_eq_some_getLast ha, Option.some_or]
  exact h _ hl (List.mem_append_left b (List.getLast_mem ha))

theorem Straddles.cons {token s t : Bytes} (b : Byte) (h : Straddles token s t) :
    Straddles token (b :: s) t := by
  obtain ⟨x, y, hx, hy, he, hxs, hyt⟩ := h
  exact ⟨x, y, hx, hy, he, hxs.trans (List.suffix_cons b s), hyt⟩

/-- A token at the front of two parts is at the front of the first, or lies across the
seam. -/
theorem prefix_append_iff {token s t : Bytes} :
    token <+: s ++ t ↔ token <+: s ∨ ∃ y, y ≠ [] ∧ token = s ++ y ∧ y <+: t := by
  constructor
  · intro h
    rcases List.prefix_or_prefix_of_prefix h (List.prefix_append s t) with hp | ⟨y, rfl⟩
    · exact Or.inl hp
    · have hy : y <+: t := (List.prefix_append_right_inj s).mp h
      by_cases h0 : y = []
      · exact Or.inl (by simp [h0])
      · exact Or.inr ⟨y, h0, rfl, hy⟩
  · rintro (hp | ⟨y, -, rfl, hy⟩)
    · exact hp.trans (List.prefix_append s t)
    · exact (List.prefix_append_right_inj s).mpr hy

/-- **What the first part contains** is found there. -/
theorem cutAt_append_left {s token before rest : Bytes}
    (h : s.cutAt token = some (before, rest)) (t : Bytes) :
    (s ++ t).cutAt token = some (before, rest ++ t) := by
  induction s generalizing before with
  | nil =>
      cases token with
      | nil =>
          cases h
          cases t <;> rfl
      | cons c token => cases h
  | cons b s ih =>
      rw [cutAt] at h
      rw [List.cons_append, cutAt]
      split at h
      · rename_i hp
        cases h
        have hp' : token <+: b :: (s ++ t) :=
          (List.isPrefixOf_iff_prefix.mp hp).trans (List.prefix_append (b :: s) t)
        rw [if_pos (List.isPrefixOf_iff_prefix.mpr hp')]
        rfl
      · rename_i hn
        obtain ⟨⟨before', rest'⟩, hc, he⟩ := Option.map_eq_some_iff.mp h
        cases he
        -- an occurrence that begins here would have to be longer than one found later
        have hn' : ¬ token <+: b :: (s ++ t) := by
          intro hp
          rcases (prefix_append_iff (s := b :: s)).mp hp with hp | ⟨y, -, rfl, -⟩
          · exact hn (List.isPrefixOf_iff_prefix.mpr hp)
          · obtain ⟨rfl, hp, -⟩ := cutAt_eq_some hc
            have hl := hp.length_le
            simp only [List.length_append, List.length_cons] at hl
            omega
        rw [if_neg (fun h => hn' (List.isPrefixOf_iff_prefix.mp h)), ih hc]
        rfl

/-- **What the first part does not contain** is looked for in the second, if it cannot lie
across the seam. -/
theorem cutAt_append_right {s token t : Bytes} (h : ¬ token <:+: s)
    (hs : ¬ Straddles token s t) :
    (s ++ t).cutAt token = (t.cutAt token).map fun (before, rest) => (s ++ before, rest) := by
  induction s with
  | nil => simp
  | cons b s ih =>
      have hn : ¬ token <+: b :: (s ++ t) := by
        intro hp
        rcases (prefix_append_iff (s := b :: s)).mp hp with hp | ⟨y, hy, he, hyt⟩
        · exact h hp.isInfix
        · exact hs ⟨b :: s, y, List.cons_ne_nil b s, hy, he, List.suffix_refl _, hyt⟩
      have hi := ih (fun hi => h (List.infix_cons_iff.mpr (Or.inr hi))) (fun h => hs (h.cons b))
      rw [List.cons_append, cutAt, if_neg (fun h => hn (List.isPrefixOf_iff_prefix.mp h)), hi,
        Option.map_map]
      rfl

theorem after_append_left {s token rest : Bytes} (h : s.after token = some rest) (t : Bytes) :
    (s ++ t).after token = some (rest ++ t) := by
  obtain ⟨before, hc⟩ := after_eq_some_iff.mp h
  exact after_eq_some_iff.mpr ⟨before, by rw [cutAt_append_left hc, List.append_assoc]⟩

theorem after_append_right {s token t : Bytes} (h : ¬ token <:+: s)
    (hs : ¬ Straddles token s t) : (s ++ t).after token = t.after token := by
  rw [after, cutAt_append_right h hs, Option.map_map]
  rfl

/-- Where a token is found depends on nothing after it. -/
theorem cutAt_of_cutAt {s token before rest : Bytes}
    (h : s.cutAt token = some (before, token ++ rest)) (t : Bytes) :
    (before ++ token ++ t).cutAt token = some (before, token ++ t) := by
  obtain ⟨hs, -⟩ := eq_of_cutAt h
  obtain ⟨⟨b, r⟩, hc⟩ : ∃ cut, (before ++ token).cutAt token = some cut := by
    rw [← Option.isSome_iff_exists]
    exact contains_iff.mpr (List.suffix_append before token).isInfix
  -- the rest of the text does not move what is found before it
  have hl := cutAt_append_left hc rest
  rw [List.append_assoc, ← hs, h] at hl
  obtain ⟨rfl, hr⟩ : before = b ∧ token ++ rest = r ++ rest := by simpa using hl
  obtain rfl := List.append_cancel_right hr
  exact cutAt_append_left hc t

theorem after_of_cutAt {s token before rest : Bytes}
    (h : s.cutAt token = some (before, token ++ rest)) (t : Bytes) :
    (before ++ token ++ t).after token = some t :=
  after_eq_some_iff.mpr ⟨before, cutAt_of_cutAt h t⟩

/-- A token in front is found there. -/
theorem after_append_token (token s : Bytes) :
    (token ++ s).cutAt token = some ([], token ++ s) ∧ (token ++ s).after token = some s := by
  have hfound : token <:+: token ++ s := (List.prefix_append token s).isInfix
  obtain ⟨⟨before, rest⟩, hc⟩ := Option.isSome_iff_exists.mp (contains_iff.mpr hfound)
  obtain ⟨hs, -, hfirst⟩ := cutAt_eq_some hc
  obtain ⟨z, hz⟩ := hfirst [] (token ++ s) rfl (List.prefix_append token s)
  obtain ⟨rfl, -⟩ := List.append_eq_nil_iff.mp hz.symm
  rw [List.nil_append] at hs
  rw [← hs] at hc
  exact ⟨hc, after_eq_some_iff.mpr ⟨[], hc⟩⟩

/-- The token at the end of a text is the only one in it exactly if there is none without its
last byte. -/
theorem only_at_end_iff {s token : Bytes} (ht : token ≠ []) :
    (∀ x y, s ++ token = x ++ token ++ y → y = []) ↔ ¬ token <:+: s ++ token.dropLast := by
  constructor
  · rintro h ⟨x, y, hxy⟩
    have hs : s ++ token = x ++ token ++ (y ++ [token.getLast ht]) := by
      rw [← List.append_assoc, hxy, List.append_assoc, List.dropLast_concat_getLast ht]
    exact absurd (h _ _ hs) (by simp)
  · intro h x y hxy
    refine Decidable.byContradiction fun hy => ?_
    have hd := congrArg List.dropLast hxy
    rw [List.dropLast_append_of_ne_nil ht, List.dropLast_append_of_ne_nil hy] at hd
    exact h ⟨x, y.dropLast, hd.symm⟩

/-- Nothing is left behind the only token of a text, at its end. -/
theorem after_append_self {s token : Bytes}
    (h : ∀ x y, s ++ token = x ++ token ++ y → y = []) : (s ++ token).after token = some [] := by
  have hfound : token <:+: s ++ token := (List.suffix_append s token).isInfix
  obtain ⟨rest, hr⟩ := Option.ne_none_iff_exists'.mp fun hn => after_eq_none_iff.mp hn hfound
  obtain ⟨before, hc⟩ := after_eq_some_iff.mp hr
  rw [hr, h before rest ((eq_of_cutAt hc).1.trans (List.append_assoc _ _ _).symm)]

/-! ### The shortest text that ends in a token -/

/-- The shortest text that ends in a token: no shorter front of it does. -/
def UpTo (token s : Bytes) : Prop := token <:+ s ∧ ∀ x y, s = x ++ y → token <:+ x → y = []

/-- Behind the shortest text that ends in a token stands what stands after the token. -/
theorem UpTo.after_append {token c : Bytes} (h : UpTo token c) (rest : Bytes) :
    (c ++ rest).after token = some rest := by
  obtain ⟨⟨w, rfl⟩, honly⟩ := h
  have hself : Bytes.after (w ++ token) token = some [] :=
    after_append_self fun x y hxy => honly _ y hxy (List.suffix_append x token)
  exact after_append_left hself rest

/-- What stands after the first occurrence of a token stands behind the shortest text that ends in
it. -/
theorem exists_upTo_of_after {token s rest : Bytes} (h : s.after token = some rest) :
    ∃ c, UpTo token c ∧ s = c ++ rest := by
  obtain ⟨before, hc⟩ := after_eq_some_iff.mp h
  obtain ⟨hs, -, hfirst⟩ := cutAt_eq_some hc
  refine ⟨before ++ token, ⟨List.suffix_append before token, ?_⟩, ?_⟩
  · rintro x y hxy ⟨w, rfl⟩
    have hw : s = w ++ (token ++ (y ++ rest)) := by
      rw [hs, ← List.append_assoc, hxy]
      simp only [List.append_assoc]
    obtain ⟨z, rfl⟩ := hfirst _ _ hw (List.prefix_append token _)
    have hlength := congrArg List.length hxy
    simp only [List.length_append] at hlength
    exact List.length_eq_zero_iff.mp (by omega)
  · rw [hs, List.append_assoc]

/-- **Cutting at a token** is cutting at the leftmost place where it stands. -/
theorem cutAt_eq_some_iff {token s before rest : Bytes} :
    s.cutAt token = some (before, token ++ rest) ↔ s = before ++ (token ++ rest) ∧
      ∀ x y, s = x ++ (token ++ y) → before.length ≤ x.length := by
  constructor
  · intro h
    obtain ⟨hs, -, hfirst⟩ := cutAt_eq_some h
    refine ⟨hs, fun x y hxy => ?_⟩
    obtain ⟨z, rfl⟩ := hfirst x _ hxy (List.prefix_append token y)
    rw [List.length_append]
    omega
  · rintro ⟨hs, hleft⟩
    have hfound : token <:+: s := ⟨before, rest, by rw [hs, List.append_assoc]⟩
    obtain ⟨⟨before', found⟩, hc⟩ := Option.isSome_iff_exists.mp (contains_iff.mpr hfound)
    obtain ⟨hs', ⟨rest', rfl⟩, hfirst⟩ := cutAt_eq_some hc
    -- each of the two cuts is at most as long as the other
    obtain ⟨z, hz⟩ := hfirst before _ hs (List.prefix_append token rest)
    have hle := hleft before' rest' hs'
    rw [hz, List.length_append] at hle
    obtain rfl : z = [] := List.length_eq_zero_iff.mp (by omega)
    rw [List.append_nil] at hz
    rw [hc, hz, List.append_cancel_left (hs'.symm.trans (hz ▸ hs))]

/-! ### Openings -/

theorem afterOpening_eq_some_iff {s opening rest : Bytes} :
    s.afterOpening opening = some rest ↔ s = opening ++ rest := by
  rw [afterOpening]
  constructor
  · intro h
    split at h
    · rename_i hp
      obtain ⟨t, rfl⟩ := List.isPrefixOf_iff_prefix.mp hp
      rw [List.drop_left, Option.some.injEq] at h
      rw [h]
    · cases h
  · rintro rfl
    rw [if_pos (List.isPrefixOf_iff_prefix.mpr (List.prefix_append opening rest)), List.drop_left]

theorem afterOpening_eq_none_iff {s opening : Bytes} :
    s.afterOpening opening = none ↔ ¬opening <+: s := by
  rw [afterOpening, ← List.isPrefixOf_iff_prefix]
  split <;> simp_all

end Bytes

end DoctypeProbe
