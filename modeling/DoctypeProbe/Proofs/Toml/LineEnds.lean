import DoctypeProbe.Proofs.Toml.Reading

/-!
# Line Ends of Settings Documents

A settings document may be written with a line feed at the end of each line, or with a carriage
return and a line feed. The reader does not treat the two bytes as one: to each of its steps, the
carriage return is an ordinary byte that it meets before the line feed. Between statements and
between the items of an array it is white space; in a comment it is part of the comment; and
wherever a step refuses a line feed, it refuses the carriage return before, or goes past that and
refuses the line feed.

So the two readings are kept in step: where a step reads `s` and leaves `rest`, it reads
`withReturns s` and leaves `withReturns rest`. Only the end of a line is an exception, for a
comment takes the carriage return and leaves the line feed; the blanks that follow make up for it.

## Main results

* `Toml.value?_withReturns`: a value and its text, with carriage returns.
* `Toml.script_withReturns`: the script of a document does not change.
* `Toml.parse_withReturns`: nor does its table.
-/

namespace DoctypeProbe

namespace Toml

/-- A text with a carriage return put before every line feed. -/
def withReturns (s : Bytes) : Bytes :=
  s.flatMap fun b => if b = Ascii.lf then [Ascii.cr, Ascii.lf] else [b]

@[simp] theorem withReturns_nil : withReturns [] = [] := rfl

@[simp] theorem withReturns_lineFeed (s : Bytes) :
    withReturns (Ascii.lf :: s) = Ascii.cr :: Ascii.lf :: withReturns s := rfl

theorem withReturns_cons {b : Byte} (hb : b ≠ Ascii.lf) (s : Bytes) :
    withReturns (b :: s) = b :: withReturns s := by
  simp [withReturns, hb]

theorem withReturns_append (s t : Bytes) : withReturns (s ++ t) = withReturns s ++ withReturns t :=
  List.flatMap_append

theorem withReturns_of_not_mem {s : Bytes} (hs : Ascii.lf ∉ s) : withReturns s = s := by
  induction s with
  | nil => rfl
  | cons b s ih =>
      rw [List.mem_cons, not_or] at hs
      rw [withReturns_cons (Ne.symm hs.1), ih hs.2]

theorem withReturns_eq_nil_iff {s : Bytes} : withReturns s = [] ↔ s = [] := by
  rcases s with - | ⟨b, s⟩
  · simp
  · by_cases hb : b = Ascii.lf
    · simp [hb]
    · simp [withReturns_cons hb]

/-! ### Between statements -/

/-- What a stretch of bytes that stops at line ends takes, and what it leaves. -/
theorem dropWhile_withReturns {p : Byte → Bool} (hlf : p Ascii.lf = false)
    (hcr : p Ascii.cr = false) (s : Bytes) :
    (withReturns s).takeWhile p = s.takeWhile p ∧
      (withReturns s).dropWhile p = withReturns (s.dropWhile p) := by
  induction s with
  | nil => exact ⟨rfl, rfl⟩
  | cons b s ih =>
      by_cases hb : b = Ascii.lf
      · subst hb
        simp [hlf, hcr]
      · rw [withReturns_cons hb]
        by_cases hp : p b = true
        · simp [hp, ih]
        · simp [hp, withReturns_cons hb]

/-- The end of the line is the line feed, and not the carriage return put before it. -/
theorem afterBlank_afterLine_withReturns (s : Bytes) :
    afterBlank (afterLine (withReturns s)) = afterBlank (withReturns (afterLine s)) := by
  induction s with
  | nil => rfl
  | cons b s ih =>
      rw [afterLine_cons]
      by_cases hb : b = Ascii.lf
      · subst hb
        rw [if_pos rfl, withReturns_lineFeed, afterLine_cons, if_neg (by decide), afterLine_cons,
          if_pos rfl, afterBlank_cons Ascii.cr, if_pos (by decide)]
      · rw [if_neg hb, withReturns_cons hb, afterLine_cons, if_neg hb, ih]

/-- **Blanks** are blanks with carriage returns as well. -/
theorem afterBlank_withReturns (s : Bytes) :
    afterBlank (withReturns s) = withReturns (afterBlank s) := by
  induction hn : s.length using Nat.strongRecOn generalizing s with
  | ind n ih =>
      rcases s with - | ⟨b, s⟩
      · rfl
      · have hlt : s.length < n := by
          rw [← hn, List.length_cons]
          exact Nat.lt_succ_self _
        by_cases hb : b = Ascii.lf
        · subst hb
          rw [withReturns_lineFeed, afterBlank_cons, if_pos (by decide), afterBlank_cons,
            if_pos (by decide), afterBlank_cons, if_pos (by decide), ih _ hlt s rfl]
        · rw [withReturns_cons hb, afterBlank_cons, afterBlank_cons]
          split_ifs
          · exact ih _ hlt s rfl
          · have hle : (afterLine s).length ≤ s.length := (List.dropWhile_suffix _).length_le
            rw [afterBlank_afterLine_withReturns, ih _ (Nat.lt_of_le_of_lt hle hlt) _ rfl]
          · exact (withReturns_cons hb s).symm

/-! ### Values -/

/-- **A string** goes over no line end. -/
theorem string?_withReturns {quote : Byte} (hlf : Ascii.lf ≠ quote) (hcr : Ascii.cr ≠ quote)
    (s : Bytes) :
    string? quote (withReturns s) = (string? quote s).map (Prod.map id withReturns) := by
  have hline : ∀ s, string? quote (Ascii.lf :: s) = none := fun s => by
    rw [string?_cons, if_neg hlf, if_pos rfl]
  fun_induction string? quote s with
  | case1 => rfl
  | case2 s =>
      rw [withReturns_cons (Ne.symm hlf), string?_cons, if_pos rfl]
      rfl
  | case3 s hq =>
      rw [withReturns_lineFeed, string?_cons, if_neg hcr, if_neg (by decide),
        if_neg (by simp [Ascii.cr, Ascii.backslash]), hline]
      rfl
  | case4 b hq hl hb =>
      rw [withReturns_cons hl, string?_cons, if_neg hq, if_neg hl, if_pos hb]
      rfl
  | case5 b hq hl hb e s ih =>
      rw [withReturns_cons hl, string?_cons, if_neg hq, if_neg hl, if_pos hb]
      by_cases he : e = Ascii.lf
      · subst he
        rfl
      · rw [withReturns_cons he, escaped?]
        cases unescape e with
        | none => rfl
        | some x =>
            rw [Option.bind_some, Option.bind_some, ih]
            cases string? quote s <;> rfl
  | case6 b s hq hl hb ih =>
      rw [withReturns_cons hl, string?_cons, if_neg hq, if_neg hl, if_neg hb, ih]
      cases string? quote s <;> rfl

/-- **A numeral** stops at a line end. -/
theorem numeralBody_withReturns (last : Byte) (s : Bytes) :
    numeralBody last (withReturns s) = numeralBody last s ∧
      (withReturns s).drop (numeralBody last s).length =
        withReturns (s.drop (numeralBody last s).length) := by
  induction s generalizing last with
  | nil => exact ⟨rfl, rfl⟩
  | cons b s ih =>
      by_cases hb : b = Ascii.lf
      · subst hb
        rw [withReturns_lineFeed, numeralBody_of_not (by decide), numeralBody_of_not (by decide)]
        exact ⟨rfl, rfl⟩
      · rw [withReturns_cons hb, numeralBody, numeralBody]
        split_ifs
        · simp [ih]
        · simp [ih]
        · simp [ih]
        · simp [withReturns_cons hb]

theorem scalar?_withReturns (b : Byte) (s : Bytes) :
    scalar? b (withReturns s) = (scalar? b s).map (Prod.map id withReturns) := by
  obtain ⟨hword, hafter⟩ := dropWhile_withReturns (p := Ascii.isAlpha) (by decide) (by decide) s
  obtain ⟨hbody, hdrop⟩ := numeralBody_withReturns b s
  rw [scalar?, scalar?, hword, hafter, hbody, hdrop]
  split_ifs with hq
  · have hne : Ascii.lf ≠ b ∧ Ascii.cr ≠ b := by
      rcases (by simpa using hq : b = Ascii.quote ∨ b = Ascii.apostrophe) with rfl | rfl <;> decide
    rw [string?_withReturns hne.1 hne.2]
    cases string? b s <;> rfl
  · cases boolean? (b :: s.takeWhile Ascii.isAlpha) <;> rfl
  · cases number? (b :: (numeralBody b s).filter (· != Ascii.underscore)) <;> rfl
  · rfl

/-- No value begins with a line end. -/
theorem value?_of_isLineEnd {b : Byte} (hb : Cursor.isLineEnd b = true) (s : Bytes) :
    value? (b :: s) = none ∧ items? (b :: s) = none := by
  have hv : value? (b :: s) = none := value?_of_isBlank (by rw [hb, Bool.or_true]) s
  refine ⟨hv, ?_⟩
  rw [items?_cons, hv, if_neg]
  · rfl
  · rintro rfl
    cases hb

theorem itemsAfter?_withReturns {node : Node} {s : Bytes}
    (h : ∀ s', s = Ascii.comma :: s' →
      items? (withReturns (afterBlank s')) =
        (items? (afterBlank s')).map (Prod.map id withReturns)) :
    itemsAfter? node (withReturns s) = (itemsAfter? node s).map (Prod.map id withReturns) := by
  rcases s with - | ⟨b, s⟩
  · rfl
  · by_cases hb : b = Ascii.lf
    · subst hb
      rfl
    · rw [withReturns_cons hb, itemsAfter?, itemsAfter?, afterBlank_withReturns]
      split_ifs with hc
      · rw [h s (hc ▸ rfl)]
        cases items? (afterBlank s) <;> rfl
      · rfl
      · rfl

/-- **A value**, and the items of an array. -/
theorem value?_items?_withReturns (s : Bytes) :
    value? (withReturns s) = (value? s).map (Prod.map id withReturns) ∧
      items? (withReturns s) = (items? s).map (Prod.map id withReturns) := by
  refine readingInduction
    (P := fun s => value? (withReturns s) = (value? s).map (Prod.map id withReturns))
    (Q := fun s => items? (withReturns s) = (items? s).map (Prod.map id withReturns))
    ?_ ?_ (fun s ih => ?_) (fun b s hb => ?_) (fun b s hv ih => ?_) s
  · rw [withReturns_nil, value?_nil]
    rfl
  · rw [withReturns_nil, items?_nil]
    rfl
  · rw [withReturns_cons (by decide), value?_cons, value?_cons, if_pos rfl, if_pos rfl,
      afterBlank_withReturns, ih]
    cases items? (afterBlank s) <;> rfl
  · by_cases hl : b = Ascii.lf
    · subst hl
      rw [withReturns_lineFeed, (value?_of_isLineEnd (by decide) _).1,
        (value?_of_isLineEnd (by decide) _).1]
      rfl
    · rw [withReturns_cons hl, value?_cons, value?_cons, if_neg hb, if_neg hb,
        scalar?_withReturns]
  · by_cases hl : b = Ascii.lf
    · subst hl
      rw [withReturns_lineFeed, (value?_of_isLineEnd (by decide) _).2,
        (value?_of_isLineEnd (by decide) _).2]
      rfl
    · rw [withReturns_cons hl] at hv ⊢
      rw [items?_cons, items?_cons, hv]
      split_ifs
      · rfl
      · cases hread : value? (b :: s) with
        | none => rfl
        | some read =>
            obtain ⟨node, rest⟩ := read
            simp only [Option.map_some, Option.bind_some, Prod.map, id_eq, afterBlank_withReturns]
            exact itemsAfter?_withReturns fun s' hs' => ih node rest s' hread hs'

/-! ### Statements -/

/-- **A section header** is closed on its line, or nowhere. -/
theorem header?_withReturns (s : Bytes) :
    header? (withReturns s) = (header? s).map (Prod.map id withReturns) := by
  have hinside : ∀ b ∈ s.takeWhile isInside, isInside b = true :=
    fun b hb => List.all_eq_true.mp List.all_takeWhile b hb
  have hfront : withReturns (s.takeWhile isInside) = s.takeWhile isInside :=
    withReturns_of_not_mem fun hm => absurd (hinside _ hm) (by decide)
  have hs : withReturns s = s.takeWhile isInside ++ withReturns (s.dropWhile isInside) := by
    rw [← hfront, ← withReturns_append, List.takeWhile_append_dropWhile]
  have htake : ∀ t, (s.takeWhile isInside ++ t).takeWhile isInside =
      s.takeWhile isInside ++ t.takeWhile isInside := fun t => List.takeWhile_append_of_pos hinside
  have hdrop : ∀ t, (s.takeWhile isInside ++ t).dropWhile isInside = t.dropWhile isInside :=
    fun t => List.dropWhile_append_of_pos hinside
  rw [header?, header?, hs, htake, hdrop]
  cases hd : s.dropWhile isInside with
  | nil => rfl
  | cons b rest =>
      have hb : isInside b = false := by
        have h := List.head?_dropWhile_not isInside s
        simpa [hd] using h
      by_cases hl : b = Ascii.lf
      · subst hl
        rfl
      · rw [withReturns_cons hl, List.takeWhile_cons_of_neg (by simp [hb]),
          List.dropWhile_cons_of_neg (by simp [hb]), List.append_nil]
        dsimp only
        split_ifs <;> rfl

theorem valueAfter?_withReturns (key s : Bytes) :
    valueAfter? key (withReturns s) = (valueAfter? key s).map (Prod.map id withReturns) := by
  rcases s with - | ⟨b, s⟩
  · rfl
  · by_cases hb : b = Ascii.lf
    · subst hb
      rfl
    · have hspace := dropWhile_withReturns (p := Cursor.isSpace) (by decide) (by decide) s
      rw [withReturns_cons hb, valueAfter?, valueAfter?, hspace.2,
        (value?_items?_withReturns _).1]
      split_ifs
      · cases value? (s.dropWhile Cursor.isSpace) <;> rfl
      · rfl

theorem assignment?_withReturns (s : Bytes) :
    assignment? (withReturns s) = (assignment? s).map (Prod.map id withReturns) := by
  obtain ⟨hkey, hafter⟩ := dropWhile_withReturns (p := isKeyByte) (by decide) (by decide) s
  have hspace := dropWhile_withReturns (p := Cursor.isSpace) (by decide) (by decide)
    (s.dropWhile isKeyByte)
  rw [assignment?, assignment?, hkey, hafter, hspace.2, valueAfter?_withReturns]
  split_ifs <;> rfl

/-- **A statement**. None begins with a line end. -/
theorem statement?_withReturns (s : Bytes) :
    statement? (withReturns s) = (statement? s).map (Prod.map id withReturns) := by
  rcases s with - | ⟨b, s⟩
  · rfl
  · by_cases hb : b = Ascii.lf
    · subst hb
      rfl
    · have hassign := assignment?_withReturns (b :: s)
      rw [withReturns_cons hb] at hassign ⊢
      rw [statement?, statement?, hassign, header?_withReturns]
      split_ifs
      · cases header? s <;> rfl
      · cases assignment? (b :: s) <;> rfl

/-- Whether a comment begins at a text. -/
theorem head?_withReturns (s : Bytes) :
    (withReturns s).head? = some Ascii.hash ↔ s.head? = some Ascii.hash := by
  rcases s with - | ⟨b, s⟩
  · rfl
  · by_cases hb : b = Ascii.lf
    · simp [hb]
      decide
    · rw [withReturns_cons hb]
      rfl

/-- Whether a line ends at a text. -/
theorem isLineEnd_withReturns (s : Bytes) :
    (withReturns s).head?.all Cursor.isLineEnd = s.head?.all Cursor.isLineEnd := by
  rcases s with - | ⟨b, s⟩
  · rfl
  · by_cases hb : b = Ascii.lf
    · subst hb
      rfl
    · rw [withReturns_cons hb]
      rfl

/-- **The end of a line**, up to the blanks that follow. -/
theorem lineEnd?_withReturns (s : Bytes) :
    (lineEnd? (withReturns s)).map afterBlank =
      (lineEnd? s).map fun tail => withReturns (afterBlank tail) := by
  obtain ⟨-, hspace⟩ := dropWhile_withReturns (p := Cursor.isSpace) (by decide) (by decide) s
  by_cases hc : (s.dropWhile Cursor.isSpace).head? = some Ascii.hash
  · have hc' : ((withReturns s).dropWhile Cursor.isSpace).head? = some Ascii.hash := by
      rwa [hspace, head?_withReturns]
    rw [lineEnd?_comment hc, lineEnd?_comment hc', hspace, Option.map_some, Option.map_some,
      afterBlank_afterLine_withReturns, afterBlank_withReturns]
  · have hc' : ((withReturns s).dropWhile Cursor.isSpace).head? ≠ some Ascii.hash := by
      rwa [hspace, Ne, head?_withReturns]
    rw [lineEnd?_of_not_comment hc, lineEnd?_of_not_comment hc', hspace, isLineEnd_withReturns]
    split_ifs
    · rw [Option.map_some, Option.map_some, afterBlank_withReturns]
    · rfl

/-! ### Documents -/

/-- **The script of a document** is the same with carriage returns. -/
theorem script_withReturns {s : Bytes} {sts : List Statement} :
    Script (withReturns s) sts ↔ Script s sts := by
  constructor
  · intro h
    generalize hs : withReturns s = s' at h
    induction h generalizing s with
    | nil =>
        rw [withReturns_eq_nil_iff] at hs
        exact hs ▸ .nil
    | @cons s' rest tail st sts hst hl _ ih =>
        subst hs
        rw [statement?_withReturns] at hst
        obtain ⟨⟨st', rest'⟩, hst', he⟩ := Option.map_eq_some_iff.mp hst
        obtain ⟨rfl, rfl⟩ := Prod.mk.inj he
        have htail := lineEnd?_withReturns rest'
        rw [hl, Option.map_some, eq_comm] at htail
        obtain ⟨tail', hl', he⟩ := Option.map_eq_some_iff.mp htail
        exact .cons hst' hl' (ih he)
  · intro h
    induction h with
    | nil => exact .nil
    | @cons s rest tail st sts hst hl _ ih =>
        have hst' : statement? (withReturns s) = some (st, withReturns rest) := by
          rw [statement?_withReturns, hst]
          rfl
        have htail := lineEnd?_withReturns rest
        rw [hl, Option.map_some] at htail
        obtain ⟨tail', hl', he⟩ := Option.map_eq_some_iff.mp htail
        exact .cons hst' hl' (he ▸ ih)

/-- **Carriage returns before line feeds change nothing**: a document with them is read if it is
read without, and denotes the same table. -/
theorem parse_withReturns (text : Bytes) (t : Table) :
    parse (withReturns text) = .ok t ↔ parse text = .ok t := by
  simp only [parse_eq_ok_iff, afterBlank_withReturns, script_withReturns]

end Toml

end DoctypeProbe
