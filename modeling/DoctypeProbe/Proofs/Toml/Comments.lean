import DoctypeProbe.Proofs.Toml.Writing

/-!
# Comments in Settings Documents

At every line end of a settings document a comment may be put in: behind what stands on the line,
or as a line of its own below. The same statements are read. A line end stands only where blanks
may, behind a statement or between the items of an array, for no string, number, key or section
header goes over one; and to blanks a comment adds nothing.

So the two readings are kept in step: where a step reads `s` and leaves `rest`, it reads a text
with comments put in and leaves `rest` with the remaining comments (`Keeps`). That holds of steps
that succeed. Where one fails, comments may help: the second line of an unfinished string is none
of its own if it is taken for a comment.

The relation of the two texts (`Annotated`) also lets the second text go on behind the end of the
first, on a line of its own. This is how a document is put together from its lines.

## Main results

* `Toml.keeps_value_items`, `Toml.keeps_statement`: values and statements are read in step.
* `Toml.Script.annotated`: the script of a text with comments put in and more lines behind.
* `Toml.parse_comment`: comments at line ends change nothing.
-/

namespace DoctypeProbe

namespace Toml

/-- The second text is the first with comments put in at line ends, and `more` behind it.

* `stop`: the first text is over.
* `byte`: both texts go on with the same byte.
* `trailing`: a comment is put in before a line end.
* `ownLine`: a line with a comment is put in behind a line end. -/
inductive Annotated (more : Bytes) : Bytes → Bytes → Prop
  | stop : Annotated more [] more
  | byte {s s' : Bytes} (b : Byte) : Annotated more s s' → Annotated more (b :: s) (b :: s')
  | trailing {s s' comment : Bytes} : Ascii.lf ∉ comment → Annotated more s s' →
      Annotated more (Ascii.lf :: s) (Ascii.space :: Ascii.hash :: (comment ++ Ascii.lf :: s'))
  | ownLine {s s' comment : Bytes} : Ascii.lf ∉ comment → Annotated more s s' →
      Annotated more (Ascii.lf :: s) (Ascii.lf :: Ascii.hash :: (comment ++ Ascii.lf :: s'))

/-- A text goes on a line of its own: if there is any, a line end comes first. -/
def OnNewLine (more : Bytes) : Prop := ∀ b ∈ more.head?, b = Ascii.lf

variable {more s s' : Bytes}

theorem Annotated.append_left (front : Bytes) (h : Annotated more s s') :
    Annotated more (front ++ s) (front ++ s') := by
  induction front with
  | nil => exact h
  | cons b front ih => exact .byte b ih

theorem annotated_append (s more : Bytes) : Annotated more s (s ++ more) := by
  have h : Annotated more (s ++ []) (s ++ more) := Annotated.append_left s .stop
  rwa [List.append_nil] at h

theorem annotated_refl (s : Bytes) : Annotated [] s s := by
  have h := annotated_append s []
  rwa [List.append_nil] at h

/-- Comments are put in at line ends only. -/
theorem Annotated.exists_of_cons {b : Byte} (h : Annotated more (b :: s) s') (hb : b ≠ Ascii.lf) :
    ∃ t, s' = b :: t ∧ Annotated more s t := by
  cases h with
  | byte _ h => exact ⟨_, rfl, h⟩
  | trailing _ _ => exact absurd rfl hb
  | ownLine _ _ => exact absurd rfl hb

/-! ### Stretches of bytes -/

theorem onNewLine_nil : OnNewLine [] := fun _ hb => absurd hb (by simp)

theorem onNewLine_cons (t : Bytes) : OnNewLine (Ascii.lf :: t) :=
  fun _ hb => (Option.mem_some_iff.mp hb).symm

theorem OnNewLine.eq_nil_or (h : OnNewLine more) : more = [] ∨ ∃ t, more = Ascii.lf :: t := by
  rcases more with - | ⟨b, t⟩
  · exact Or.inl rfl
  · exact Or.inr ⟨t, by rw [h b rfl]⟩

/-- **A stretch of bytes** that stops before a comment as it stops at a line end. -/
theorem Annotated.stretch {p : Byte → Bool} (hlf : p Ascii.lf = false)
    (hspace : p Ascii.space = false) (hmore : OnNewLine more) (h : Annotated more s s') :
    s'.takeWhile p = s.takeWhile p ∧ Annotated more (s.dropWhile p) (s'.dropWhile p) := by
  induction h with
  | stop =>
      rcases hmore.eq_nil_or with rfl | ⟨t, rfl⟩
      · exact ⟨rfl, .stop⟩
      · rw [List.takeWhile_cons_of_neg (by simp [hlf]), List.dropWhile_cons_of_neg (by simp [hlf])]
        exact ⟨rfl, .stop⟩
  | byte b h ih =>
      by_cases hp : p b = true
      · rw [List.takeWhile_cons_of_pos hp, List.takeWhile_cons_of_pos hp, ih.1,
          List.dropWhile_cons_of_pos hp, List.dropWhile_cons_of_pos hp]
        exact ⟨rfl, ih.2⟩
      · rw [List.takeWhile_cons_of_neg hp, List.takeWhile_cons_of_neg hp,
          List.dropWhile_cons_of_neg hp, List.dropWhile_cons_of_neg hp]
        exact ⟨rfl, .byte b h⟩
  | trailing hc h _ =>
      simp only [List.takeWhile_cons, List.dropWhile_cons, hlf, hspace]
      exact ⟨rfl, .trailing hc h⟩
  | ownLine hc h _ =>
      simp only [List.takeWhile_cons, List.dropWhile_cons, hlf]
      exact ⟨rfl, .ownLine hc h⟩

/-- **A stretch of bytes that something on the line ends**: it ends so with comments put in. -/
theorem Annotated.upTo {p : Byte → Bool} (hlf : p Ascii.lf = false) {b : Byte}
    (hb : b ≠ Ascii.lf) {rest : Bytes} (h : Annotated more s s')
    (hs : s.dropWhile p = b :: rest) :
    s'.takeWhile p = s.takeWhile p ∧
      ∃ rest', s'.dropWhile p = b :: rest' ∧ Annotated more rest rest' := by
  have hline : ∀ t : Bytes, (Ascii.lf :: t).dropWhile p ≠ b :: rest := fun t ht => by
    rw [List.dropWhile_cons_of_neg (by simp [hlf])] at ht
    exact hb (List.cons_eq_cons.mp ht).1.symm
  induction h with
  | stop => cases hs
  | byte c h ih =>
      by_cases hp : p c = true
      · rw [List.dropWhile_cons_of_pos hp] at hs
        obtain ⟨htake, hdrop⟩ := ih hs
        rw [List.takeWhile_cons_of_pos hp, List.takeWhile_cons_of_pos hp, htake,
          List.dropWhile_cons_of_pos hp]
        exact ⟨rfl, hdrop⟩
      · rw [List.dropWhile_cons_of_neg hp] at hs
        obtain ⟨rfl, rfl⟩ := List.cons_eq_cons.mp hs
        rw [List.takeWhile_cons_of_neg hp, List.takeWhile_cons_of_neg hp,
          List.dropWhile_cons_of_neg hp]
        exact ⟨rfl, _, rfl, h⟩
  | trailing _ _ _ => exact absurd hs (hline _)
  | ownLine _ _ _ => exact absurd hs (hline _)

/-! ### Blanks -/

/-- What follows blanks in two texts: the same byte, and the rest in step; or nothing in the first,
and in the second what follows the blanks in `more`. -/
def Abreast (more s s' : Bytes) : Prop :=
  (s = [] ∧ s' = afterBlank more) ∨
    ∃ b t t', s = b :: t ∧ s' = b :: t' ∧ b ≠ Ascii.lf ∧ Annotated more t t'

/-- The line goes on to its end. -/
theorem afterLine_append {comment : Bytes} (hc : Ascii.lf ∉ comment) (t : Bytes) :
    afterLine (comment ++ Ascii.lf :: t) = Ascii.lf :: t := by
  induction comment with
  | nil => rfl
  | cons b comment ih =>
      rw [List.mem_cons, not_or] at hc
      rw [List.cons_append, afterLine_cons, if_neg (Ne.symm hc.1), ih hc.2]

theorem afterBlank_lineFeed (t : Bytes) : afterBlank (Ascii.lf :: t) = afterBlank t := by
  rw [afterBlank_cons, if_pos (by decide)]

/-- A comment and the end of its line are blanks. -/
theorem afterBlank_comment {comment : Bytes} (hc : Ascii.lf ∉ comment) (t : Bytes) :
    afterBlank (Ascii.hash :: (comment ++ Ascii.lf :: t)) = afterBlank t := by
  rw [afterBlank_cons, if_neg (by decide), if_pos rfl, afterLine_append hc, afterBlank_lineFeed]

/-- **Blanks** are blanks with comments put in, and what follows them is in step; the same within
a comment. -/
theorem Annotated.abreast (hmore : OnNewLine more) (h : Annotated more s s') :
    Abreast more (afterBlank s) (afterBlank s') ∧
      Abreast more (afterBlank (afterLine s)) (afterBlank (afterLine s')) := by
  induction h with
  | stop =>
      refine ⟨Or.inl ⟨rfl, rfl⟩, Or.inl ⟨rfl, ?_⟩⟩
      rcases hmore.eq_nil_or with rfl | ⟨t, rfl⟩ <;> rfl
  | @byte s s' b h ih =>
      constructor
      · rw [afterBlank_cons, afterBlank_cons]
        split_ifs with hblank
        · exact ih.1
        · exact ih.2
        · refine Or.inr ⟨b, s, s', rfl, rfl, ?_, h⟩
          rintro rfl
          exact hblank (by decide)
      · rw [afterLine_cons, afterLine_cons]
        split_ifs with hb
        · rw [hb, afterBlank_lineFeed, afterBlank_lineFeed]
          exact ih.1
        · exact ih.2
  | @trailing s s' comment hc h ih =>
      rw [afterLine_cons, if_pos rfl, afterLine_cons, if_neg (by decide), afterLine_cons,
        if_neg (by decide), afterLine_append hc, afterBlank_lineFeed, afterBlank_lineFeed,
        afterBlank_cons Ascii.space, if_pos (by decide), afterBlank_comment hc]
      exact ⟨ih.1, ih.1⟩
  | @ownLine s s' comment hc h ih =>
      rw [afterLine_cons, if_pos rfl, afterLine_cons, if_pos rfl, afterBlank_lineFeed,
        afterBlank_lineFeed, afterBlank_comment hc]
      exact ⟨ih.1, ih.1⟩

/-- Where something follows blanks, it does with comments put in. -/
theorem Annotated.afterBlank_cons {b : Byte} {t : Bytes} (hmore : OnNewLine more)
    (h : Annotated more s s') (hs : afterBlank s = b :: t) :
    b ≠ Ascii.lf ∧ ∃ t', afterBlank s' = b :: t' ∧ Annotated more t t' := by
  rcases (h.abreast hmore).1 with ⟨hnil, -⟩ | ⟨b', u, u', hu, hu', hb, hrest⟩
  · rw [hs] at hnil
    cases hnil
  · rw [hs] at hu
    obtain ⟨rfl, rfl⟩ := List.cons_eq_cons.mp hu
    exact ⟨hb, u', hu', hrest⟩

theorem annotated_afterBlank (hmore : OnNewLine more) (h : Annotated more s s')
    (hne : afterBlank s ≠ []) : Annotated more (afterBlank s) (afterBlank s') := by
  obtain ⟨b, t, ht⟩ := List.exists_cons_of_ne_nil hne
  obtain ⟨-, t', ht', hrest⟩ := h.afterBlank_cons hmore ht
  rw [ht, ht']
  exact .byte b hrest

/-! ### Values -/

/-- A step that succeeds on a text reads the same with comments put in, and leaves the rest with
comments put in. -/
def Keeps {α : Type} (more : Bytes) (f : Bytes → Option (α × Bytes)) (s : Bytes) : Prop :=
  ∀ s' a rest, Annotated more s s' → f s = some (a, rest) →
    ∃ rest', f s' = some (a, rest') ∧ Annotated more rest rest'

/-- **A string** goes over no line end. -/
theorem keeps_string? {quote : Byte} (hlf : Ascii.lf ≠ quote) (s : Bytes) :
    Keeps more (string? quote) s := by
  intro s' text rest h hs
  fun_induction string? quote s generalizing s' text with
  | case1 => cases hs
  | case2 s =>
      obtain ⟨t, rfl, ht⟩ := h.exists_of_cons (Ne.symm hlf)
      cases hs
      exact ⟨t, by rw [string?_cons, if_pos rfl], ht⟩
  | case3 s hq => cases hs
  | case4 b hq hl hb => cases hs
  | case5 b hq hl hb e s ih =>
      obtain ⟨x, hx, hs⟩ := Option.bind_eq_some_iff.mp hs
      obtain ⟨text', hread, rfl⟩ := exists_of_map hs
      have he : e ≠ Ascii.lf := by
        rintro rfl
        cases hx
      obtain ⟨t, rfl, ht⟩ := h.exists_of_cons hl
      obtain ⟨u, rfl, hu⟩ := ht.exists_of_cons he
      obtain ⟨rest', hread', hrest⟩ := ih u text' hu hread
      refine ⟨rest', ?_, hrest⟩
      rw [string?_cons, if_neg hq, if_neg hl, if_pos hb, escaped?, hx, Option.bind_some, hread']
      rfl
  | case6 b s hq hl hb ih =>
      obtain ⟨text', hread, rfl⟩ := exists_of_map hs
      obtain ⟨t, rfl, ht⟩ := h.exists_of_cons hl
      obtain ⟨rest', hread', hrest⟩ := ih t text' ht hread
      refine ⟨rest', ?_, hrest⟩
      rw [string?_cons, if_neg hq, if_neg hl, if_neg hb, hread']
      rfl

/-- **A numeral** stops before a comment as it stops at a line end. -/
theorem annotated_numeralBody (hmore : OnNewLine more) (h : Annotated more s s') (last : Byte) :
    numeralBody last s' = numeralBody last s ∧
      Annotated more (s.drop (numeralBody last s).length)
        (s'.drop (numeralBody last s).length) := by
  induction h generalizing last with
  | stop =>
      rcases hmore.eq_nil_or with rfl | ⟨t, rfl⟩
      · exact ⟨rfl, .stop⟩
      · rw [numeralBody_of_not (by decide)]
        exact ⟨rfl, .stop⟩
  | byte b h ih =>
      rw [numeralBody, numeralBody]
      split_ifs
      · exact ⟨by rw [(ih last).1], (ih last).2⟩
      · exact ⟨by rw [(ih b).1], (ih b).2⟩
      · exact ⟨by rw [(ih b).1], (ih b).2⟩
      · exact ⟨rfl, .byte b h⟩
  | trailing hc h _ =>
      rw [numeralBody_of_not (by decide), numeralBody_of_not (by decide)]
      exact ⟨rfl, .trailing hc h⟩
  | ownLine hc h _ =>
      rw [numeralBody_of_not (by decide), numeralBody_of_not (by decide)]
      exact ⟨rfl, .ownLine hc h⟩

/-- **A value that is not an array**. -/
theorem keeps_scalar? (hmore : OnNewLine more) (b : Byte) (s : Bytes) :
    Keeps more (scalar? b) s := by
  intro s' node rest h hs
  rw [scalar?] at hs ⊢
  split_ifs at hs ⊢ with hquote
  · have hne : Ascii.lf ≠ b := by
      rintro rfl
      exact absurd hquote (by decide)
    obtain ⟨text, hread, rfl⟩ := exists_of_map hs
    obtain ⟨rest', hread', hrest⟩ := keeps_string? hne s s' text rest h hread
    exact ⟨rest', by rw [hread']; rfl, hrest⟩
  · obtain ⟨hword, hafter⟩ := h.stretch (p := Ascii.isAlpha) (by decide) (by decide) hmore
    obtain ⟨v, hv, he⟩ := Option.map_eq_some_iff.mp hs
    obtain ⟨rfl, rfl⟩ := Prod.mk.inj he
    exact ⟨_, by rw [hword, hv]; rfl, hafter⟩
  · obtain ⟨hbody, hdrop⟩ := annotated_numeralBody hmore h b
    obtain ⟨v, hv, he⟩ := Option.map_eq_some_iff.mp hs
    obtain ⟨rfl, rfl⟩ := Prod.mk.inj he
    exact ⟨_, by rw [hbody, hv]; rfl, hdrop⟩

theorem ne_lineFeed_of_value? {b : Byte} {s : Bytes} {r : Node × Bytes}
    (h : value? (b :: s) = some r) : b ≠ Ascii.lf := by
  rintro rfl
  rw [value?_of_isBlank (by decide)] at h
  cases h

/-- What goes on behind an item. -/
theorem keeps_itemsAfter? (hmore : OnNewLine more) (node : Node)
    (ih : ∀ t, afterBlank s = Ascii.comma :: t → Keeps more items? (afterBlank t)) :
    Keeps more (fun s => itemsAfter? node (afterBlank s)) s := by
  intro s' nodes rest h hs
  dsimp only at hs ⊢
  cases ht : afterBlank s with
  | nil =>
      rw [ht] at hs
      cases hs
  | cons b t =>
      obtain ⟨-, t', ht', hrest⟩ := h.afterBlank_cons hmore ht
      rw [ht, itemsAfter?] at hs
      rw [ht', itemsAfter?]
      split_ifs at hs ⊢ with hcomma
      · obtain ⟨nodes', hread, rfl⟩ := exists_of_map hs
        have hne : afterBlank t ≠ [] := fun hnil => by
          rw [hnil, items?_nil] at hread
          cases hread
        obtain ⟨rest', hread', hrest'⟩ :=
          ih t (hcomma ▸ ht) _ nodes' rest (annotated_afterBlank hmore hrest hne) hread
        exact ⟨rest', by rw [hread']; rfl, hrest'⟩
      · cases hs
        exact ⟨t', rfl, hrest⟩

/-- **A value**, and the items of an array. -/
theorem keeps_value_items (hmore : OnNewLine more) (s : Bytes) :
    Keeps more value? s ∧ Keeps more items? s := by
  refine readingInduction ?_ ?_ (fun s ih => ?_) (fun b s hb => ?_) (fun b s hv ih => ?_) s
  · intro s' node rest _ hs
    rw [value?_nil] at hs
    cases hs
  · intro s' nodes rest _ hs
    rw [items?_nil] at hs
    cases hs
  · intro s' node rest h hs
    obtain ⟨t, rfl, ht⟩ := h.exists_of_cons (by decide)
    rw [value?_cons, if_pos rfl] at hs ⊢
    obtain ⟨nodes, hread, rfl⟩ := exists_of_map hs
    have hne : afterBlank s ≠ [] := fun hnil => by
      rw [hnil, items?_nil] at hread
      cases hread
    obtain ⟨rest', hread', hrest⟩ := ih _ nodes rest (annotated_afterBlank hmore ht hne) hread
    exact ⟨rest', by rw [hread']; rfl, hrest⟩
  · intro s' node rest h hs
    obtain ⟨t, rfl, ht⟩ := h.exists_of_cons (ne_lineFeed_of_value? hs)
    rw [value?_cons, if_neg hb] at hs ⊢
    exact keeps_scalar? hmore b s t node rest ht hs
  · intro s' nodes rest h hs
    rw [items?_cons] at hs
    split_ifs at hs with hclose
    · obtain ⟨t, rfl, ht⟩ := h.exists_of_cons (by rw [hclose]; decide)
      cases hs
      exact ⟨t, by rw [items?_cons, if_pos hclose], ht⟩
    · obtain ⟨⟨node, rest₁⟩, hread, hafter⟩ := Option.bind_eq_some_iff.mp hs
      obtain ⟨t, rfl, ht⟩ := h.exists_of_cons (ne_lineFeed_of_value? hread)
      obtain ⟨rest₁', hread', hrest₁⟩ := hv _ node rest₁ h hread
      rw [items?_cons, if_neg hclose, hread', Option.bind_some]
      exact keeps_itemsAfter? hmore node (fun u hu => ih node rest₁ u hread hu) _ _ _ hrest₁ hafter

/-! ### Statements -/

/-- **A section header** is closed on its line. -/
theorem keeps_header? (s : Bytes) : Keeps more header? s := by
  intro s' path rest h hs
  cases hd : s.dropWhile isInside with
  | nil =>
      rw [header?, hd] at hs
      cases hs
  | cons b t =>
      rw [header?, hd] at hs
      dsimp only at hs
      split_ifs at hs with hb
      obtain ⟨htake, t', hd', ht⟩ := h.upTo (p := isInside) (by decide) (hb.1 ▸ by decide) hd
      cases hs
      refine ⟨t', ?_, ht⟩
      rw [header?, hd', htake]
      exact if_pos hb

/-- White space before a value, or before what follows a key. -/
theorem annotated_dropSpaces {b : Byte} {t : Bytes} (h : Annotated more s s')
    (hb : b ≠ Ascii.lf) (hs : s.dropWhile Cursor.isSpace = b :: t) :
    ∃ t', s'.dropWhile Cursor.isSpace = b :: t' ∧ Annotated more t t' :=
  (h.upTo (by decide) hb hs).2

/-- **An assignment** has its equals sign on the line of its key, and there its value begins. -/
theorem keeps_assignment? (hmore : OnNewLine more) (s : Bytes) : Keeps more assignment? s := by
  rintro s' ⟨key, node⟩ rest h hs
  obtain ⟨rfl, hne, t, ht, hv⟩ := exists_of_assignment? hs
  obtain ⟨hkey, hafter⟩ := h.stretch (p := isKeyByte) (by decide) (by decide) hmore
  obtain ⟨t', ht', htail⟩ := annotated_dropSpaces hafter (by decide) ht
  cases hd : t.dropWhile Cursor.isSpace with
  | nil =>
      rw [hd, value?_nil] at hv
      cases hv
  | cons e u =>
      rw [hd] at hv
      obtain ⟨u', hd', hu⟩ := annotated_dropSpaces htail (ne_lineFeed_of_value? hv) hd
      obtain ⟨rest', hread, hrest⟩ := (keeps_value_items hmore _).1 _ node rest (.byte e hu) hv
      refine ⟨rest', ?_, hrest⟩
      rw [assignment?, hkey, if_neg hne, ht', valueAfter?, if_pos rfl, hd', hread]
      rfl

/-- **A statement**. None begins with a line end. -/
theorem keeps_statement? (hmore : OnNewLine more) (s : Bytes) : Keeps more statement? s := by
  intro s' st rest h hs
  cases s with
  | nil => cases hs
  | cons b s =>
      have hb : b ≠ Ascii.lf := by
        rintro rfl
        cases hs
      obtain ⟨t, rfl, ht⟩ := h.exists_of_cons hb
      rw [statement?] at hs ⊢
      split_ifs at hs ⊢
      · obtain ⟨path, hread, rfl⟩ := exists_of_map hs
        obtain ⟨rest', hread', hrest⟩ := keeps_header? s t path rest ht hread
        exact ⟨rest', by rw [hread']; rfl, hrest⟩
      · obtain ⟨r, hread, rfl⟩ := exists_of_map hs
        obtain ⟨rest', hread', hrest⟩ := keeps_assignment? hmore _ _ r rest h hread
        exact ⟨rest', by rw [hread']; rfl, hrest⟩

/-- Whether nothing but white space and a comment stands before the end of a line. -/
def endsLine (s : Bytes) : Bool :=
  (s.dropWhile Cursor.isSpace).head?.all fun b => b == Ascii.hash || Cursor.isLineEnd b

theorem afterBlank_dropSpaces (s : Bytes) :
    afterBlank (s.dropWhile Cursor.isSpace) = afterBlank s := by
  induction s with
  | nil => rfl
  | cons b s ih =>
      by_cases hb : Cursor.isSpace b = true
      · rw [List.dropWhile_cons_of_pos hb, ih, afterBlank_cons, if_pos (by rw [hb, Bool.true_or])]
      · rw [List.dropWhile_cons_of_neg hb]

/-- **The end of a line** is found if the line ends, and the blanks that follow it are those that
the line goes on with. -/
theorem lineEnd?_map_afterBlank (s : Bytes) :
    (lineEnd? s).map afterBlank = if endsLine s then some (afterBlank s) else none := by
  rw [← afterBlank_dropSpaces s, endsLine]
  cases hd : s.dropWhile Cursor.isSpace with
  | nil =>
      rw [lineEnd?_of_not_comment (by rw [hd]; simp), hd]
      rfl
  | cons b t =>
      by_cases hb : b = Ascii.hash
      · subst hb
        have hblank : afterBlank (Ascii.hash :: t) = afterBlank (afterLine t) := by
          rw [afterBlank_cons, if_neg (by decide), if_pos rfl]
        have hline : afterLine (Ascii.hash :: t) = afterLine t := by
          rw [afterLine_cons, if_neg (by decide)]
        rw [lineEnd?_comment (by rw [hd]; rfl), hd, Option.map_some, hline, hblank]
        rfl
      · have hends : ((b :: t).head?.all fun b => b == Ascii.hash || Cursor.isLineEnd b) =
            (b :: t).head?.all Cursor.isLineEnd := by simp [hb]
        rw [lineEnd?_of_not_comment (by rw [hd]; simpa using hb), hd, hends]
        split_ifs <;> rfl

theorem endsLine_cons (b : Byte) (s : Bytes) :
    endsLine (b :: s) =
      if Cursor.isSpace b then endsLine s else b == Ascii.hash || Cursor.isLineEnd b := by
  by_cases hb : Cursor.isSpace b = true
  · rw [endsLine, List.dropWhile_cons_of_pos hb, if_pos hb, endsLine]
  · rw [endsLine, List.dropWhile_cons_of_neg hb, if_neg hb]
    rfl

/-- A line that ends does so with comments put in. -/
theorem annotated_endsLine (hmore : OnNewLine more) (h : Annotated more s s')
    (hs : endsLine s = true) : endsLine s' = true := by
  induction h with
  | stop => rcases hmore.eq_nil_or with rfl | ⟨t, rfl⟩ <;> rfl
  | byte b h ih =>
      rw [endsLine_cons] at hs ⊢
      split_ifs at hs ⊢
      · exact ih hs
      · exact hs
  | trailing _ _ _ => rfl
  | ownLine _ _ _ => rfl

/-! ### Documents -/

/-- **A script** by the lines that its statements end. -/
theorem script_cons_iff {st : Statement} {sts : List Statement} :
    Script s (st :: sts) ↔ ∃ rest, statement? s = some (st, rest) ∧ endsLine rest = true ∧
      Script (afterBlank rest) sts := by
  constructor
  · intro h
    cases h with
    | @cons _ rest tail _ _ hst hl hr =>
        have hend := lineEnd?_map_afterBlank rest
        rw [hl, Option.map_some] at hend
        split_ifs at hend with hends
        rw [Option.some.inj hend] at hr
        exact ⟨rest, hst, hends, hr⟩
  · rintro ⟨rest, hst, hends, hr⟩
    have hend := lineEnd?_map_afterBlank rest
    rw [if_pos hends] at hend
    obtain ⟨tail, hl, htail⟩ := Option.map_eq_some_iff.mp hend
    exact .cons hst hl (htail ▸ hr)

/-- **The script of a text** with comments put in, and more lines behind: first its own statements,
and then those of the other lines. Induction on its own statements. -/
theorem Script.annotated {sts sts' : List Statement} (h : Script (afterBlank s) sts)
    (hmore : OnNewLine more) (hs : Annotated more s s') (h' : Script (afterBlank more) sts') :
    Script (afterBlank s') (sts ++ sts') := by
  induction sts generalizing s s' with
  | nil =>
      rcases (hs.abreast hmore).1 with ⟨-, hs'⟩ | ⟨b, t, t', ht, -⟩
      · rw [hs', List.nil_append]
        exact h'
      · rw [ht] at h
        cases h
  | cons st sts ih =>
      obtain ⟨rest, hst, hends, hr⟩ := script_cons_iff.mp h
      have hne : afterBlank s ≠ [] := fun hnil => by
        rw [hnil] at hst
        cases hst
      obtain ⟨rest', hst', hrest⟩ :=
        keeps_statement? hmore _ _ st rest (annotated_afterBlank hmore hs hne) hst
      exact script_cons_iff.mpr
        ⟨rest', hst', annotated_endsLine hmore hrest hends, ih hr hrest⟩

/-- **Comments put in at line ends change nothing**: a document that is accepted is accepted with
them, and denotes the same table. -/
theorem parse_annotated {table : Table} (h : parse s = .ok table) (hs : Annotated [] s s') :
    parse s' = .ok table := by
  obtain ⟨sts, state, hscript, hrun, ht⟩ := parse_eq_ok_iff.mp h
  have hscript' := hscript.annotated onNewLine_nil hs .nil
  rw [List.append_nil] at hscript'
  exact parse_eq_ok_iff.mpr ⟨sts, state, hscript', hrun, ht⟩

/-- **A comment at a line end**, behind what stands on the line or as a line of its own below,
changes nothing: an accepted document is accepted with it, and denotes the same table. -/
theorem parse_comment {front rest comment : Bytes} {table : Table}
    (h : parse (front ++ Ascii.lf :: rest) = .ok table) (hc : Ascii.lf ∉ comment) :
    parse (front ++ (Ascii.space :: Ascii.hash :: comment) ++ Ascii.lf :: rest) = .ok table ∧
      parse (front ++ Ascii.lf :: (Ascii.hash :: comment ++ Ascii.lf :: rest)) = .ok table := by
  rw [List.append_assoc]
  exact ⟨parse_annotated h ((Annotated.trailing hc (annotated_refl rest)).append_left front),
    parse_annotated h ((Annotated.ownLine hc (annotated_refl rest)).append_left front)⟩

/-- A document up to a line end in the middle of an array. -/
def arrayFront : Bytes := ascii "[s]\na = [1,"

/-- The rest of that document. -/
def arrayRest : Bytes := ascii "  2]\nb = \"t\"\n"

/-- A comment that holds a bracket, quotes and an assignment. -/
def misleadingComment : Bytes := ascii "] \"b' = [3"

/-- The table of that document. -/
def arrayTable : Table :=
  [(ascii "s", .table [(ascii "a", .array [.integer 1, .integer 2]),
    (ascii "b", .string (ascii "t"))])]

/-- The statements of that document. -/
def arrayScript : List Statement :=
  [.header (ascii "s"), .assign (ascii "a") (.array [.integer 1, .integer 2]),
    .assign (ascii "b") (.string (ascii "t"))]

theorem script_arraySample :
    Script (afterBlank (arrayFront ++ Ascii.lf :: arrayRest)) arrayScript := by
  have hone : value? (ascii "1,\n  2]\nb = \"t\"\n") =
      some (.integer 1, ascii ",\n  2]\nb = \"t\"\n") := value?_cons _ _
  have htwo : value? (ascii "2]\nb = \"t\"\n") = some (.integer 2, ascii "]\nb = \"t\"\n") :=
    value?_cons _ _
  have hlast : items? (ascii "2]\nb = \"t\"\n") = some ([.integer 2], ascii "\nb = \"t\"\n") :=
    items?_of_item (b := 0x32) (by decide) htwo
  have hitems : items? (ascii "1,\n  2]\nb = \"t\"\n") =
      some ([.integer 1, .integer 2], ascii "\nb = \"t\"\n") :=
    (items?_of_item (b := 0x31) (by decide) hone).trans (congrArg (Option.map _) hlast)
  have harray : value? (ascii "[1,\n  2]\nb = \"t\"\n") =
      some (.array [.integer 1, .integer 2], ascii "\nb = \"t\"\n") :=
    (value?_cons Ascii.openBracket (ascii "1,\n  2]\nb = \"t\"\n")).trans
      (congrArg (Option.map _) hitems)
  have htext : value? (ascii "\"t\"\n") = some (.string (ascii "t"), [Ascii.lf]) :=
    value?_cons _ _
  have ha : IsBareKey (ascii "a") := by decide
  have hb : IsBareKey (ascii "b") := by decide
  refine script_cons_iff.mpr ⟨_, rfl, rfl, ?_⟩
  refine script_cons_iff.mpr ⟨_, statement?_of_value? ha harray, rfl, ?_⟩
  exact script_cons_iff.mpr ⟨_, statement?_of_value? hb htext, rfl, .nil⟩

theorem parse_comment_arraySample :
    parse (arrayFront ++ Ascii.lf :: arrayRest) = .ok arrayTable ∧ Ascii.lf ∉ misleadingComment ∧
      parse (ascii "[s]\na = [1, #] \"b' = [3\n  2]\nb = \"t\"\n") = .ok arrayTable ∧
      parse (ascii "[s]\na = [1,\n#] \"b' = [3\n  2]\nb = \"t\"\n") = .ok arrayTable := by
  have hparse : parse (arrayFront ++ Ascii.lf :: arrayRest) = .ok arrayTable :=
    parse_eq_ok_iff.mpr ⟨arrayScript, _, script_arraySample, rfl, rfl⟩
  have hc : Ascii.lf ∉ misleadingComment := by decide
  obtain ⟨htrailing, hline⟩ := parse_comment hparse hc
  refine ⟨hparse, hc, ?_, ?_⟩
  · refine Eq.trans (congrArg parse ?_) htrailing
    decide +kernel
  · refine Eq.trans (congrArg parse ?_) hline
    decide +kernel

end Toml

end DoctypeProbe
