import DoctypeProbe.Proofs.Toml.FaultPlaces
import DoctypeProbe.Proofs.Toml.Numbers

/-!
# Where Faults of Values Are Met

A string goes on to its quote, and a word or a number to the first byte that is no part of it.
These are known whole when they are refused, so the fault is met at the byte behind, and one more
letter or digit would have made it another word or number. Items end with a comma or a bracket, and
blanks between them may hold any number of line ends and comments.

## Main results

* `Toml.exact_readString`, `Toml.exact_token`, `Toml.exact_scalar`: values that are not arrays.
* `Toml.exact_value_items`, `Toml.exact_readValue`: all values.
-/

namespace DoctypeProbe

namespace Toml

variable {starts : Bytes → Prop} {after s : Bytes} {line : Nat}

/-! ### Strings -/

/-- Reads a string from behind its opening quote. -/
def readString (quote : Byte) : Reading Bytes := fun c => stringBody quote c.line c.rest

theorem readString_cons (quote b : Byte) (s : Bytes) (line : Nat) :
    readString quote ⟨b :: s, line⟩ =
      if b = quote then .ok ([], ⟨s, line⟩)
      else if b = Ascii.lf then .error ⟨line + 1, .unterminatedString⟩
      else if b = Ascii.backslash && quote != Ascii.apostrophe then
        match s with
        | [] => .error ⟨line, .unknownEscape Ascii.nul⟩
        | e :: s =>
          match unescape e with
          | some x => (readString quote ⟨s, line⟩).map (Prod.map (x :: ·) id)
          | none => .error ⟨Cursor.lineAfter line e, .unknownEscape e⟩
      else (readString quote ⟨s, line⟩).map (Prod.map (b :: ·) id) := by
  rw [readString, stringBody.eq_def]
  rfl

/-- What follows a backslash is no line end if it stands for a byte. -/
theorem ne_lineFeed_of_unescape {b x : Byte} (h : unescape b = some x) : b ≠ Ascii.lf := by
  rintro rfl
  cases h

/-- **A string** ends with its quote, and at the latest with its line. -/
theorem exact_readString {quote : Byte} (hquote : quote ≠ Ascii.lf) (s : Bytes) (line : Nat) :
    Exact AnyText AnyText (readString quote) ⟨s, line⟩ := by
  -- a string may be closed where a fault is met that is no escape
  have hdeparts : Departs .unterminatedString (readString quote ⟨[quote], line⟩) := by
    rw [readString_cons, if_pos rfl]
    exact ⟨rfl, by simp⟩
  fun_induction stringBody quote line s with
  | case1 => exact .unfinished rfl [quote] (fun _ => trivial) hdeparts
  | case2 s =>
      have hread : ∀ t, readString quote ⟨quote :: t, line⟩ = .ok ([], ⟨t, line⟩) := fun t => by
        rw [readString_cons, if_pos rfl]
      have hsplit : quote :: s = [] ++ quote :: s := rfl
      exact .closed [] hquote hsplit hread
  | case3 s hq =>
      have hread : ∀ t, readString quote ⟨Ascii.lf :: t, line⟩ =
          .error ⟨line + 1, .unterminatedString⟩ := fun t => by
        rw [readString_cons, if_neg hq, if_pos rfl]
      refine .faulty [] rfl ?_ hread [quote] (fun _ => trivial) hdeparts
      rfl
  | case4 b hq hlf hb =>
      have hcount := line_eq_of_not_mem [b] (by simpa using Ne.symm hlf) line
      have hread : ∀ t, readString quote ⟨b :: t, line⟩ = _ := fun t => by
        rw [readString_cons, if_neg hq, if_neg hlf, if_pos hb]
      refine .unfinished (by rw [hread, ← hcount]) [0x6E] (fun _ => trivial) ?_
      rw [List.singleton_append, hread]
      rintro ⟨⟩
  | case5 b hq hlf hb e s x hx ih =>
      have hread : ∀ t, readString quote ⟨b :: e :: t, line⟩ =
          (readString quote ⟨t, line⟩).map (Prod.map (x :: ·) id) := fun t => by
        rw [readString_cons, if_neg hq, if_neg hlf, if_pos hb]
        simp only [hx]
      refine (ih.map (x :: ·)).behind [b, e] rfl ?_ (fun t _ => hread t) fun _ _ _ => trivial
      have he := ne_lineFeed_of_unescape hx
      exact line_eq_of_not_mem [b, e] (by simpa using ⟨Ne.symm hlf, Ne.symm he⟩) line
  | case6 b hq hlf hb e s hx =>
      have hcount := line_eq_of_not_mem [b] (by simpa using Ne.symm hlf) line
      have hread : ∀ t, readString quote ⟨[b] ++ e :: t, line⟩ =
          .error ⟨Cursor.lineAfter line e, .unknownEscape e⟩ := fun t => by
        rw [List.singleton_append, readString_cons, if_neg hq, if_neg hlf, if_pos hb]
        simp only [hx]
      refine .faulty [b] rfl ?_ hread [0x6E] (fun _ => trivial) ?_
      · rw [← hcount]
        exact lineAfter_eq rfl e s line
      · rw [List.singleton_append, readString_cons, if_neg hq, if_neg hlf, if_pos hb]
        rintro ⟨⟩
  | case7 b s hq hlf hb ih =>
      have hread : ∀ t, readString quote ⟨b :: t, line⟩ =
          (readString quote ⟨t, line⟩).map (Prod.map (b :: ·) id) := fun t => by
        rw [readString_cons, if_neg hq, if_neg hlf, if_neg hb]
      exact (ih.map (b :: ·)).behind [b] rfl
        (line_eq_of_not_mem [b] (by simpa using Ne.symm hlf) line) (fun t _ => hread t)
        fun _ _ _ => trivial

/-! ### Words and numbers -/

/-- What does not continue a word or a number. -/
def EndsToken (t : Bytes) : Prop :=
  ∀ b ∈ t.head?, Ascii.isAlpha b = false ∧ isNumeralByte b = false

/-- A text that begins with an apostrophe. -/
def BeginsString (t : Bytes) : Prop := t.head? = some Ascii.apostrophe

/-- **A token** is exact if it ends where it cannot go on, and may be another one if it does. -/
theorem exact_token {token : Bytes} (node : Option Node) (fault : Fault) (more : Bytes)
    (hne : token ≠ []) (hline : Ascii.lf ∉ token) (hfault : fault.movesPast = false)
    (hread : ∀ t, t.head? = after.head? ∨ EndsToken t →
      readValue ⟨token ++ t, line⟩ = readToken node fault ⟨t, line⟩)
    (hmore : Departs fault (readValue ⟨token ++ more, line⟩)) :
    Exact starts EndsToken readValue ⟨token ++ after, line⟩ := by
  have hcount := line_eq_of_not_mem token hline line
  have hhere := hread after (Or.inl rfl)
  cases node with
  | some node =>
      refine ⟨fun e he => ?_, fun a c' h => ?_⟩
      · cases hhere.symm.trans he
      · obtain ⟨rfl, rfl⟩ := Prod.mk.inj (Except.ok.inj (hhere.symm.trans h))
        exact ⟨token, rfl, hcount, hne, hread⟩
  | none =>
      cases after with
      | nil =>
          rw [List.append_nil] at hhere ⊢
          exact .unfinished (by rw [hhere, ← hcount]; rfl) more (fun h => absurd h hne) hmore
      | cons b t =>
          exact .faulty token rfl (hcount.trans (line_eq_of_looking hfault _ _))
            (fun u => hread _ (Or.inl rfl)) more (fun h => absurd h hne) hmore

theorem Departs.token {node : Option Node} {fault fault' : Fault} (hne : fault' ≠ fault)
    (hcomma : fault ≠ .expectedComma) : Departs fault (readToken node fault' ⟨[], line⟩) := by
  cases node with
  | some node => exact ⟨rfl, hcomma⟩
  | none => exact hne

theorem readValue_word {b : Byte} (hb : (b = 0x74 || b = 0x66) = true) (s : Bytes) (line : Nat) :
    readValue ⟨b :: s, line⟩ =
      readToken ((boolean? (b :: s.takeWhile Ascii.isAlpha)).map .boolean)
        (.invalidBoolean (b :: s.takeWhile Ascii.isAlpha)) ⟨s.dropWhile Ascii.isAlpha, line⟩ := by
  have hbracket : b ≠ Ascii.openBracket := by
    rintro rfl
    cases hb
  rw [readValue_cons, if_neg hbracket, readScalar_word hb]

/-- **A word** ends before the first byte that is no letter. -/
theorem exact_word {b : Byte} (hb : (b = 0x74 || b = 0x66) = true) (s : Bytes) (line : Nat) :
    Exact BeginsString EndsToken readValue ⟨b :: s, line⟩ := by
  have htext : b :: s = b :: s.takeWhile Ascii.isAlpha ++ s.dropWhile Ascii.isAlpha := by
    rw [List.cons_append, List.takeWhile_append_dropWhile]
  have hletters : ∀ b ∈ s.takeWhile Ascii.isAlpha, Ascii.isAlpha b = true :=
    fun _ => List.mem_takeWhile_imp
  rw [htext]
  refine exact_token ((boolean? (b :: s.takeWhile Ascii.isAlpha)).map .boolean)
    (.invalidBoolean (b :: s.takeWhile Ascii.isAlpha)) [0x61] (List.cons_ne_nil _ _)
    (fun hlf => ?_) rfl (fun t ht => ?_) ?_
  · rcases List.mem_cons.mp hlf with rfl | hlf
    · cases hb
    · cases hletters _ hlf
  · obtain ⟨htake, hdrop⟩ := span_resumes (ht.imp_right fun h b hb => (h b hb).1)
    rw [List.cons_append, readValue_word hb, htake, hdrop]
  · -- one more letter makes it another word
    have hword : ∀ b ∈ s.takeWhile Ascii.isAlpha ++ [0x61], Ascii.isAlpha b = true :=
      fun b hb => (List.mem_append.mp hb).elim (hletters b) fun h => List.mem_singleton.mp h ▸ rfl
    rw [List.cons_append, readValue_word hb, List.takeWhile_eq_self_iff.mpr hword,
      List.dropWhile_eq_nil_iff.mpr hword]
    refine .token (fun h => ?_) nofun
    simp at h

/-- **A numeral** goes on behind what is part of it. -/
theorem numeralBody_append (last : Byte) (s : Bytes) : ∃ last',
    (∀ t, numeralBody last (numeralBody last s ++ t) = numeralBody last s ++ numeralBody last' t) ∧
      numeralBody last' (s.drop (numeralBody last s).length) = [] := by
  fun_induction numeralBody last s with
  | case1 last => exact ⟨last, fun _ => rfl, rfl⟩
  | case2 last s ih =>
      obtain ⟨last', happend, hend⟩ := ih
      refine ⟨last', fun t => ?_, hend⟩
      rw [List.cons_append, numeralBody, if_pos rfl, happend]
      rfl
  | case3 last b s hb hbyte ih =>
      obtain ⟨last', happend, hend⟩ := ih
      refine ⟨last', fun t => ?_, hend⟩
      rw [List.cons_append, numeralBody, if_neg hb, if_pos hbyte, happend]
      rfl
  | case4 last b s hb hbyte hsign ih =>
      obtain ⟨last', happend, hend⟩ := ih
      refine ⟨last', fun t => ?_, hend⟩
      rw [List.cons_append, numeralBody, if_neg hb, if_neg hbyte, if_pos hsign, happend]
      rfl
  | case5 last b s hb hbyte hsign =>
      refine ⟨last, fun _ => rfl, ?_⟩
      rw [List.length_nil, List.drop_zero, numeralBody, if_neg hb, if_neg hbyte, if_neg hsign]

theorem numeralBody_append_drop (last : Byte) (s : Bytes) :
    numeralBody last s ++ s.drop (numeralBody last s).length = s := by
  fun_induction numeralBody last s with
  | case1 => rfl
  | case2 _ _ ih => exact congrArg _ ih
  | case3 _ _ _ _ _ ih => exact congrArg _ ih
  | case4 _ _ _ _ _ _ ih => exact congrArg _ ih
  | case5 => rfl

/-- Whether a numeral ends depends on one byte. -/
theorem numeralBody_of_head? {last : Byte} {s t : Bytes} (h : numeralBody last s = [])
    (ht : t.head? = s.head?) : numeralBody last t = [] := by
  rcases t with - | ⟨b, t⟩
  · rfl
  · rcases s with - | ⟨b', s⟩
    · cases ht
    · obtain rfl := Option.some.inj ht
      rw [numeralBody] at h ⊢
      split_ifs at h ⊢
      rfl

/-- The numeral at a byte that begins a number. -/
theorem readValue_number {b : Byte} (hb : beginsNumber b = true) (s : Bytes) (line : Nat) :
    readValue ⟨b :: s, line⟩ =
      readToken (number? (tokenAt b s)) (.invalidNumber (tokenAt b s))
        ⟨s.drop (numeralBody b s).length, line⟩ := by
  have hbracket : b ≠ Ascii.openBracket := by
    rintro rfl
    cases hb
  rw [readValue_cons, if_neg hbracket, readScalar_number hb]
  rfl

/-- A numeral ends where it did if what follows begins as it did, or with no part of a numeral. -/
theorem numeralBody_resumes {last : Byte} {t : Bytes}
    (ht : t.head? = (s.drop (numeralBody last s).length).head? ∨
      ∀ b ∈ t.head?, isNumeralByte b = false) :
    numeralBody last (numeralBody last s ++ t) = numeralBody last s := by
  obtain ⟨last', happend, hend⟩ := numeralBody_append last s
  rw [happend, List.append_right_eq_self]
  rcases ht with ht | ht
  · exact numeralBody_of_head? hend ht
  · rcases t with - | ⟨b, t⟩
    · rfl
    · exact numeralBody_of_not (ht b rfl) last' t

/-- One more digit is part of any numeral. -/
theorem numeralBody_append_zero (last : Byte) (s : Bytes) :
    numeralBody last (numeralBody last s ++ [0x30]) = numeralBody last s ++ [0x30] := by
  obtain ⟨last', happend, -⟩ := numeralBody_append last s
  rw [happend]
  rfl

theorem lineFeed_not_mem_numeralBody (last : Byte) (s : Bytes) :
    Ascii.lf ∉ numeralBody last s := by
  fun_induction numeralBody last s with
  | case1 => exact List.not_mem_nil
  | case2 last s ih => simpa using ⟨by decide, ih⟩
  | case3 last b s hb hbyte ih =>
      refine List.not_mem_cons_of_ne_of_not_mem ?_ ih
      rintro rfl
      exact absurd hbyte (by decide)
  | case4 last b s hb hbyte hsign ih =>
      refine List.not_mem_cons_of_ne_of_not_mem ?_ ih
      rintro rfl
      exact absurd hsign (by simp [Ascii.lf, Ascii.plus, Ascii.minus])
  | case5 => exact List.not_mem_nil

/-- **A number** ends before the first byte that is no part of its numeral. -/
theorem exact_number {b : Byte} (hb : beginsNumber b = true) (s : Bytes) (line : Nat) :
    Exact BeginsString EndsToken readValue ⟨b :: s, line⟩ := by
  have htext : b :: s = b :: numeralBody b s ++ s.drop (numeralBody b s).length :=
    congrArg _ (numeralBody_append_drop b s).symm
  rw [htext]
  refine exact_token (number? (tokenAt b s)) (.invalidNumber (tokenAt b s)) [0x30]
    (List.cons_ne_nil _ _) (fun hlf => ?_) rfl (fun t ht => ?_) ?_
  · rcases List.mem_cons.mp hlf with rfl | hlf
    · cases hb
    · exact lineFeed_not_mem_numeralBody b s hlf
  · have hbody := numeralBody_resumes (ht.imp_right fun h b hb => (h b hb).2)
    rw [List.cons_append, readValue_number hb, tokenAt, hbody, List.drop_left]
    rfl
  · -- one more digit makes it another numeral
    have htoken : tokenAt b (numeralBody b s ++ [0x30]) = tokenAt b s ++ [0x30] := by
      rw [tokenAt, numeralBody_append_zero, List.filter_append]
      rfl
    rw [List.cons_append, readValue_number hb, htoken, numeralBody_append_zero, List.drop_length]
    refine .token (fun h => ?_) (by simp)
    simp at h

/-! ### Arrays -/

/-- An apostrophe begins a string, and at the end of the text that is not closed. -/
theorem readValue_apostrophe (line : Nat) :
    readValue ⟨[Ascii.apostrophe], line⟩ = .error ⟨line, .unterminatedString⟩ := by
  rw [readValue_cons, if_neg (by decide), readScalar_string rfl]
  rfl

/-- **A value that is not an array.** -/
theorem exact_scalar {b : Byte} (hb : b ≠ Ascii.openBracket) (s : Bytes) (line : Nat) :
    Exact BeginsString EndsToken readValue ⟨b :: s, line⟩ := by
  by_cases hquote : (b = Ascii.quote || b = Ascii.apostrophe) = true
  · have hlf : b ≠ Ascii.lf := by
      rintro rfl
      exact absurd hquote (by decide)
    have hread : ∀ t, readValue ⟨b :: t, line⟩ =
        (readString b ⟨t, line⟩).map (Prod.map .string id) := fun t => by
      rw [readValue_cons, if_neg hb, readScalar_string hquote]
      rfl
    exact (((exact_readString hlf s line).map Node.string).behind [b] rfl
      (line_eq_of_not_mem [b] (by simpa using Ne.symm hlf) line) (fun t _ => hread t) nofun).weaken
  · by_cases hword : (b = 0x74 || b = 0x66) = true
    · exact exact_word hword s line
    · by_cases hnumber : (b = Ascii.plus || b = Ascii.minus || Ascii.isDigit b) = true
      · exact exact_number hnumber s line
      · have hread : ∀ t, readValue ⟨b :: t, line⟩ = .error ⟨line, .invalidValue⟩ := fun t => by
          rw [readValue_cons, if_neg hb, readScalar_invalid hquote hword hnumber]
        refine .faulty [] rfl (line_eq_of_looking rfl _ _) hread [Ascii.apostrophe]
          (fun _ => rfl) ?_
        rw [List.nil_append, readValue_apostrophe]
        exact fun h => nomatch h

theorem endsToken_cons {b : Byte} (hb : Ascii.isAlpha b = false ∧ isNumeralByte b = false)
    (t : Bytes) : EndsToken (b :: t) :=
  fun _ h => Option.some.inj h ▸ hb

/-- **Behind an item**, if it is known what items are read behind a comma. -/
theorem exact_readMore (node : Node) (line : Nat)
    (hitems : ∀ t line, t.length < s.length → Exact AnyText AnyText readItems ⟨t, line⟩) :
    Exact EndsToken AnyText (readMore node) ⟨s, line⟩ := by
  have hcomma : BlankEnd [Ascii.comma] := blankEnd_cons (by decide) []
  by_cases hs : afterBlank s = []
  · refine .unfinished (readMore_of_nil node (skipBlank_of_nil hs line)) [Ascii.lf, Ascii.comma]
      (fun _ => endsToken_cons (by decide) _) ?_
    rw [readMore_of_cons node (skipBlank_newLine hs hcomma line), if_pos rfl, readItems_of_nil rfl]
    exact fun h => nomatch h
  · obtain ⟨b, t, ht, hb⟩ := blankEnd_afterBlank hs
    have hsplit : s = gap s ++ b :: t := by rw [← ht, gap_append]
    have hlength : t.length < s.length := by
      rw [hsplit, List.length_append, List.length_cons]
      omega
    -- a comma in the place of any other byte leads to the items behind it
    have hother : Departs .expectedComma (readMore node ⟨gap s ++ [Ascii.comma], line⟩) := by
      rw [readMore_of_cons node (skipBlank_gap hs hcomma line), if_pos rfl, readItems_of_nil rfl]
      exact fun h => nomatch h
    have hread : ∀ u, readMore node ⟨gap s ++ b :: u, line⟩ = _ := fun u =>
      readMore_of_cons node (skipBlank_gap hs (blankEnd_cons hb u) line)
    generalize gap s = front at hsplit hread hother
    by_cases hsep : b = Ascii.comma
    · subst hsep
      have htext : s = front ++ [Ascii.comma] ++ t := hsplit.trans (by simp)
      refine ((hitems t (line + front.count Ascii.lf) hlength).map (node :: ·)).behind
        (front ++ [Ascii.comma]) htext (line_eq_append (by decide) line front)
        (fun u _ => ?_) fun h => absurd h (by simp)
      rw [List.append_assoc, List.singleton_append, hread u, if_pos rfl]
    · by_cases hclose : b = Ascii.closeBracket
      · subst hclose
        refine .closed [node] (by decide) hsplit fun u => ?_
        rw [hread u, if_neg hsep, if_pos rfl]
      · refine .faulty front hsplit (line_eq_of_looking rfl _ _) (fun u => ?_) [Ascii.comma]
          (fun _ => endsToken_cons (by decide) _) hother
        rw [hread u, if_neg hsep, if_neg hclose]

/-- **Items**, if it is known what value is read, and what stands behind. -/
theorem exact_readItems (line : Nat)
    (hvalue : ∀ t line, t.length ≤ s.length → Exact BeginsString EndsToken readValue ⟨t, line⟩)
    (hmore : ∀ t line node, t.length < s.length →
      Exact EndsToken AnyText (readMore node) ⟨t, line⟩) :
    Exact AnyText AnyText readItems ⟨s, line⟩ := by
  have hquote : BlankEnd [Ascii.apostrophe] := blankEnd_cons (by decide) []
  by_cases hs : afterBlank s = []
  · refine .unfinished (readItems_of_nil (skipBlank_of_nil hs line)) [Ascii.lf, Ascii.apostrophe]
      (fun _ => trivial) ?_
    rw [readItems_of_cons (skipBlank_newLine hs hquote line), if_neg (by decide),
      Reading.andThen_of_error _ (readValue_apostrophe _)]
    exact fun h => nomatch h
  · obtain ⟨b, t, ht, hb⟩ := blankEnd_afterBlank hs
    have hsplit : s = gap s ++ b :: t := by rw [← ht, gap_append]
    have hlength : (b :: t).length ≤ s.length := ht ▸ length_afterBlank_le s
    by_cases hclose : b = Ascii.closeBracket
    · subst hclose
      refine .closed [] (by decide) hsplit fun u => ?_
      rw [readItems_of_cons (skipBlank_gap hs (blankEnd_cons hb u) line), if_pos rfl]
    · have hread : ∀ u, u.head? = some b ∨ BeginsString u → readItems ⟨gap s ++ u, line⟩ =
          readValue.andThen readMore ⟨u, line + (gap s).count Ascii.lf⟩ := by
        intro u hu
        have hu : ∃ b', u.head? = some b' ∧ BlankEnd u ∧ b' ≠ Ascii.closeBracket :=
          hu.elim (fun hu => ⟨b, hu, (blankEnd_cons hb t).of_head? hu, hclose⟩)
            fun hu => ⟨_, hu, hquote.of_head? hu, by decide⟩
        obtain ⟨b', hhead, hend, hopen⟩ := hu
        obtain ⟨u, rfl⟩ := List.head?_eq_some_iff.mp hhead
        rw [readItems_of_cons (skipBlank_gap hs hend line), if_neg hopen]
      have hitems : Exact BeginsString AnyText (readValue.andThen readMore)
          ⟨b :: t, line + (gap s).count Ascii.lf⟩ := by
        refine (hvalue _ _ hlength).andThen (fun node c' h => ?_) fun node line fault hfault => ?_
        · have hlt := length_lt_of_outcome h
          exact hmore c'.rest c'.line node (by simp only at hlt; omega)
        · rw [readMore_of_nil node rfl]
          exact Ne.symm hfault
      exact hitems.behind (gap s) hsplit rfl hread fun _ _ _ => trivial

/-- **Values and items.** Induction on the length of the text: what stands in an array is shorter
than the array. -/
theorem exact_value_items (s : Bytes) (line : Nat) :
    Exact BeginsString EndsToken readValue ⟨s, line⟩ ∧
      Exact AnyText AnyText readItems ⟨s, line⟩ := by
  induction hn : s.length using Nat.strongRecOn generalizing s line with
  | ind n ih =>
      have hvalue : ∀ t line, t.length ≤ s.length →
          Exact BeginsString EndsToken readValue ⟨t, line⟩ := by
        intro t line ht
        rcases t with - | ⟨b, t⟩
        · refine .unfinished (readValue_nil line) [Ascii.apostrophe] (fun _ => rfl) ?_
          rw [List.nil_append, readValue_apostrophe]
          exact fun h => nomatch h
        · by_cases hb : b = Ascii.openBracket
          · have hitems := (ih _ (by simp only [List.length_cons] at ht; omega) t line rfl).2
            refine ((hitems.map Node.array).behind [b] rfl ?_ (fun u _ => ?_) nofun).weaken
            · exact line_eq_of_not_mem [b] (by simpa [hb] using by decide) line
            · rw [List.singleton_append, readValue_cons, if_pos hb]
          · exact exact_scalar hb t line
      refine ⟨hvalue s line le_rfl, exact_readItems line hvalue fun t line node ht => ?_⟩
      exact exact_readMore node line fun u line hu => (ih _ (by omega) u line rfl).2

/-- **Values are exact.** -/
theorem exact_readValue (c : Cursor) : Exact BeginsString EndsToken readValue c :=
  (exact_value_items c.rest c.line).1

end Toml

end DoctypeProbe
