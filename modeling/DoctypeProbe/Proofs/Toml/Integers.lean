import DoctypeProbe.Proofs.Toml.FaultLines
import Mathlib.Algebra.Group.Int.Defs

/-!
# Integers in Settings Documents

An integer may be written with a plus sign, with leading zeros, and with underscores anywhere
behind its first byte. However long its numeral is, all digits of it are read. A document has
64 bits for an integer: one that fits is stored as it is, and one that does not is refused. None is
wrapped around or cut down to what fits.

## Main results

* `Numeral.spellsInteger_written`: what is written stands for the integer.
* `Toml.readValue_spaced`: numerals of integers as values, with underscores in them.
* `Toml.integer_stored_or_refused`: all integers, as values and in documents.
-/

namespace DoctypeProbe

/-! ### Written integers -/

namespace Numeral

/-- The sign of a written integer: a minus sign if it is negative, and else a plus sign or none. -/
def signOf (plus : Bool) (n : Int) : Bytes :=
  if n < 0 then [Ascii.minus] else if plus then [Ascii.plus] else []

/-- An integer written in decimal, with leading zeros and maybe a plus sign. -/
def written (plus : Bool) (zeros : Nat) (n : Int) : Bytes :=
  signOf plus n ++ (List.replicate zeros (Ascii.ofDigit 0) ++ Bytes.decimal n.natAbs)

theorem isSign_signOf (plus : Bool) (n : Int) : IsSign (signOf plus n) (decide (n < 0)) := by
  rw [signOf]
  split_ifs with hn hplus
  · rw [decide_eq_true hn]
    exact .minus
  · rw [decide_eq_false hn]
    exact .plus
  · rw [decide_eq_false hn]
    exact .absent

/-- Leading zeros do not count. -/
theorem ofDigits_zeros_append (zeros : Nat) (digits : Bytes) :
    ofDigits (List.replicate zeros (Ascii.ofDigit 0) ++ digits) = ofDigits digits := by
  induction zeros with
  | zero => rfl
  | succ zeros ih =>
      rw [List.replicate_succ, List.cons_append]
      exact ih

/-- **A written integer** is a numeral of it. -/
theorem spellsInteger_written (plus : Bool) (zeros : Nat) (n : Int) :
    SpellsInteger (written plus zeros n) n := by
  have hdigits : IsDigits (List.replicate zeros (Ascii.ofDigit 0) ++ Bytes.decimal n.natAbs) := by
    intro b hb
    rcases List.mem_append.mp hb with hb | hb
    · rw [List.eq_of_mem_replicate hb]
      rfl
    · exact Bytes.isDigit_of_mem_decimal hb
  have hspells := SpellsInteger.intro (isSign_signOf plus n) hdigits
    (List.append_ne_nil_of_right_ne_nil _ (Bytes.decimal_ne_nil n.natAbs))
  have hvalue : signed (decide (n < 0)) n.natAbs = n := by
    by_cases hn : n < 0
    · rw [signed, if_pos (decide_eq_true hn)]
      omega
    · rw [signed, if_neg (by simpa using hn)]
      omega
  rwa [ofDigits_zeros_append, ofDigits_decimal, hvalue] at hspells

/-- An integer in decimal is a numeral of it. -/
theorem spellsInteger_signedDecimal (n : Int) : SpellsInteger (Bytes.signedDecimal n) n := by
  have hwritten : written false 0 n = Bytes.signedDecimal n := by
    cases n with
    | ofNat n => rfl
    | negSucc n =>
        rw [written, signOf, if_pos (Int.negSucc_lt_zero n)]
        rfl
  exact hwritten ▸ spellsInteger_written false 0 n

end Numeral

namespace Toml

open Numeral

/-! ### Tokens with underscores -/

/-- A numeral with underscores put in behind its first byte. -/
def Spaced (numeral text : Bytes) : Prop :=
  text.head? = numeral.head? ∧ text.filter (· != Ascii.underscore) = numeral

/-- A numeral without underscores. -/
theorem Spaced.self {numeral : Bytes} {n : Int} (h : SpellsInteger numeral n) :
    Spaced numeral numeral := by
  have hdigit : ∀ d, Ascii.isDigit d = true → (d != Ascii.underscore) = true := fun d hd =>
    bne_iff_ne.mpr fun heq => absurd (heq ▸ hd) (by decide)
  refine ⟨rfl, List.filter_eq_self.mpr ?_⟩
  obtain ⟨b, digits, rfl, hdigits, hb⟩ := h.exists_cons
  refine List.forall_mem_cons.mpr ⟨?_, fun d hd => hdigit d (hdigits d hd)⟩
  rcases hb with rfl | rfl | hb
  · decide
  · decide
  · exact hdigit b hb

/-- A byte that the numeral of an integer may go on with, or that makes it another number. -/
def continuesInteger (b : Byte) : Bool :=
  Ascii.isDigit b || b == Ascii.underscore || b == Ascii.dot || Ascii.lower b == 0x65

/-- Digits and underscores are read to their end. -/
theorem numeralBody_spaced {last : Byte} {s rest : Bytes} (hlast : Ascii.lower last ≠ 0x65)
    (hs : IsDigits (s.filter (· != Ascii.underscore)))
    (hrest : ∀ b ∈ rest.head?, continuesInteger b = false) :
    numeralBody last (s ++ rest) = s := by
  induction s generalizing last with
  | nil =>
      rcases rest with - | ⟨b, rest⟩
      · rfl
      · have hb := hrest b rfl
        simp only [continuesInteger, Bool.or_eq_false_iff, beq_eq_false_iff_ne] at hb
        simp [numeralBody, hb, hlast]
  | cons b s ih =>
      by_cases hb : b = Ascii.underscore
      · rw [List.filter_cons_of_neg (by simp [hb])] at hs
        rw [List.cons_append, numeralBody, if_pos hb, ih hlast hs]
      · rw [List.filter_cons_of_pos (by simpa using hb)] at hs
        obtain ⟨hdigit, hdigits⟩ := List.forall_mem_cons.mp hs
        have hmarker := (not_marker_iff.mp (not_marker_of_isDigit hdigit)).2
        rw [List.cons_append, numeralBody, if_neg hb, if_pos (by simp [hdigit]),
          ih hmarker hdigits]

/-- **The numeral of an integer** stands for it if it fits, and else for nothing. -/
theorem number?_of_spells {numeral : Bytes} {n : Int} (h : SpellsInteger numeral n) :
    number? numeral = if fitsInt64 n then some (.integer (Int64.ofInt n)) else none := by
  have hinteger : (numeral.any fun b => b == Ascii.dot || Ascii.lower b == 0x65) = false := by
    obtain ⟨b, digits, rfl, hdigits, hb⟩ := h.exists_cons
    rw [List.any_eq_false]
    refine List.forall_mem_cons.mpr ⟨?_, fun d hd => ?_⟩
    · rcases hb with rfl | rfl | hb
      · decide
      · decide
      · simp [not_marker_of_isDigit hb]
    · simp [not_marker_of_isDigit (hdigits d hd)]
  rw [number?, hinteger, if_neg Bool.false_ne_true, h.integer?_eq]

/-- **The numeral of an integer as a value**, with underscores in it. -/
theorem readValue_spaced {numeral text rest : Bytes} {n : Int} (hn : SpellsInteger numeral n)
    (htext : Spaced numeral text) (hrest : ∀ b ∈ rest.head?, continuesInteger b = false)
    (line : Nat) :
    readValue ⟨text ++ rest, line⟩ =
      if fitsInt64 n then .ok (.integer (Int64.ofInt n), ⟨rest, line⟩)
      else .error ⟨line, .invalidNumber numeral⟩ := by
  have hnumber := number?_of_spells hn
  obtain ⟨b, digits, rfl, hdigits, hb⟩ := hn.exists_cons
  obtain ⟨hhead, hfilter⟩ := htext
  obtain ⟨s, rfl⟩ := List.head?_eq_some_iff.mp hhead
  have hbegins : beginsNumber b = true := by
    simpa [beginsNumber, or_assoc] using hb
  have hfirst : Ascii.lower b ≠ 0x65 ∧ b ≠ Ascii.underscore := by
    rcases hb with rfl | rfl | hb
    · decide
    · decide
    · refine ⟨(not_marker_iff.mp (not_marker_of_isDigit hb)).2, ?_⟩
      rintro rfl
      cases hb
  rw [List.filter_cons_of_pos (by simpa using hfirst.2)] at hfilter
  have hs : s.filter (· != Ascii.underscore) = digits := (List.cons.inj hfilter).2
  have hbody : numeralBody b (s ++ rest) = s :=
    numeralBody_spaced hfirst.1 (hs ▸ hdigits) hrest
  have htoken : tokenAt b (s ++ rest) = b :: digits := by rw [tokenAt, hbody, hs]
  rw [List.cons_append, readValue_number hbegins, htoken, hnumber, hbody, List.drop_left]
  split_ifs <;> rfl

/-! ### Documents of one assignment -/

/-- An assignment to a bare key, whose value begins behind the white space. -/
theorem readStatement_assigned (state : State) {key s : Bytes} (hkey : IsBareKey key)
    (hs : ∀ b ∈ s.head?, Cursor.isSpace b = false) (line : Nat) :
    readStatement state ⟨key ++ ascii " = " ++ s, line⟩ =
      (readValue ⟨s, line⟩).map (Prod.map (fun node => state.assigned (key, node)) id) := by
  have hbytes := List.all_eq_true.mp hkey.2
  have htext : key ++ ascii " = " ++ s =
      key ++ [Ascii.space] ++ Ascii.equals :: ([Ascii.space] ++ s) := by
    have hequals : ascii " = " = [Ascii.space, Ascii.equals, Ascii.space] := by decide
    simp [hequals]
  have hspace : ([Ascii.space] ++ s).takeWhile Cursor.isSpace = [Ascii.space] :=
    (span_append (List.forall_mem_singleton.mpr rfl) hs).1
  have hafter : (key ++ ([Ascii.space] ++ Ascii.equals :: ([Ascii.space] ++ s))).takeWhile
      isKeyByte = key := by
    exact (span_append hbytes (forall_head?_of_eq_some rfl rfl)).1
  have hline := line_eq_of_not_mem (key ++ [Ascii.space]) (fun hlf => by
    rcases List.mem_append.mp hlf with hlf | hlf
    · exact absurd (hbytes _ hlf) (by decide)
    · exact absurd hlf (by decide)) line
  have hassignment : readAssignment ⟨key ++ ascii " = " ++ s, line⟩ =
      (readValue ⟨s, line⟩).map (Prod.map (key, ·) id) := by
    rw [htext, readAssignment_span hkey.1 hafter rfl, ← hline, readAssigned_cons, if_pos rfl,
      Cursor.skipSpaces, skipWhile_span hspace, ← line_eq_of_not_mem [Ascii.space] (by decide)]
  obtain ⟨b, key, rfl⟩ := List.exists_cons_of_ne_nil hkey.1
  have hb : b ≠ Ascii.openBracket := ne_of_class (first_of_isBareKey hkey) _ (by decide)
  have hread := readStatement_cons state b (key ++ ascii " = " ++ s) line
  rw [if_neg hb] at hread
  refine hread.trans ?_
  rw [← List.cons_append, ← List.cons_append, hassignment]
  rcases readValue ⟨s, line⟩ with e | ⟨node, c⟩ <;> rfl

theorem blankEnd_assigned {key : Bytes} (hkey : IsBareKey key) (s : Bytes) :
    BlankEnd (key ++ ascii " = " ++ s) := by
  have hblank : afterBlank (key ++ ascii " = " ++ s) = key ++ ascii " = " ++ s := by
    rw [List.append_assoc, hkey.afterBlank_append]
  have hne : key ++ ascii " = " ++ s ≠ [] :=
    List.append_ne_nil_of_left_ne_nil (List.append_ne_nil_of_left_ne_nil hkey.1 _) _
  have hend := blankEnd_afterBlank (by rw [hblank]; exact hne)
  rwa [hblank] at hend

/-- An assignment to a bare key, and what is behind it. -/
theorem readLines_assigned (state : State) {key s : Bytes} (hkey : IsBareKey key)
    (hs : ∀ b ∈ s.head?, Cursor.isSpace b = false) (line : Nat) :
    readLines state ⟨key ++ ascii " = " ++ s, line⟩ =
      readValue.andThen (fun node => readRest (state.assigned (key, node))) ⟨s, line⟩ := by
  have hstatement := readStatement_assigned state hkey hs line
  rw [readLines_of_blankEnd state (blankEnd_assigned hkey s)]
  rcases hv : readValue ⟨s, line⟩ with e | ⟨node, c⟩
  · rw [hv] at hstatement
    rw [Reading.andThen_of_error readRest hstatement, Reading.andThen_of_error _ hv]
  · rw [hv] at hstatement
    rw [Reading.andThen_of_ok readRest hstatement, Reading.andThen_of_ok _ hv]
    rfl

/-- **A document of one assignment** is its value. -/
theorem parse_assignment {key s : Bytes} (hkey : IsBareKey key)
    (hs : ∀ b ∈ s.head?, Cursor.isSpace b = false) :
    (∀ node, readValue ⟨s, 1⟩ = .ok (node, ⟨[Ascii.lf], 1⟩) →
      parse (key ++ ascii " = " ++ s) = .ok [(key, node)]) ∧
    ∀ e, readValue ⟨s, 1⟩ = .error e → parse (key ++ ascii " = " ++ s) = .error e := by
  have hlines := readLines_assigned {} hkey hs 1
  constructor
  · intro node hv
    rw [parse_eq, hlines, Reading.andThen_of_ok _ hv, readRest_of_endsLine _ rfl,
      readLines_of_nil _ rfl]
    rfl
  · intro e hv
    exact parse_of_readLines_error (hlines.trans (Reading.andThen_of_error _ hv))

/-- A line that is empty is passed. -/
theorem readLines_newLine (state : State) {t : Bytes} (ht : BlankEnd t) (line : Nat) :
    readLines state ⟨Ascii.lf :: t, line⟩ = readLines state ⟨t, line + 1⟩ := by
  have hgap : gap (Ascii.lf :: t) = [Ascii.lf] := congrArg (Ascii.lf :: ·) ht.blank
  have hsplit := gap_append (Ascii.lf :: t)
  have hafter : afterBlank (Ascii.lf :: t) ≠ [] := by
    rw [hgap, List.singleton_append] at hsplit
    obtain ⟨b, u, rfl, -⟩ := ht
    rw [(List.cons.inj hsplit).2]
    exact List.cons_ne_nil b u
  have hread := readLines_gap state hafter ht line
  rw [hgap] at hread
  exact hread.trans (readLines_of_blankEnd state ht (line + 1)).symm

/-- **A document of one assignment in a section**, which is entered from the empty table. -/
theorem parse_inSection {name key s : Bytes} {state : State}
    (hname : ∀ b ∈ name, isInside b = true)
    (henter : ∀ c, State.enter {} (trim name) c = .ok (state, c)) (hkey : IsBareKey key)
    (hs : ∀ b ∈ s.head?, Cursor.isSpace b = false) :
    parse (Ascii.openBracket ::
        (name ++ Ascii.closeBracket :: Ascii.lf :: (key ++ ascii " = " ++ s))) =
      (readValue.andThen (fun node => readRest (state.assigned (key, node))) ⟨s, 2⟩).map
        Prod.fst := by
  have hheader : readStatement {} ⟨Ascii.openBracket ::
      (name ++ Ascii.closeBracket :: Ascii.lf :: (key ++ ascii " = " ++ s)), 1⟩ =
        .ok (state, ⟨Ascii.lf :: (key ++ ascii " = " ++ s), 1⟩) := by
    rw [readStatement_cons, if_pos rfl, readSection_span {} hname rfl, if_pos rfl, henter]
  rw [parse_eq, readLines_of_blankEnd {} (blankEnd_cons (by decide) _),
    Reading.andThen_of_ok readRest hheader, readRest_of_endsLine _ rfl,
    readLines_newLine _ (blankEnd_assigned hkey s), readLines_assigned _ hkey hs]

/-! ### All integers -/

theorem fitsInt64_iff (n : Int) :
    fitsInt64 n = true ↔ -2 ^ 63 ≤ n ∧ n ≤ 2 ^ 63 - 1 := by
  rw [fitsInt64, Bool.and_eq_true, decide_eq_true_eq, decide_eq_true_eq]
  omega

/-- A written integer does not begin with white space, however it is spaced. -/
theorem Spaced.head_not_space {numeral text : Bytes} {n : Int} (htext : Spaced numeral text)
    (hn : SpellsInteger numeral n) (rest : Bytes) :
    ∀ b ∈ (text ++ rest).head?, Cursor.isSpace b = false := by
  obtain ⟨b, digits, rfl, -, hb⟩ := hn.exists_cons
  obtain ⟨s, rfl⟩ := List.head?_eq_some_iff.mp htext.1
  rintro _ ⟨⟩
  rcases hb with rfl | rfl | hb
  · rfl
  · rfl
  · have hspace := ne_of_class hb Ascii.space rfl
    have htab := ne_of_class hb Ascii.tab rfl
    simp [Cursor.isSpace, hspace, htab]

/-- **Every integer** is stored as it is if it fits into 64 bits, and refused if it does not, with
whatever sign, leading zeros and underscores it is written: as a value, whatever follows that does
not go on with the numeral, and in a document that assigns it to a key. -/
theorem integer_stored_or_refused (n : Int) (plus : Bool) (zeros : Nat) {text : Bytes}
    (htext : Spaced (written plus zeros n) text) :
    (-2 ^ 63 ≤ n ∧ n ≤ 2 ^ 63 - 1 → ∃ v : Int64, v.toInt = n ∧
      (∀ rest line, (∀ b ∈ rest.head?, continuesInteger b = false) →
        outcome (value ⟨text ++ rest, line⟩) = .ok (.integer v, ⟨rest, line⟩)) ∧
      ∀ key, IsBareKey key →
        parse (key ++ ascii " = " ++ (text ++ [Ascii.lf])) = .ok [(key, .integer v)]) ∧
    (¬(-2 ^ 63 ≤ n ∧ n ≤ 2 ^ 63 - 1) →
      (∀ rest line, (∀ b ∈ rest.head?, continuesInteger b = false) →
        outcome (value ⟨text ++ rest, line⟩) =
          .error ⟨line, .invalidNumber (written plus zeros n)⟩) ∧
      ∀ key, IsBareKey key →
        parse (key ++ ascii " = " ++ (text ++ [Ascii.lf])) =
          .error ⟨1, .invalidNumber (written plus zeros n)⟩) := by
  have hn := spellsInteger_written plus zeros n
  have hfirst := htext.head_not_space hn [Ascii.lf]
  have hlf : ∀ b ∈ [Ascii.lf].head?, continuesInteger b = false :=
    forall_head?_of_eq_some rfl rfl
  constructor
  · intro hfits
    have hread : ∀ rest line, (∀ b ∈ rest.head?, continuesInteger b = false) →
        readValue ⟨text ++ rest, line⟩ = .ok (.integer (Int64.ofInt n), ⟨rest, line⟩) :=
      fun rest line hrest => by
        rw [readValue_spaced hn htext hrest, if_pos ((fitsInt64_iff n).mpr hfits)]
    exact ⟨Int64.ofInt n, Int64.toInt_ofInt_of_le hfits.1 (by omega), hread, fun key hkey =>
      (parse_assignment hkey hfirst).1 _ (hread [Ascii.lf] 1 hlf)⟩
  · intro hfits
    have hread : ∀ rest line, (∀ b ∈ rest.head?, continuesInteger b = false) →
        readValue ⟨text ++ rest, line⟩ = .error ⟨line, .invalidNumber (written plus zeros n)⟩ :=
      fun rest line hrest => by
        rw [readValue_spaced hn htext hrest, if_neg (mt (fitsInt64_iff n).mp hfits)]
    exact ⟨hread, fun key hkey => (parse_assignment hkey hfirst).2 _ (hread [Ascii.lf] 1 hlf)⟩

theorem integer_stored_or_refused_limits :
    (∃ v : Int64, v.toInt = 2 ^ 63 - 1 ∧
      parse (ascii "n = +0_9223372036854775807\n") = .ok [(ascii "n", .integer v)]) ∧
    parse (ascii "n = -9_223372036854775809\n") =
      .error ⟨1, .invalidNumber (ascii "-9223372036854775809")⟩ := by
  have hmax : Spaced (written true 1 (2 ^ 63 - 1)) (ascii "+0_9223372036854775807") := by
    refine ⟨by decide +kernel, by decide +kernel⟩
  have hbelow : written false 0 (-2 ^ 63 - 1) = ascii "-9223372036854775809" := by decide +kernel
  have hmin : Spaced (written false 0 (-2 ^ 63 - 1)) (ascii "-9_223372036854775809") := by
    rw [hbelow]
    exact ⟨by decide +kernel, by decide +kernel⟩
  have hkey : IsBareKey (ascii "n") := by decide
  obtain ⟨v, hv, -, hstored⟩ := (integer_stored_or_refused _ true 1 hmax).1 (by decide)
  have hrefused := ((integer_stored_or_refused _ false 0 hmin).2 (by decide)).2 _ hkey
  rw [hbelow] at hrefused
  exact ⟨⟨v, hv, hstored _ hkey⟩, hrefused⟩

end Toml

end DoctypeProbe
