import DoctypeProbe.Proofs.Text.Lines
import DoctypeProbe.Text.Charset

/-!
# Decoding Line by Line

A document is cut into raw lines first and decoded afterwards. That gives the lines of the
decoded document, because terminators are ASCII: such a byte stands for itself in every
charset, and no encoding of another character has it in it. So decoding can be taken apart
at every terminator.

## Main results

* `Utf8.validateFrom_append`: validity at an ASCII byte comes apart.
* `Charset.decode_append`: so does decoding.
* `Charset.decode_ofText`: the raw lines of a document decode to the lines of the decoded
  document.
-/

namespace DoctypeProbe

/-! ### UTF-8 at an ASCII byte -/

namespace Utf8

theorem continueWith_append_ascii {t : Byte} (ht : isContinuation t = false) (index bits : Nat)
    (s s' : Bytes) : ∃ e, continueWith index bits (s ++ t :: s') = .error e := by
  induction s generalizing index bits with
  | nil =>
      rw [List.nil_append, continueWith, if_neg (by simp [ht])]
      exact ⟨_, rfl⟩
  | cons b s ih =>
      rw [List.cons_append, continueWith]
      split
      · exact ih _ _
      · exact ⟨_, rfl⟩

/-- What a character needs is in front of whatever follows it. -/
theorem scalar_append {b : Byte} {rest : Bytes} {code k : Nat} (h : scalar b rest = .ok (code, k))
    (s : Bytes) : scalar b (rest ++ s) = .ok (code, k) ∧ k ≤ rest.length := by
  unfold scalar at h ⊢
  cases hs : shape? b with
  | none => simp [hs] at h
  | some shape =>
      simp only [hs] at h ⊢
      by_cases hl : (rest.take shape.trailing).length < shape.trailing
      · rw [if_pos hl] at h
        cases h
      · have hle : shape.trailing ≤ rest.length := by
          rw [List.length_take] at hl
          omega
        rw [List.take_append_of_le_length hle]
        refine ⟨h, ?_⟩
        rw [if_neg hl] at h
        cases hc : continueWith 1 shape.bits (rest.take shape.trailing) with
        | error e => simp [hc, bind, Except.bind] at h
        | ok c =>
            simp only [hc, bind, Except.bind] at h
            split at h
            · cases h
            · split at h
              · cases h
                exact hle
              · cases h

/-- An ASCII byte completes no character. -/
theorem scalar_append_ascii {b t : Byte} (ht : isContinuation t = false) {rest : Bytes}
    {e : DecodingError} (h : scalar b rest = .error e) (s : Bytes) :
    ∃ e', scalar b (rest ++ t :: s) = .error e' := by
  unfold scalar at h ⊢
  cases hs : shape? b with
  | none => exact ⟨_, rfl⟩
  | some shape =>
      simp only [hs] at h ⊢
      by_cases hle : shape.trailing ≤ rest.length
      · rw [List.take_append_of_le_length hle]
        exact ⟨e, h⟩
      · split
        · exact ⟨_, rfl⟩
        · -- the bytes that are missing would have to begin with the ASCII byte
          have htake : (rest ++ t :: s).take shape.trailing =
              rest ++ t :: s.take (shape.trailing - rest.length - 1) := by
            rw [List.take_append, List.take_of_length_le (by omega)]
            obtain ⟨n, hn⟩ : ∃ n, shape.trailing - rest.length = n + 1 :=
              ⟨shape.trailing - rest.length - 1, by omega⟩
            rw [hn, List.take_succ_cons]
            rfl
          obtain ⟨e', he⟩ := continueWith_append_ascii ht 1 shape.bits rest
            (s.take (shape.trailing - rest.length - 1))
          exact ⟨e', by rw [htake, he]; rfl⟩

theorem not_isContinuation_of_lt {t : Byte} (ht : t < 0x80) : isContinuation t = false := by
  have h : ¬ 0x80 ≤ t := UInt8.not_le.mpr ht
  simp [isContinuation, h]

/-- An ASCII byte is a character of its own. -/
theorem scalar_ascii {t : Byte} (ht : t < 0x80) (rest : Bytes) :
    scalar t rest = .ok (t.toNat, 0) := by
  have hs : shape? t = some ⟨0, t.toNat, 0⟩ := by rw [shape?, if_pos ht]
  have hv : t.toNat.isValidChar := by
    have hlt : t.toNat < 128 := UInt8.lt_iff_toNat_lt.mp ht
    exact Or.inl (by omega)
  simp [scalar, hs, continueWith, hv, bind, Except.bind]

theorem validateFrom_ok_offset {s : Bytes} {o o' : Nat} (h : validateFrom o s = .ok ()) :
    validateFrom o' s = .ok () := by
  fun_induction validateFrom o s generalizing o' with
  | case1 => rw [validateFrom]
  | case2 => cases h
  | case3 o b rest code k hk ih =>
      rw [validateFrom, hk]
      exact ih h

/-- **Validity at an ASCII byte** comes apart: what stands before it is valid and what
follows it is. -/
theorem validateFrom_append {t : Byte} (ht : t < 0x80) (o : Nat) (s s' : Bytes) :
    validateFrom o (s ++ t :: s') = .ok () ↔
      validateFrom o s = .ok () ∧ validateFrom 0 s' = .ok () := by
  fun_induction validateFrom o s with
  | case1 o =>
      rw [List.nil_append, validateFrom, scalar_ascii ht]
      simp only [List.drop_zero, true_and]
      exact ⟨validateFrom_ok_offset, validateFrom_ok_offset⟩
  | case2 o b rest e he =>
      obtain ⟨e', he'⟩ := scalar_append_ascii (not_isContinuation_of_lt ht) he s'
      rw [List.cons_append, validateFrom, he']
      simp
  | case3 o b rest code k hk ih =>
      obtain ⟨hk', hle⟩ := scalar_append hk (t :: s')
      rw [List.cons_append, validateFrom, hk']
      simp only [List.drop_append_of_le_length hle]
      exact ih

theorem validate_append {t : Byte} (ht : t < 0x80) (s s' : Bytes) :
    validate (s ++ t :: s') = .ok () ↔ validate s = .ok () ∧ validate s' = .ok () :=
  validateFrom_append ht 0 s s'

end Utf8

namespace Charset

/-! ### Other charsets at an ASCII byte -/

theorem asciiFrom_ok_iff {o : Nat} {s : Bytes} : asciiFrom o s = .ok () ↔ ∀ b ∈ s, b < 0x80 := by
  induction s generalizing o with
  | nil => simp [asciiFrom]
  | cons b s ih =>
      rw [asciiFrom, List.forall_mem_cons]
      split
      · rename_i hb
        rw [ih]
        exact ⟨fun h => ⟨hb, h⟩, And.right⟩
      · rename_i hb
        exact ⟨fun h => (by cases h), fun h => absurd h.1 hb⟩

theorem toNat_ofUInt8 (b : Byte) : (Char.ofUInt8 b).toNat = b.toNat := rfl

/-- An ASCII byte stands for itself in ISO-8859-1. -/
theorem latin1Encode_of_lt {b : Byte} (hb : b < 0x80) : latin1Encode b = [b] := by
  have h : b.toNat < 0x80 := UInt8.lt_iff_toNat_lt.mp hb
  rw [latin1Encode, Utf8.encode, toNat_ofUInt8, if_pos h, UInt8.ofNat_toNat]

/-- Any other byte is written with two bytes, both beyond ASCII. -/
theorem latin1Encode_of_not_lt {b : Byte} (hb : ¬ b < 0x80) :
    ∃ x y, latin1Encode b = [x, y] ∧ ¬ x < 0x80 ∧ ¬ y < 0x80 := by
  have h : ¬ b.toNat < 0x80 := fun h => hb (UInt8.lt_iff_toNat_lt.mpr h)
  have h' : b.toNat < 256 := b.toNat_lt
  refine ⟨.ofNat (0xC0 + b.toNat / 64), .ofNat (0x80 + b.toNat % 64), ?_, ?_, ?_⟩
  · rw [latin1Encode, Utf8.encode, toNat_ofUInt8, if_neg h, if_pos (by omega)]
  · simp [UInt8.lt_iff_toNat_lt]
    omega
  · simp [UInt8.lt_iff_toNat_lt]
    omega

/-! ### Decoding at an ASCII byte -/

theorem decode_nil (charset : Charset) : charset.decode [] = .ok [] := by
  cases charset <;> simp [decode, Utf8.validate, Utf8.validateFrom, asciiFrom, Except.map]

theorem map_const_eq_ok_iff {ε : Type} {check : Except ε Unit} {raw text : Bytes} :
    (check.map fun _ => raw) = .ok text ↔ check = .ok () ∧ raw = text := by
  cases check <;> simp [Except.map]

/-- **Decoding at an ASCII byte** comes apart: what stands before it decodes, what follows it
does, and the byte stands for itself between them. -/
theorem decode_append (charset : Charset) {t : Byte} (ht : t < 0x80) {s s' text : Bytes} :
    charset.decode (s ++ t :: s') = .ok text ↔ ∃ a b, charset.decode s = .ok a ∧
      charset.decode s' = .ok b ∧ text = a ++ t :: b := by
  cases charset with
  | utf8 =>
      simp only [decode, map_const_eq_ok_iff, Utf8.validate_append ht]
      constructor
      · rintro ⟨⟨h, h'⟩, rfl⟩
        exact ⟨s, s', ⟨h, rfl⟩, ⟨h', rfl⟩, rfl⟩
      · rintro ⟨a, b, ⟨h, rfl⟩, ⟨h', rfl⟩, rfl⟩
        exact ⟨⟨h, h'⟩, rfl⟩
  | latin1 =>
      simp [decode, latin1Encode_of_lt ht, eq_comm]
  | ascii =>
      simp only [decode, map_const_eq_ok_iff, asciiFrom_ok_iff, List.forall_mem_append,
        List.forall_mem_cons]
      constructor
      · rintro ⟨⟨h, -, h'⟩, rfl⟩
        exact ⟨s, s', ⟨h, rfl⟩, ⟨h', rfl⟩, rfl⟩
      · rintro ⟨a, b, ⟨h, rfl⟩, ⟨h', rfl⟩, rfl⟩
        exact ⟨⟨h, ht, h'⟩, rfl⟩
  | unknown =>
      simp [decode, eq_comm]

/-- Decoding makes no ASCII byte of its own, and puts none in front. -/
theorem ascii_of_decode {charset : Charset} {raw text : Bytes}
    (h : charset.decode raw = .ok text) {t : Byte} (ht : t < 0x80) :
    (t ∈ text → t ∈ raw) ∧ (text.head? = some t → raw.head? = some t) := by
  cases charset with
  | utf8 =>
      obtain ⟨-, rfl⟩ := map_const_eq_ok_iff.mp h
      exact ⟨id, id⟩
  | latin1 =>
      cases h
      constructor
      · intro hm
        obtain ⟨b, hb, hmb⟩ := List.mem_flatMap.mp hm
        by_cases hlt : b < 0x80
        · rw [latin1Encode_of_lt hlt, List.mem_singleton] at hmb
          exact hmb ▸ hb
        · obtain ⟨x, y, he, hx, hy⟩ := latin1Encode_of_not_lt hlt
          simp only [he, List.mem_cons, List.not_mem_nil, or_false] at hmb
          rcases hmb with rfl | rfl
          · exact absurd ht hx
          · exact absurd ht hy
      · intro hh
        rcases raw with - | ⟨b, raw⟩
        · cases hh
        · by_cases hlt : b < 0x80
          · simpa [latin1Encode_of_lt hlt] using hh
          · obtain ⟨x, y, he, hx, -⟩ := latin1Encode_of_not_lt hlt
            rw [List.flatMap_cons, he] at hh
            cases hh
            exact absurd ht hx
  | ascii =>
      obtain ⟨-, rfl⟩ := map_const_eq_ok_iff.mp h
      exact ⟨id, id⟩
  | unknown =>
      cases h
      exact ⟨id, id⟩

/-- Only nothing decodes to nothing. -/
theorem ne_nil_of_decode {charset : Charset} {raw text : Bytes}
    (h : charset.decode raw = .ok text) (hr : raw ≠ []) : text ≠ [] := by
  cases charset with
  | utf8 => exact (map_const_eq_ok_iff.mp h).2 ▸ hr
  | latin1 =>
      cases h
      obtain ⟨b, raw, rfl⟩ := List.exists_cons_of_ne_nil hr
      by_cases hlt : b < 0x80
      · simp [latin1Encode_of_lt hlt]
      · obtain ⟨x, y, he, -, -⟩ := latin1Encode_of_not_lt hlt
        simp [he]
  | ascii => exact (map_const_eq_ok_iff.mp h).2 ▸ hr
  | unknown =>
      cases h
      exact hr

/-! ### Decoding and lines -/

theorem lt_of_isTerminator {t : Byte} (ht : Lines.isTerminator t = true) : t < 0x80 := by
  rcases Lines.isTerminator_iff.mp ht with rfl | rfl <;> decide

/-- A line decodes to a line. -/
theorem unbroken_of_decode {charset : Charset} {raw text : Bytes}
    (h : charset.decode raw = .ok text) (hr : Lines.Unbroken raw) : Lines.Unbroken text := by
  intro t ht
  rw [← Bool.not_eq_true]
  intro hl
  have hm := (ascii_of_decode h (lt_of_isTerminator hl)).1 ht
  rw [hr t hm] at hl
  cases hl

/-- **Decoding at what ends a line** comes apart. -/
theorem decode_break {charset : Charset} {line brk rest text : Bytes}
    (hb : Lines.Break brk rest) (h : charset.decode (line ++ brk ++ rest) = .ok text) :
    ∃ a b, charset.decode line = .ok a ∧ charset.decode rest = .ok b ∧ Lines.Break brk b ∧
      text = a ++ brk ++ b := by
  rw [List.append_assoc] at h
  cases hb with
  | lineFeed =>
      obtain ⟨a, b, ha, hb, rfl⟩ := (decode_append charset (by decide)).mp h
      exact ⟨a, b, ha, hb, .lineFeed b, by simp⟩
  | returnLineFeed =>
      obtain ⟨a, b', ha, hb', rfl⟩ := (decode_append charset (by decide)).mp h
      -- the line feed stands at the front of what follows the return
      obtain ⟨c, b, hc, hb, rfl⟩ :=
        (decode_append charset (t := Ascii.lf) (s := []) (by decide)).mp hb'
      obtain rfl : c = [] := by simpa [decode_nil, eq_comm] using hc
      exact ⟨a, b, ha, hb, .returnLineFeed b, by simp⟩
  | ret hr =>
      obtain ⟨a, b, ha, hb, rfl⟩ := (decode_append charset (by decide)).mp h
      have hr' : b.head? ≠ some Ascii.lf :=
        fun hh => hr ((ascii_of_decode hb (by decide)).2 hh)
      exact ⟨a, b, ha, hb, .ret hr', by simp⟩

/-- **Lines decode to the lines of the decoded text.** -/
theorem decode_ofText {charset : Charset} {d text : Bytes} (h : charset.decode d = .ok text) :
    (Lines.ofText d).map charset.decode = (Lines.ofText text).map .ok := by
  induction d using Lines.inductionOn generalizing text with
  | nil =>
      obtain rfl : [] = text := by simpa [decode_nil] using h
      rfl
  | last line hne hl =>
      rw [Lines.ofText_unbroken hl hne,
        Lines.ofText_unbroken (unbroken_of_decode h hl) (ne_nil_of_decode h hne)]
      simp [h]
  | line line brk rest hl hb ih =>
      obtain ⟨a, b, ha, hb', hbrk, rfl⟩ := decode_break hb h
      rw [Lines.ofText_append hl hb, Lines.ofText_append (unbroken_of_decode ha hl) hbrk,
        List.map_cons, List.map_cons, ha, ih hb']

/-! ### Words of ASCII bytes -/

/-- A word of ASCII bytes. -/
def AsciiOnly (word : Bytes) : Prop := ∀ b ∈ word, b < 0x80

instance (word : Bytes) : Decidable (AsciiOnly word) := inferInstanceAs (Decidable (∀ b ∈ word, _))

/-- A word in front stands for itself. -/
theorem decode_word_append {charset : Charset} {word s a : Bytes} (hw : AsciiOnly word)
    (h : charset.decode s = .ok a) : charset.decode (word ++ s) = .ok (word ++ a) := by
  induction word with
  | nil => exact h
  | cons t word ih =>
      obtain ⟨ht, hw⟩ := List.forall_mem_cons.mp hw
      exact (decode_append charset ht (s := [])).mpr ⟨[], word ++ a, decode_nil charset, ih hw, rfl⟩

/-- A word at the end stands for itself. -/
theorem decode_append_word {charset : Charset} {word s a : Bytes} (hw : AsciiOnly word)
    (h : charset.decode s = .ok a) : charset.decode (s ++ word) = .ok (a ++ word) := by
  rcases word with - | ⟨t, word⟩
  · rwa [List.append_nil, List.append_nil]
  · obtain ⟨ht, hw⟩ := List.forall_mem_cons.mp hw
    have hword := decode_word_append hw (decode_nil charset)
    rw [List.append_nil] at hword
    exact (decode_append charset ht).mpr ⟨a, word, h, hword, rfl⟩

/-- A word in front of an ISO-8859-1 text comes from one in front of its bytes. -/
theorem prefix_of_latin1 {word raw : Bytes} (hw : AsciiOnly word)
    (h : word <+: raw.flatMap latin1Encode) : word <+: raw := by
  induction word generalizing raw with
  | nil => exact List.nil_prefix
  | cons t word ih =>
      obtain ⟨ht, hw⟩ := List.forall_mem_cons.mp hw
      rcases raw with - | ⟨b, raw⟩
      · simp at h
      · rw [List.flatMap_cons] at h
        by_cases hb : b < 0x80
        · rw [latin1Encode_of_lt hb, List.singleton_append, List.cons_prefix_cons] at h
          exact List.cons_prefix_cons.mpr ⟨h.1, ih hw h.2⟩
        · obtain ⟨x, y, he, hx, -⟩ := latin1Encode_of_not_lt hb
          rw [he, List.cons_append, List.cons_prefix_cons] at h
          exact absurd (h.1 ▸ ht) hx

/-- A word in an ISO-8859-1 text comes from one in its bytes. -/
theorem infix_of_latin1 {word raw : Bytes} (hw : AsciiOnly word)
    (h : word <:+: raw.flatMap latin1Encode) : word <:+: raw := by
  induction raw with
  | nil => exact h
  | cons b raw ih =>
      have hfront : word <+: (b :: raw).flatMap latin1Encode → word <:+: b :: raw :=
        fun hp => (prefix_of_latin1 hw hp).isInfix
      rw [List.flatMap_cons] at h hfront
      by_cases hb : b < 0x80
      · rw [latin1Encode_of_lt hb, List.singleton_append] at h hfront
        rcases List.infix_cons_iff.mp h with hp | hi
        · exact hfront hp
        · exact (ih hi).trans (List.suffix_cons b raw).isInfix
      · obtain ⟨x, y, he, hx, hy⟩ := latin1Encode_of_not_lt hb
        rw [he, List.cons_append, List.singleton_append] at h hfront
        rcases List.infix_cons_iff.mp h with hp | hi
        · exact hfront hp
        · rcases List.infix_cons_iff.mp hi with hp | hi
          · rcases word with - | ⟨t, word⟩
            · exact List.nil_infix
            · exact absurd ((List.cons_prefix_cons.mp hp).1 ▸ hw t List.mem_cons_self) hy
          · exact (ih hi).trans (List.suffix_cons b raw).isInfix

/-- **A word in a decoded text** is in its bytes. -/
theorem infix_of_decode {charset : Charset} {word raw text : Bytes} (hw : AsciiOnly word)
    (h : charset.decode raw = .ok text) (hi : word <:+: text) : word <:+: raw := by
  cases charset with
  | utf8 => exact (map_const_eq_ok_iff.mp h).2 ▸ hi
  | latin1 =>
      cases h
      exact infix_of_latin1 hw hi
  | ascii => exact (map_const_eq_ok_iff.mp h).2 ▸ hi
  | unknown =>
      cases h
      exact hi

end Charset

end DoctypeProbe
