import DoctypeProbe.Proofs.Text.Decoding
import Mathlib.Data.List.Basic
import Mathlib.Order.Bounds.Defs
import Mathlib.Tactic.SplitIfs

/-!
# Well-Formed UTF-8

`Utf8.validate` reads characters off the front of a byte string until one is faulty.
`Utf8.WellFormed` says the same format from the writing side: a concatenation of encodings of
scalar values, each in its shortest form. The two are tied together character by character:
`Utf8.scalar` reads every encoding back, whatever follows it, and what it reads is the encoding
of the scalar value that it answers. So a byte string is a well-formed text followed by nothing,
or by a sequence that `scalar` refuses, and validation ends accordingly.

Where a sequence is refused, the well-formed text before it is the longest one in front: a
longer one would make `scalar` accept. The offset of the fault is then that of the lead byte,
unless the sequence is all there and one of its bytes does not continue it.

## Main results

* `Utf8.encode_eq_utf8EncodeChar`: the encoding of a character is that of strings.
* `Utf8.scalar_encode`, `Utf8.exists_encode_of_scalar`: one character, in both directions.
* `Utf8.exists_encodeAll_append`: a byte string up to its first faulty sequence.
* `Utf8.validate_iff_wellFormed`: what is accepted, and where a fault is reported.
-/

namespace DoctypeProbe

namespace Utf8

/-! ### Bytes of a sequence -/

/-- A lead byte announces the length of its sequence by its leading ones. -/
def Announces (lead : Byte) (length : Nat) : Prop :=
  (lead.toNat / 32 = 0b110 ∧ length = 2) ∨ (lead.toNat / 16 = 0b1110 ∧ length = 3) ∨
    (lead.toNat / 8 = 0b11110 ∧ length = 4)

/-- A byte continues a sequence. -/
def Continues (b : Byte) : Prop := b.toNat / 64 = 0b10

theorem isContinuation_iff {b : Byte} : isContinuation b = true ↔ Continues b := by
  simp only [isContinuation, Continues, Bool.and_eq_true, decide_eq_true_eq, UInt8.le_iff_toNat_le,
    UInt8.lt_iff_toNat_lt]
  change 128 ≤ b.toNat ∧ b.toNat < 192 ↔ _
  omega

/-- The shape announced by a byte, by its value. -/
theorem shape?_eq (b : Byte) :
    shape? b =
      if b.toNat < 0x80 then some ⟨0, b.toNat, 0⟩
      else if b.toNat < 0xC0 then none
      else if b.toNat < 0xE0 then some ⟨1, b.toNat - 0xC0, 0x80⟩
      else if b.toNat < 0xF0 then some ⟨2, b.toNat - 0xE0, 0x800⟩
      else if b.toNat < 0xF8 then some ⟨3, b.toNat - 0xF0, 0x10000⟩
      else none := by
  simp only [shape?, UInt8.lt_iff_toNat_lt]
  rfl

/-- **The shapes there are**: a byte of its own, or a lead byte with one to three bytes behind. -/
theorem shape?_cases {b : Byte} {shape : Shape} (h : shape? b = some shape) :
    (b.toNat < 0x80 ∧ shape = ⟨0, b.toNat, 0⟩) ∨
    (0xC0 ≤ b.toNat ∧ b.toNat < 0xE0 ∧ shape = ⟨1, b.toNat - 0xC0, 0x80⟩) ∨
    (0xE0 ≤ b.toNat ∧ b.toNat < 0xF0 ∧ shape = ⟨2, b.toNat - 0xE0, 0x800⟩) ∨
    (0xF0 ≤ b.toNat ∧ b.toNat < 0xF8 ∧ shape = ⟨3, b.toNat - 0xF0, 0x10000⟩) := by
  rw [shape?_eq] at h
  split_ifs at h with h1 h2 h3 h4 h5
  · exact Or.inl ⟨h1, (Option.some.inj h).symm⟩
  · exact Or.inr (Or.inl ⟨by omega, h3, (Option.some.inj h).symm⟩)
  · exact Or.inr (Or.inr (Or.inl ⟨by omega, h4, (Option.some.inj h).symm⟩))
  · exact Or.inr (Or.inr (Or.inr ⟨by omega, h5, (Option.some.inj h).symm⟩))

/-- A shape with bytes behind the lead byte is one that the lead byte announces. -/
theorem announces_of_shape? {b : Byte} {shape : Shape} (h : shape? b = some shape)
    (ht : 0 < shape.trailing) : Announces b (shape.trailing + 1) ∧ shape.trailing ≤ 3 := by
  rcases shape?_cases h with ⟨-, rfl⟩ | ⟨h1, h2, rfl⟩ | ⟨h1, h2, rfl⟩ | ⟨h1, h2, rfl⟩
  · exact absurd ht (Nat.lt_irrefl 0)
  · exact ⟨Or.inl ⟨by omega, rfl⟩, Nat.le_add_left 1 2⟩
  · exact ⟨Or.inr (Or.inl ⟨by omega, rfl⟩), Nat.le_add_left 2 1⟩
  · exact ⟨Or.inr (Or.inr ⟨by omega, rfl⟩), Nat.le_refl 3⟩

/-- A length that a lead byte announces is that of a shape. -/
theorem exists_shape?_of_announces {b : Byte} {length : Nat} (h : Announces b length) :
    ∃ shape, shape? b = some shape ∧ shape.trailing + 1 = length := by
  rw [shape?_eq]
  rcases h with ⟨h, rfl⟩ | ⟨h, rfl⟩ | ⟨h, rfl⟩
  · rw [if_neg (by omega), if_neg (by omega), if_pos (by omega)]
    exact ⟨_, rfl, rfl⟩
  · rw [if_neg (by omega), if_neg (by omega), if_neg (by omega), if_pos (by omega)]
    exact ⟨_, rfl, rfl⟩
  · rw [if_neg (by omega), if_neg (by omega), if_neg (by omega), if_neg (by omega),
      if_pos (by omega)]
    exact ⟨_, rfl, rfl⟩

/-! ### Continuation bytes -/

/-- Six bits more for each continuation byte. -/
def assemble (bits : Nat) (trail : Bytes) : Nat :=
  trail.foldl (fun code b => code * 64 + (b.toNat - 0x80)) bits

/-- A trail of continuation bytes gives the code point assembled from it. -/
theorem continueWith_of_continues {trail : Bytes} (h : ∀ b ∈ trail, Continues b)
    (index bits : Nat) : continueWith index bits trail = .ok (assemble bits trail) := by
  induction trail generalizing index bits with
  | nil => rfl
  | cons b trail ih =>
      obtain ⟨hb, ht⟩ := List.forall_mem_cons.mp h
      rw [continueWith, if_pos (isContinuation_iff.mpr hb), ih ht, assemble, assemble,
        List.foldl_cons]

/-- The first byte that does not continue a sequence is reported. -/
theorem continueWith_of_not_continues {trail after : Bytes} {x : Byte}
    (h : ∀ b ∈ trail, Continues b) (hx : ¬ Continues x) (index bits : Nat) :
    continueWith index bits (trail ++ x :: after) =
      .error ⟨.continuation, index + trail.length⟩ := by
  induction trail generalizing index bits with
  | nil =>
      rw [List.nil_append, continueWith, if_neg fun hc => hx (isContinuation_iff.mp hc),
        List.length_nil, Nat.add_zero]
  | cons b trail ih =>
      obtain ⟨hb, ht⟩ := List.forall_mem_cons.mp h
      rw [List.cons_append, continueWith, if_pos (isContinuation_iff.mpr hb), ih ht,
        List.length_cons, Nat.add_assoc, Nat.add_comm 1]

/-- A byte string continues a sequence, or has a first byte that does not. -/
theorem continues_or_not (s : Bytes) :
    (∀ b ∈ s, Continues b) ∨
      ∃ trail x after, s = trail ++ x :: after ∧ (∀ b ∈ trail, Continues b) ∧ ¬ Continues x := by
  induction s with
  | nil => exact Or.inl (List.forall_mem_nil _)
  | cons b s ih =>
      by_cases hb : Continues b
      · rcases ih with h | ⟨trail, x, after, rfl, h, hx⟩
        · exact Or.inl (List.forall_mem_cons.mpr ⟨hb, h⟩)
        · exact Or.inr ⟨b :: trail, x, after, rfl, List.forall_mem_cons.mpr ⟨hb, h⟩, hx⟩
      · exact Or.inr ⟨[], b, s, rfl, List.forall_mem_nil _, hb⟩

/-- There is one first byte that does not continue a sequence. -/
theorem trail_unique {trail trail' more more' : Bytes} {x x' : Byte}
    (h : trail ++ x :: more = trail' ++ x' :: more') (hc : ∀ b ∈ trail, Continues b)
    (hc' : ∀ b ∈ trail', Continues b) (hx : ¬ Continues x) (hx' : ¬ Continues x') :
    trail = trail' := by
  induction trail generalizing trail' with
  | nil =>
      rcases trail' with - | ⟨b, trail'⟩
      · rfl
      · exact absurd ((List.cons.inj h).1 ▸ hc' b List.mem_cons_self) hx
  | cons b trail ih =>
      rcases trail' with - | ⟨b', trail'⟩
      · exact absurd ((List.cons.inj h).1 ▸ hc b List.mem_cons_self) hx'
      · obtain ⟨rfl, ht⟩ := List.cons.inj h
        rw [ih ht (List.forall_mem_cons.mp hc).2 (List.forall_mem_cons.mp hc').2]

/-! ### One character -/

/-- How a character is decoded if its lead byte announces a shape and a trail of that length
follows. -/
theorem scalar_of_trail {b : Byte} {shape : Shape} (hs : shape? b = some shape) {trail : Bytes}
    (hl : trail.length = shape.trailing) (rest : Bytes) :
    scalar b (trail ++ rest) = (continueWith 1 shape.bits trail).bind fun code =>
      if code < shape.least then .error ⟨.overlong, 0⟩
      else if code.isValidChar then .ok (code, shape.trailing)
      else .error ⟨.codePoint, 0⟩ := by
  have htake : (trail ++ rest).take shape.trailing = trail := List.take_left' hl
  simp only [scalar, hs, htake, hl, Nat.lt_irrefl, if_false]
  rfl

/-- What decoding a character can do.

* `accepted`: a trail of continuation bytes makes up a scalar value in its shortest form.
* `interrupted`: the sequence is all there, and is refused at the first of its bytes that does
  not continue it.
* `refused`: the sequence is refused at its lead byte; if it is all there, its other bytes
  continue it. -/
inductive Decodes (b : Byte) (rest : Bytes) : Except DecodingError (Nat × Nat) → Prop
  | accepted {shape : Shape} {trail more : Bytes} :
      shape? b = some shape → rest = trail ++ more → trail.length = shape.trailing →
      (∀ x ∈ trail, Continues x) → shape.least ≤ assemble shape.bits trail →
      (assemble shape.bits trail).isValidChar →
      Decodes b rest (.ok (assemble shape.bits trail, shape.trailing))
  | interrupted {shape : Shape} {trail more : Bytes} {x : Byte} :
      shape? b = some shape → rest = trail ++ x :: more → (∀ y ∈ trail, Continues y) →
      ¬ Continues x → trail.length < shape.trailing → shape.trailing ≤ rest.length →
      Decodes b rest (.error ⟨.continuation, 1 + trail.length⟩)
  | refused (fault : DecodingFault) :
      (∀ shape, shape? b = some shape → shape.trailing ≤ rest.length →
        ∀ x ∈ rest.take shape.trailing, Continues x) →
      Decodes b rest (.error ⟨fault, 0⟩)

/-- A sequence that is all there is accepted, interrupted, or refused for what it makes up. -/
theorem decodes_of_length {b : Byte} {shape : Shape} (hs : shape? b = some shape)
    {sequence : Bytes} (hl : sequence.length = shape.trailing) (more : Bytes) :
    Decodes b (sequence ++ more) (scalar b (sequence ++ more)) := by
  rw [scalar_of_trail hs hl]
  rcases continues_or_not sequence with hc | ⟨trail, x, after, rfl, hc, hx⟩
  · have hall : ∀ shape', shape? b = some shape' → shape'.trailing ≤ (sequence ++ more).length →
        ∀ x ∈ (sequence ++ more).take shape'.trailing, Continues x := by
      intro shape' hs' _
      obtain rfl := Option.some.inj (hs.symm.trans hs')
      rwa [List.take_left' hl]
    rw [continueWith_of_continues hc, Except.bind]
    split_ifs with hleast hv
    · exact .refused _ hall
    · exact .accepted hs rfl hl hc (Nat.le_of_not_lt hleast) hv
    · exact .refused _ hall
  · rw [continueWith_of_not_continues hc hx]
    rw [List.length_append, List.length_cons] at hl
    refine .interrupted hs (List.append_assoc trail _ more) hc hx (by omega) ?_
    simp only [List.length_append, List.length_cons]
    omega

/-- **What decoding a character does.** -/
theorem decodes_scalar (b : Byte) (rest : Bytes) : Decodes b rest (scalar b rest) := by
  cases hs : shape? b with
  | none =>
      have hlead : scalar b rest = .error ⟨.lead, 0⟩ := by simp only [scalar, hs]
      refine hlead ▸ .refused _ fun shape hs' => ?_
      rw [hs] at hs'
      cases hs'
  | some shape =>
      by_cases hl : shape.trailing ≤ rest.length
      · have h := decodes_of_length hs (List.length_take_of_le hl) (rest.drop shape.trailing)
        rwa [List.take_append_drop] at h
      · have hshort : scalar b rest = .error ⟨.truncated, 0⟩ := by
          simp only [scalar, hs]
          exact if_pos (by rw [List.length_take]; omega)
        refine hshort ▸ .refused _ fun shape' hs' hl' => absurd hl' ?_
        rwa [← Option.some.inj (hs.symm.trans hs')]

/-! ### Encodings -/

theorem toNat_lt (c : Char) : c.toNat < 0x110000 := by
  have hv : c.toNat.isValidChar := c.valid
  rcases hv with h | ⟨-, h⟩ <;> omega

/-- **The encoding of a character** is the one that strings are kept in. -/
theorem encode_eq_utf8EncodeChar (c : Char) : encode c = String.utf8EncodeChar c := by
  have hlt := toNat_lt c
  have hv : c.val.toNat = c.toNat := rfl
  simp only [encode, String.utf8EncodeChar, hv]
  by_cases h1 : c.toNat < 0x80
  · rw [if_pos h1, if_pos (by omega : c.toNat ≤ 127)]
  · rw [if_neg h1, if_neg (by omega : ¬ c.toNat ≤ 127)]
    by_cases h2 : c.toNat < 0x800
    · rw [if_pos h2, if_pos (by omega : c.toNat ≤ 2047),
        Nat.mod_eq_of_lt (by omega : c.toNat / 64 < 32), Nat.add_comm 0xC0, Nat.add_comm 0x80]
    · rw [if_neg h2, if_neg (by omega : ¬ c.toNat ≤ 2047)]
      by_cases h3 : c.toNat < 0x10000
      · rw [if_pos h3, if_pos (by omega : c.toNat ≤ 65535),
          Nat.mod_eq_of_lt (by omega : c.toNat / 4096 < 16), Nat.add_comm 0xE0, Nat.add_comm 0x80,
          Nat.add_comm 0x80]
      · rw [if_neg h3, if_neg (by omega : ¬ c.toNat ≤ 65535),
          Nat.mod_eq_of_lt (by omega : c.toNat / 262144 < 8), Nat.add_comm 0xF0,
          Nat.add_comm 0x80, Nat.add_comm 0x80, Nat.add_comm 0x80]

theorem toNat_ofNat {n : Nat} (h : n < 256) : (UInt8.ofNat n).toNat = n :=
  UInt8.toNat_ofNat_of_lt' h

/-- A byte with the bits `10` in front continues a sequence with its other six bits. -/
theorem continues_ofNat {n : Nat} (h : n < 64) :
    Continues (UInt8.ofNat (0x80 + n)) ∧ (UInt8.ofNat (0x80 + n)).toNat - 0x80 = n := by
  rw [Continues, toNat_ofNat (by omega)]
  omega

/-- **An encoding is read back**, whatever follows it. -/
theorem scalar_encode (c : Char) (rest : Bytes) : ∃ b trail, encode c = b :: trail ∧
    scalar b (trail ++ rest) = .ok (c.toNat, trail.length) := by
  have hv : c.toNat.isValidChar := c.valid
  have hlt := toNat_lt c
  have hread : ∀ (shape : Shape) {b : Byte} {trail : Bytes}, shape? b = some shape →
      trail.length = shape.trailing → (∀ x ∈ trail, Continues x) →
      assemble shape.bits trail = c.toNat → shape.least ≤ c.toNat →
      scalar b (trail ++ rest) = .ok (c.toNat, trail.length) := by
    intro shape b trail hs hl hc hcode hleast
    rw [scalar_of_trail hs hl, continueWith_of_continues hc, hcode, Except.bind,
      if_neg (Nat.not_lt.mpr hleast), if_pos hv, hl]
  obtain ⟨low, hlow⟩ := continues_ofNat (Nat.mod_lt c.toNat (by decide : 64 > 0))
  obtain ⟨middle, hmiddle⟩ := continues_ofNat (Nat.mod_lt (c.toNat / 64) (by decide : 64 > 0))
  obtain ⟨high, hhigh⟩ := continues_ofNat (Nat.mod_lt (c.toNat / 4096) (by decide : 64 > 0))
  have htrail := List.forall_mem_cons.mpr ⟨low, List.forall_mem_nil _⟩
  have htrail' := List.forall_mem_cons.mpr ⟨middle, htrail⟩
  simp only [encode]
  split_ifs with h1 h2 h3
  · refine ⟨_, _, rfl, hread ⟨0, c.toNat, 0⟩ ?_ rfl (List.forall_mem_nil _) rfl ?_⟩
    · rw [shape?_eq, toNat_ofNat (by omega), if_pos h1]
    · exact Nat.zero_le _
  · refine ⟨_, _, rfl, hread ⟨1, c.toNat / 64, 0x80⟩ ?_ rfl htrail ?_ ?_⟩
    · rw [shape?_eq, toNat_ofNat (by omega), if_neg (by omega), if_neg (by omega),
        if_pos (by omega), Nat.add_sub_cancel_left]
    · simp only [assemble, List.foldl_cons, List.foldl_nil, hlow]
      omega
    · exact Nat.le_of_not_lt h1
  · refine ⟨_, _, rfl, hread ⟨2, c.toNat / 4096, 0x800⟩ ?_ rfl htrail' ?_ ?_⟩
    · rw [shape?_eq, toNat_ofNat (by omega), if_neg (by omega), if_neg (by omega),
        if_neg (by omega), if_pos (by omega), Nat.add_sub_cancel_left]
    · simp only [assemble, List.foldl_cons, List.foldl_nil, hlow, hmiddle]
      omega
    · exact Nat.le_of_not_lt h2
  · refine ⟨_, _, rfl, hread ⟨3, c.toNat / 262144, 0x10000⟩ ?_ rfl
      (List.forall_mem_cons.mpr ⟨high, htrail'⟩) ?_ ?_⟩
    · rw [shape?_eq, toNat_ofNat (by omega), if_neg (by omega), if_neg (by omega),
        if_neg (by omega), if_neg (by omega), if_pos (by omega), Nat.add_sub_cancel_left]
    · simp only [assemble, List.foldl_cons, List.foldl_nil, hlow, hmiddle, hhigh]
      omega
    · exact Nat.le_of_not_lt h3

/-- The scalar value of a code point. -/
theorem exists_char {n : Nat} (h : n.isValidChar) : ∃ c : Char, c.toNat = n :=
  ⟨Char.ofNatAux n h, rfl⟩

theorem ofNat_eq {n : Nat} {b : Byte} (h : b.toNat = n) : UInt8.ofNat n = b :=
  h ▸ UInt8.ofNat_toNat

/-- What a shape and a trail of continuation bytes make up is encoded by them. -/
theorem encode_of_assemble {b : Byte} {shape : Shape} {trail : Bytes} {c : Char}
    (hs : shape? b = some shape) (hl : trail.length = shape.trailing)
    (hc : ∀ x ∈ trail, Continues x) (hleast : shape.least ≤ c.toNat)
    (hcode : c.toNat = assemble shape.bits trail) : encode c = b :: trail := by
  rcases shape?_cases hs with ⟨h, rfl⟩ | ⟨h, h', rfl⟩ | ⟨h, h', rfl⟩ | ⟨h, h', rfl⟩
  · obtain rfl := List.length_eq_zero_iff.mp hl
    simp only [assemble, List.foldl_nil] at hcode
    rw [encode, hcode, if_pos h, UInt8.ofNat_toNat]
  · obtain ⟨x, rfl⟩ := List.length_eq_one_iff.mp hl
    simp only [List.forall_mem_singleton, Continues] at hc
    simp only [assemble, List.foldl_cons, List.foldl_nil] at hcode hleast
    rw [encode, if_neg (by omega), if_pos (by omega), ofNat_eq (b := b) (by omega),
      ofNat_eq (b := x) (by omega)]
  · obtain ⟨x, y, rfl⟩ := List.length_eq_two.mp hl
    simp only [List.forall_mem_cons, Continues] at hc
    simp only [assemble, List.foldl_cons, List.foldl_nil] at hcode hleast
    rw [encode, if_neg (by omega), if_neg (by omega), if_pos (by omega),
      ofNat_eq (b := b) (by omega), ofNat_eq (b := x) (by omega), ofNat_eq (b := y) (by omega)]
  · obtain ⟨x, y, z, rfl⟩ := List.length_eq_three.mp hl
    simp only [List.forall_mem_cons, Continues] at hc
    simp only [assemble, List.foldl_cons, List.foldl_nil] at hcode hleast
    rw [encode, if_neg (by omega), if_neg (by omega), if_neg (by omega),
      ofNat_eq (b := b) (by omega), ofNat_eq (b := x) (by omega), ofNat_eq (b := y) (by omega),
      ofNat_eq (b := z) (by omega)]

/-- **What is read is an encoding.** -/
theorem exists_encode_of_scalar {b : Byte} {rest : Bytes} {code k : Nat}
    (h : scalar b rest = .ok (code, k)) :
    ∃ c more, b :: rest = encode c ++ more ∧ (encode c).length = k + 1 := by
  have hd := decodes_scalar b rest
  rw [h] at hd
  cases hd with
  | @accepted shape trail more hs hrest hl hc hleast hv =>
      obtain ⟨c, hcode⟩ := exists_char hv
      have he := encode_of_assemble hs hl hc (hcode ▸ hleast) hcode
      exact ⟨c, more, by rw [he, hrest, List.cons_append], by rw [he, List.length_cons, hl]⟩

/-! ### Validation -/

/-- An encoding in front is passed over. -/
theorem validateFrom_encode_append (o : Nat) (c : Char) (s : Bytes) :
    validateFrom o (encode c ++ s) = validateFrom (o + (encode c).length) s := by
  obtain ⟨b, trail, he, hs⟩ := scalar_encode c s
  rw [he, List.cons_append, validateFrom, hs]
  simp only [List.drop_left, List.length_cons, Nat.add_assoc, Nat.add_comm 1]

/-- A well-formed text in front is passed over. -/
theorem validateFrom_encodeAll_append (o : Nat) (cs : List Char) (s : Bytes) :
    validateFrom o (encodeAll cs ++ s) = validateFrom (o + (encodeAll cs).length) s := by
  induction cs generalizing o with
  | nil => rfl
  | cons c cs ih =>
      rw [encodeAll, List.flatMap_cons, List.append_assoc, validateFrom_encode_append]
      exact (ih _).trans (by rw [List.length_append, Nat.add_assoc]; rfl)

/-- **A byte string up to its first faulty sequence** is a well-formed text. -/
theorem exists_encodeAll_append (s : Bytes) : ∃ cs rest, s = encodeAll cs ++ rest ∧
    ∀ b tail, rest = b :: tail → ∃ e, scalar b tail = .error e := by
  cases s with
  | nil => exact ⟨[], [], rfl, fun _ _ h => nomatch h⟩
  | cons b tail =>
      cases hread : scalar b tail with
      | error e =>
          refine ⟨[], b :: tail, rfl, fun b' tail' h => ?_⟩
          cases h
          exact ⟨e, hread⟩
      | ok read =>
          obtain ⟨c, more, hs, hl⟩ := exists_encode_of_scalar (k := read.2) hread
          obtain ⟨cs, rest, hmore, hrest⟩ := exists_encodeAll_append more
          refine ⟨c :: cs, rest, ?_, hrest⟩
          rw [hs, hmore, encodeAll, encodeAll, List.flatMap_cons, List.append_assoc]
termination_by s.length
decreasing_by
  have h := congrArg List.length hs
  rw [List.length_append] at h
  simp only [h]
  omega

/-- How validation ends on a well-formed text and what follows it. -/
theorem validate_encodeAll_append (cs : List Char) (s : Bytes) :
    validate (encodeAll cs ++ s) = validateFrom (encodeAll cs).length s := by
  rw [validate, validateFrom_encodeAll_append, Nat.zero_add]

theorem validate_encodeAll (cs : List Char) : validate (encodeAll cs) = .ok () := by
  have h := validate_encodeAll_append cs []
  rwa [List.append_nil, validateFrom] at h

/-- **A faulty sequence** ends validation, with its offset behind the text in front. -/
theorem validate_faulty {cs : List Char} {b : Byte} {tail : Bytes} {e : DecodingError}
    (h : scalar b tail = .error e) : validate (encodeAll cs ++ b :: tail) =
      .error ⟨e.fault, (encodeAll cs).length + e.offset⟩ := by
  rw [validate_encodeAll_append, validateFrom, h]

/-- A well-formed text in front of a faulty sequence is the longest there is in front: a longer
one would have the sequence, or more than all of it, decoded. -/
theorem length_le_of_faulty {cs : List Char} {b : Byte} {tail front back : Bytes}
    {e : DecodingError} (h : scalar b tail = .error e)
    (hs : encodeAll cs ++ b :: tail = front ++ back) (hw : WellFormed front) :
    front.length ≤ (encodeAll cs).length := by
  obtain ⟨cs', rfl⟩ := hw
  rcases List.append_eq_append_iff.mp hs with ⟨z, hz, hrest⟩ | ⟨z, hz, -⟩
  · rcases z with - | ⟨c, z⟩
    · exact Nat.le_of_eq (by rw [hz, List.append_nil])
    · obtain ⟨rfl, rfl⟩ : b = c ∧ tail = z ++ back := List.cons.inj hrest
      have hvalid := validate_encodeAll cs'
      cases hread : scalar b z with
      | error e' =>
          rw [hz, validate_faulty hread] at hvalid
          cases hvalid
      | ok read =>
          rw [(scalar_append (k := read.2) hread back).1] at h
          cases h
  · rw [hz, List.length_append]
    omega

/-- The length of the longest well-formed text in front of a byte string. -/
def LongestWellFormed (s : Bytes) (n : Nat) : Prop :=
  IsGreatest {m | m ≤ s.length ∧ WellFormed (s.take m)} n

/-- The sequence whose lead byte is at `start` is all there, and `o` is the offset of its first
byte that does not continue it. -/
def InterruptedAt (s : Bytes) (start o : Nat) : Prop :=
  ∃ lead length, s[start]? = some lead ∧ Announces lead length ∧ start + length ≤ s.length ∧
    start < o ∧ o < start + length ∧ (∃ x, s[o]? = some x ∧ ¬ Continues x) ∧
    ∀ i, start < i → i < o → ∃ x, s[i]? = some x ∧ Continues x

/-- The same of a sequence that is taken apart into its lead byte and the bytes behind. -/
theorem interruptedAt_iff {front tail : Bytes} {b : Byte} {o : Nat} :
    InterruptedAt (front ++ b :: tail) front.length o ↔
      ∃ length trail x more, Announces b length ∧ tail = trail ++ x :: more ∧
        length ≤ tail.length + 1 ∧ trail.length + 1 < length ∧ (∀ y ∈ trail, Continues y) ∧
        ¬ Continues x ∧ o = front.length + (1 + trail.length) := by
  have hlead : (front ++ b :: tail)[front.length]? = some b := by simp
  have hbehind : ∀ j, (front ++ b :: tail)[front.length + (1 + j)]? = tail[j]? := by
    intro j
    rw [List.getElem?_append_right (Nat.le_add_right _ _), Nat.add_sub_cancel_left, Nat.add_comm 1,
      List.getElem?_cons_succ]
  have hlen : (front ++ b :: tail).length = front.length + (tail.length + 1) := by
    rw [List.length_append, List.length_cons]
  constructor
  · rintro ⟨lead, length, hl, ha, hfits, hlo, hhi, ⟨x, hx, hn⟩, hc⟩
    obtain rfl : b = lead := Option.some.inj (hlead.symm.trans hl)
    obtain ⟨j, rfl⟩ : ∃ j, o = front.length + (1 + j) := ⟨o - front.length - 1, by omega⟩
    rw [hbehind] at hx
    obtain ⟨hj, rfl⟩ := List.getElem?_eq_some_iff.mp hx
    refine ⟨length, tail.take j, tail[j], tail.drop (j + 1), ha, ?_, by omega, ?_, ?_, hn, ?_⟩
    · rw [← List.drop_eq_getElem_cons, List.take_append_drop]
    · rw [List.length_take_of_le (by omega)]
      omega
    · intro y hy
      obtain ⟨i, hi, rfl⟩ := List.mem_take_iff_getElem.mp hy
      obtain ⟨z, hz, hcz⟩ := hc (front.length + (1 + i)) (by omega) (by omega)
      rw [hbehind, List.getElem?_eq_getElem (by omega)] at hz
      exact Option.some.inj hz ▸ hcz
    · rw [List.length_take_of_le (by omega)]
  · rintro ⟨length, trail, x, more, ha, rfl, hfits, hlt, hc, hn, rfl⟩
    refine ⟨b, length, hlead, ha, by omega, by omega, by omega, ⟨x, ?_, hn⟩, fun i hlo hhi => ?_⟩
    · rw [hbehind]
      simp
    · obtain ⟨j, rfl⟩ : ∃ j, i = front.length + (1 + j) := ⟨i - front.length - 1, by omega⟩
      have hj : j < trail.length := by omega
      refine ⟨trail[j], ?_, hc _ (List.getElem_mem hj)⟩
      rw [hbehind, List.getElem?_append_left hj, List.getElem?_eq_getElem hj]

/-- **Where a faulty sequence is reported**, counted from its lead byte: there, or at the first
byte that does not continue a sequence which is all there. -/
theorem offset_of_faulty (front : Bytes) {tail : Bytes} {b : Byte} {e : DecodingError}
    (h : scalar b tail = .error e) :
    e.offset ≤ 3 ∧ e.offset ≤ tail.length ∧ ∀ o, InterruptedAt (front ++ b :: tail) front.length o ↔
      0 < e.offset ∧ o = front.length + e.offset := by
  have hd := decodes_scalar b tail
  rw [h] at hd
  cases hd with
  | refused fault hall =>
      refine ⟨Nat.zero_le 3, Nat.zero_le _, fun o => ⟨fun ho => ?_, fun ho => nomatch ho.1⟩⟩
      obtain ⟨length, trail, x, more, ha, rfl, hfits, hlt, -, hn, -⟩ := interruptedAt_iff.mp ho
      obtain ⟨shape, hs, rfl⟩ := exists_shape?_of_announces ha
      refine absurd (hall shape hs (by omega) x ?_) hn
      refine List.mem_take_iff_getElem.mpr ⟨trail.length, ?_, by simp⟩
      simp only [List.length_append, List.length_cons] at hfits ⊢
      omega
  | @interrupted shape trail more x hs hrest hc hx hlt hle =>
      obtain ⟨ha, htrailing⟩ := announces_of_shape? hs (by omega)
      subst hrest
      refine ⟨?_, ?_, fun o => ?_⟩
      · change 1 + trail.length ≤ 3
        omega
      · change 1 + trail.length ≤ _
        rw [List.length_append, List.length_cons]
        omega
      · rw [interruptedAt_iff]
        constructor
        · rintro ⟨-, trail', x', more', -, htail, -, -, hc', hx', rfl⟩
          rw [trail_unique htail hc hc' hx hx']
          exact ⟨Nat.add_pos_left Nat.one_pos _, rfl⟩
        · rintro ⟨-, rfl⟩
          exact ⟨_, trail, x, more, ha, rfl, by omega, by omega, hc, hx, rfl⟩

/-- **Validation accepts exactly well-formed UTF-8.** A fault is reported at the end of the
longest well-formed text in front, where there is a lead byte; or at one of the next three bytes,
if that is the first which does not continue a sequence that is all there. -/
theorem validate_iff_wellFormed (s : Bytes) :
    (validate s = .ok () ↔ WellFormed s) ∧
    ∀ e, validate s = .error e → ∃ n, LongestWellFormed s n ∧ e.offset < s.length ∧
      n ≤ e.offset ∧ e.offset ≤ n + 3 ∧
      ∀ o, InterruptedAt s n o ↔ n < e.offset ∧ o = e.offset := by
  obtain ⟨cs, rest, rfl, hrest⟩ := exists_encodeAll_append s
  rcases rest with - | ⟨b, tail⟩
  · rw [List.append_nil, validate_encodeAll]
    exact ⟨⟨fun _ => ⟨cs, rfl⟩, fun _ => rfl⟩, fun e he => nomatch he⟩
  · obtain ⟨e, he⟩ := hrest b tail rfl
    obtain ⟨hthree, hlen, ho⟩ := offset_of_faulty (encodeAll cs) he
    have hlongest : ∀ {front back}, encodeAll cs ++ b :: tail = front ++ back → WellFormed front →
        front.length ≤ (encodeAll cs).length := length_le_of_faulty he
    rw [validate_faulty he]
    refine ⟨⟨fun h => (nomatch h), fun hw => ?_⟩, ?_⟩
    · -- the whole would be longer than the text in front
      have hle := hlongest (List.append_nil _).symm hw
      rw [List.length_append, List.length_cons] at hle
      omega
    · intro e' he'
      have hoffset : e'.offset = (encodeAll cs).length + e.offset := by
        cases he'
        rfl
      refine ⟨(encodeAll cs).length, ⟨⟨?_, cs, List.take_left' rfl⟩, ?_⟩, ?_, ?_, ?_, fun o => ?_⟩
      · rw [List.length_append]
        omega
      · rintro m ⟨hm, hw⟩
        have hle := hlongest (List.take_append_drop m _).symm hw
        rwa [List.length_take_of_le hm] at hle
      · rw [List.length_append, List.length_cons]
        omega
      · omega
      · omega
      · rw [ho, ← hoffset]
        refine and_congr_left fun _ => ?_
        omega

/-- A letter, and a lead byte that announces three bytes, the last of which is a letter again. -/
def interruptedSample : Bytes := [0x61, 0xE4, 0xB8, 0x41]

theorem validate_interruptedSample :
    validate interruptedSample = .error ⟨.continuation, 3⟩ ∧
    ∃ n, LongestWellFormed interruptedSample n ∧ 3 < interruptedSample.length ∧ n ≤ 3 ∧ 3 ≤ n + 3 ∧
      ∀ o, InterruptedAt interruptedSample n o ↔ n < 3 ∧ o = 3 := by
  have he : validate interruptedSample = .error ⟨.continuation, 3⟩ := by decide +kernel
  exact ⟨he, (validate_iff_wellFormed interruptedSample).2 _ he⟩

end Utf8

end DoctypeProbe
