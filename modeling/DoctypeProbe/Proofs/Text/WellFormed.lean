import DoctypeProbe.Proofs.Text.Utf8

/-!
# Pieces of Well-Formed Texts

An ASCII byte is a character of its own: it is no part of the encoding of another. So a
well-formed text may be cut on either side of an ASCII byte, and both pieces are well formed; and
well-formed pieces can be put together. Cutting anywhere else may split a character.

## Main results

* `Utf8.wellFormed_append_cons`: a text is cut at an ASCII byte.
* `Utf8.WellFormed.nil_or_encode`: where a well-formed text begins, a complete character does.
* `Charset.wellFormed_of_decode`: what is decoded is well formed.
-/

namespace DoctypeProbe

namespace Utf8

variable {s t : Bytes} {b : Byte}

theorem wellFormed_nil : WellFormed [] := ⟨[], rfl⟩

/-- What validation accepts is well formed: there is no faulty sequence behind the text in front
of the first. -/
theorem wellFormed_of_validate (h : validate s = .ok ()) : WellFormed s := by
  obtain ⟨cs, rest, rfl, hrest⟩ := exists_encodeAll_append s
  rcases rest with - | ⟨b, tail⟩
  · exact ⟨cs, List.append_nil _⟩
  · obtain ⟨e, he⟩ := hrest b tail rfl
    rw [validate_faulty he] at h
    cases h

theorem WellFormed.validate (h : WellFormed s) : Utf8.validate s = .ok () := by
  obtain ⟨cs, rfl⟩ := h
  exact validate_encodeAll cs

/-- Well-formed texts can be put together. -/
theorem WellFormed.append (hs : WellFormed s) (ht : WellFormed t) : WellFormed (s ++ t) := by
  obtain ⟨cs, rfl⟩ := hs
  obtain ⟨cs', rfl⟩ := ht
  exact ⟨cs ++ cs', List.flatMap_append.symm⟩

/-- **A text is cut at an ASCII byte**: it is well formed exactly if the pieces on both sides
are. -/
theorem wellFormed_append_cons (hb : b < 0x80) :
    WellFormed (s ++ b :: t) ↔ WellFormed s ∧ WellFormed t := by
  constructor
  · intro h
    obtain ⟨hs, ht⟩ := (validate_append hb s t).mp h.validate
    exact ⟨wellFormed_of_validate hs, wellFormed_of_validate ht⟩
  · rintro ⟨hs, ht⟩
    exact wellFormed_of_validate ((validate_append hb s t).mpr ⟨hs.validate, ht.validate⟩)

/-- The same of an ASCII text in place of the byte. -/
theorem wellFormed_append_ascii {word : Bytes} (hw : Charset.AsciiOnly word)
    (h : WellFormed (s ++ (word ++ t))) (hne : word ≠ []) : WellFormed s ∧ WellFormed t := by
  induction word generalizing s with
  | nil => exact absurd rfl hne
  | cons b word ih =>
      obtain ⟨hb, hword⟩ := List.forall_mem_cons.mp hw
      obtain ⟨hs, hrest⟩ := (wellFormed_append_cons hb).mp h
      rcases word with - | ⟨b', word⟩
      · exact ⟨hs, hrest⟩
      · exact ⟨hs, (ih (s := []) hword hrest (List.cons_ne_nil _ _)).2⟩

/-- **Where a well-formed text begins**, a complete character does, if there is anything. -/
theorem WellFormed.nil_or_encode (h : WellFormed s) :
    s = [] ∨ ∃ c rest, s = encode c ++ rest ∧ WellFormed rest := by
  obtain ⟨cs, rfl⟩ := h
  rcases cs with - | ⟨c, cs⟩
  · exact Or.inl rfl
  · exact Or.inr ⟨c, encodeAll cs, List.flatMap_cons, cs, rfl⟩

end Utf8

namespace Charset

/-- An ASCII text is well formed: each byte is a character. -/
theorem wellFormed_of_asciiOnly {s : Bytes} (h : AsciiOnly s) : Utf8.WellFormed s := by
  induction s with
  | nil => exact Utf8.wellFormed_nil
  | cons b s ih =>
      obtain ⟨hb, hs⟩ := List.forall_mem_cons.mp h
      exact (Utf8.wellFormed_append_cons (s := []) hb).mpr ⟨Utf8.wellFormed_nil, ih hs⟩

/-- **What is decoded is well formed**, in each of the charsets. -/
theorem wellFormed_of_decode {charset : Charset} (hc : charset ≠ .unknown) {raw text : Bytes}
    (h : charset.decode raw = .ok text) : Utf8.WellFormed text := by
  cases charset with
  | utf8 =>
      obtain ⟨hvalid, rfl⟩ := map_const_eq_ok_iff.mp h
      exact Utf8.wellFormed_of_validate hvalid
  | latin1 =>
      cases h
      exact ⟨raw.map Char.ofUInt8, (List.flatMap_map Char.ofUInt8 Utf8.encode raw).symm⟩
  | ascii =>
      obtain ⟨hascii, rfl⟩ := map_const_eq_ok_iff.mp h
      exact wellFormed_of_asciiOnly (asciiFrom_ok_iff.mp hascii)
  | unknown => exact absurd rfl hc

end Charset

end DoctypeProbe
