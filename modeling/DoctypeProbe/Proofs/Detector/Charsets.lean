import DoctypeProbe.Proofs.Detector.Declaration
import DoctypeProbe.Proofs.Text.Utf8

/-!
# Charsets Agree Where They Overlap

The same bytes may be read as different charsets, and the detector may answer differently for
each: it decodes line by line and stops at the first line that decides, so what matters is
whether a line that does not decode comes before that one.

ISO-8859-1 decodes every byte, so there is never such a line, and the mode is that of the
document written out in UTF-8. US-ASCII is the least of the charsets: a line that it decodes
decodes to itself in each of them. So up to its first undecodable line a document is the same
in all charsets, and if the mode is known by then it is the mode in all of them.

## Main results

* `Detector.modeOf_latin1`: ISO-8859-1 is UTF-8 of the transcoded document.
* `Detector.modeOfLines_ascii`: US-ASCII leaves the mode open, or agrees with every charset.
* `Detector.detect_charsets`: the charsets that a document in memory may be read as.
-/

namespace DoctypeProbe

namespace Charset

/-- Bytes of ISO-8859-1, written in UTF-8: each of them is the code point of its value. -/
def transcoded (d : Bytes) : Bytes := Utf8.encodeAll (d.map Char.ofUInt8)

theorem decode_latin1 (d : Bytes) : decode .latin1 d = .ok (transcoded d) := by
  rw [decode, transcoded, Utf8.encodeAll, List.flatMap_map]
  rfl

/-- A transcoded document is valid UTF-8. -/
theorem decode_transcoded (d : Bytes) : decode .utf8 (transcoded d) = .ok (transcoded d) :=
  map_const_eq_ok_iff.mpr ⟨Utf8.validate_encodeAll _, rfl⟩

/-- **ASCII bytes** decode to themselves in every charset. -/
theorem decode_of_asciiOnly (charset : Charset) {raw : Bytes} (h : AsciiOnly raw) :
    charset.decode raw = .ok raw := by
  simpa using decode_word_append h (decode_nil charset)

/-- No others are decoded as US-ASCII. -/
theorem decode_ascii_of_not {raw : Bytes} (h : ¬ AsciiOnly raw) :
    ∃ e, decode .ascii raw = .error e := by
  cases hd : decode .ascii raw with
  | error e => exact ⟨e, rfl⟩
  | ok text => exact absurd (asciiFrom_ok_iff.mp (map_const_eq_ok_iff.mp hd).1) h

end Charset

namespace Detector

open Lines

section

variable [Alphabet]

/-- Only a line that does not decode leaves the mode open. -/
theorem modeOfLines_ne_auto {charset : Charset} {raws : List Bytes}
    (h : ∀ raw ∈ raws, ∃ line, charset.decode raw = .ok line) (inside : Bool) :
    modeOfLines charset inside raws ≠ .auto := by
  induction raws generalizing inside with
  | nil =>
      rw [modeOfLines]
      decide
  | cons raw raws ih =>
      obtain ⟨⟨line, hd⟩, ht⟩ := List.forall_mem_cons.mp h
      cases hf : (finding? inside line).1 with
      | none =>
          rw [modeOfLines_of_none hd hf]
          exact ih ht _
      | some finding =>
          rw [modeOfLines_of_finding hd hf]
          exact finding.mode_ne_auto

/-- **ISO-8859-1** decides what UTF-8 decides of the transcoded document, and decides. -/
theorem modeOf_latin1 (d : Bytes) :
    modeOf .latin1 d = modeOf .utf8 (Charset.transcoded d) ∧ modeOf .latin1 d ≠ .auto := by
  rw [modeOf_of_decode (Charset.decode_latin1 d), modeOf_of_decode (Charset.decode_transcoded d)]
  exact ⟨rfl, modeOfLines_ne_auto (fun line _ => ⟨line, decode_unknown line⟩) false⟩

/-- **US-ASCII** leaves the mode open, or agrees with every charset. Induction on the lines: the
lines before the first that is not ASCII are the same in all charsets. -/
theorem modeOfLines_ascii (charset : Charset) (inside : Bool) (raws : List Bytes) :
    modeOfLines .ascii inside raws = .auto ∨
      modeOfLines .ascii inside raws = modeOfLines charset inside raws := by
  induction raws generalizing inside with
  | nil => exact Or.inr rfl
  | cons raw raws ih =>
      by_cases h : Charset.AsciiOnly raw
      · have hd := fun charset => Charset.decode_of_asciiOnly charset h
        cases hf : (finding? inside raw).1 with
        | none =>
            rw [modeOfLines_of_none (hd .ascii) hf, modeOfLines_of_none (hd charset) hf]
            exact ih _
        | some finding =>
            rw [modeOfLines_of_finding (hd .ascii) hf, modeOfLines_of_finding (hd charset) hf]
            exact Or.inr rfl
      · obtain ⟨e, he⟩ := Charset.decode_ascii_of_not h
        exact Or.inl (by rw [modeOfLines, he])

/-- What is detected of a document in memory that is read as a charset. -/
def detectAs (charset : Charset) (bufferSize : Nat) (d : Bytes) : Except IoError Mode :=
  (detect { charset, bufferSize } ({ rest := d } : MemorySource)).outcome

theorem detectAs_eq (charset : Charset) (bufferSize : Nat) (d : Bytes) :
    detectAs charset bufferSize d = .ok (modeOf charset d) := by
  rw [← firstDecision_eq_modeOf]
  exact detect_memory { charset, bufferSize } d _

/-- **The charsets agree where they overlap**, whatever the sizes of the blocks. ISO-8859-1
decides what UTF-8 decides of the transcoded document; US-ASCII leaves the mode open, or agrees
with both of the others; and it does leave it open where UTF-8 does. -/
theorem detect_charsets (d : Bytes) (n m : Nat) :
    (∃ mode, detectAs .latin1 n d = .ok mode ∧
      detectAs .utf8 m (Charset.transcoded d) = .ok mode ∧ mode ≠ .auto) ∧
    (detectAs .ascii n d = .ok .auto ∨
      (detectAs .ascii n d = detectAs .utf8 m d ∧ detectAs .ascii n d = detectAs .latin1 m d)) ∧
    (detectAs .utf8 n d = .ok .auto → detectAs .ascii m d = .ok .auto) := by
  simp only [detectAs_eq, Except.ok.injEq]
  obtain ⟨hlatin1, hne⟩ := modeOf_latin1 d
  have hascii : ∀ charset, modeOf .ascii d = .auto ∨ modeOf .ascii d = modeOf charset d :=
    fun charset => modeOfLines_ascii charset false (ofText d)
  refine ⟨⟨modeOf .latin1 d, rfl, hlatin1.symm, hne⟩, ?_, fun hauto => ?_⟩
  · rcases hascii .utf8 with h | h
    · exact Or.inl h
    · exact (hascii .latin1).imp id fun h' => ⟨h, h'⟩
  · exact (hascii .utf8).elim id fun h => h.trans hauto

end

/-- A document in ISO-8859-1, with a byte of its own before its document type. -/
def latin1Sample : Bytes := ascii "<!-- caf" ++ [0xE9] ++ ascii " -->\n<!DOCTYPE r>"

theorem detect_latin1Sample :
    detectAs .utf8 1 latin1Sample = .ok .auto ∧ detectAs .ascii 5 latin1Sample = .ok .auto := by
  have h : detectAs .utf8 1 latin1Sample = .ok .auto := by
    rw [detectAs_eq]
    decide +kernel
  exact ⟨h, (detect_charsets latin1Sample 1 5).2.2 h⟩

end Detector

end DoctypeProbe
