import DoctypeProbe.Proofs.Text.Calls
import DoctypeProbe.Proofs.Text.Utf8

/-!
# Decoding a Document

A reader never has a document as a whole: it cuts raw bytes into lines and decodes each line for
itself. A caller who holds the document can decode it in one piece, and cut the decoded text
afterwards. The two come to the same, for what ends a line is ASCII: no encoding of another
character has such a byte in it, and none of the decoders makes one. So a document decodes
exactly if its lines do, and its lines are then those of the decoded document.

The direction from the document to its lines is `Charset.decode_ofText`. The other is by
induction along the lines: the decoded lines are put together again, with the terminators
between them that the raw lines had.

## Main results

* `Utf8.encodeAll_injective`: a text has one encoding, and an encoding has one text.
* `Charset.exists_decode_iff`: a document decodes exactly if each of its lines does.
* `LineReader.decode_iff_outcome_ok`: a reader's outcomes against the decoded document.
-/

namespace DoctypeProbe

/-! ### Texts and their encodings -/

namespace Utf8

/-- The first character of an encoded text can be told from its bytes, and so can the bytes
behind it. -/
theorem encode_append_inj {c c' : Char} {s s' : Bytes} (h : encode c ++ s = encode c' ++ s') :
    c = c' ∧ s = s' := by
  obtain ⟨b, trail, he, hs⟩ := scalar_encode c s
  obtain ⟨b', trail', he', hs'⟩ := scalar_encode c' s'
  rw [he, he', List.cons_append, List.cons_append] at h
  obtain ⟨rfl, htrail⟩ := List.cons.inj h
  rw [htrail, hs'] at hs
  obtain ⟨hc, hl⟩ := Prod.mk.inj (Except.ok.inj hs)
  exact ⟨Char.toNat_inj.mp hc.symm, (List.append_inj htrail hl.symm).2⟩

/-- **A text can be told from its encoding.** -/
theorem encodeAll_injective : Function.Injective encodeAll := by
  intro cs cs' h
  induction cs generalizing cs' with
  | nil =>
      rcases cs' with - | ⟨c', cs'⟩
      · rfl
      · obtain ⟨b, trail, he, -⟩ := scalar_encode c' []
        simp [encodeAll, he] at h
  | cons c cs ih =>
      rcases cs' with - | ⟨c', cs'⟩
      · obtain ⟨b, trail, he, -⟩ := scalar_encode c []
        simp [encodeAll, he] at h
      · rw [encodeAll, encodeAll, List.flatMap_cons, List.flatMap_cons] at h
        obtain ⟨rfl, hrest⟩ := encode_append_inj h
        rw [ih hrest]

end Utf8

namespace Charset

/-! ### A document and its lines -/

/-- **What ends a line** stands between two texts that decode. -/
theorem decode_append_break {charset : Charset} {line brk rest a b : Bytes}
    (hb : Lines.Break brk rest) (ha : charset.decode line = .ok a)
    (hrest : charset.decode rest = .ok b) :
    charset.decode (line ++ brk ++ rest) = .ok (a ++ brk ++ b) := by
  rw [List.append_assoc, List.append_assoc]
  cases hb with
  | lineFeed => exact (decode_append charset (by decide)).mpr ⟨a, b, ha, hrest, rfl⟩
  | returnLineFeed =>
      -- the line feed is a word in front of what follows the return
      have hlf : Charset.AsciiOnly [Ascii.lf] := List.forall_mem_singleton.mpr (by decide)
      exact (decode_append charset (by decide)).mpr
        ⟨a, Ascii.lf :: b, ha, decode_word_append hlf hrest, rfl⟩
  | ret => exact (decode_append charset (by decide)).mpr ⟨a, b, ha, hrest, rfl⟩

/-- **A document decodes exactly if each of its lines does.** -/
theorem exists_decode_iff (charset : Charset) (d : Bytes) :
    (∃ text, charset.decode d = .ok text) ↔
      ∀ raw ∈ Lines.ofText d, ∃ line, charset.decode raw = .ok line := by
  constructor
  · rintro ⟨text, h⟩ raw hraw
    have hmem := List.mem_map_of_mem (f := charset.decode) hraw
    rw [decode_ofText h] at hmem
    obtain ⟨line, -, hline⟩ := List.mem_map.mp hmem
    exact ⟨line, hline.symm⟩
  · induction d using Lines.inductionOn with
    | nil => exact fun _ => ⟨[], decode_nil charset⟩
    | last line hne hl =>
        rw [Lines.ofText_unbroken hl hne]
        exact fun h => h line List.mem_cons_self
    | line line brk rest hl hb ih =>
        rw [Lines.ofText_append hl hb, List.forall_mem_cons]
        rintro ⟨⟨a, ha⟩, hrest⟩
        obtain ⟨b, hb'⟩ := ih hrest
        exact ⟨a ++ brk ++ b, decode_append_break hb ha hb'⟩

/-- **ISO-8859-1** decodes every document, to the text whose code points are its bytes. -/
theorem decode_latin1_codePoints (d : Bytes) : ∃ text, decode .latin1 d = .ok text ∧
    Utf8.WellFormed text ∧
    ∀ cs, text = Utf8.encodeAll cs ↔ cs.map Char.toNat = d.map UInt8.toNat := by
  have htext : d.flatMap latin1Encode = Utf8.encodeAll (d.map Char.ofUInt8) :=
    (List.flatMap_map Char.ofUInt8 Utf8.encode d).symm
  have hcodes : (d.map Char.ofUInt8).map Char.toNat = d.map UInt8.toNat := by
    rw [List.map_map]
    rfl
  refine ⟨d.flatMap latin1Encode, rfl, ⟨d.map Char.ofUInt8, htext⟩, fun cs => ?_⟩
  rw [htext, Utf8.encodeAll_injective.eq_iff, ← hcodes,
    (List.map_injective_iff.mpr fun _ _ => Char.toNat_inj.mp).eq_iff, eq_comm]

end Charset

namespace LineReader

open Lines

variable {σ : Type} [InputSource σ]

/-! ### A document and its reader -/

/-- **The outcome of a call**, by the lines that are ahead. -/
theorem Ahead.outcome {r : LineReader σ} {lines : List Bytes} (h : Ahead r lines) (k : Nat) :
    r.outcome k = lines[k]?.elim (.ok none) (decoded r.charset) := by
  obtain ⟨ha, hc, -⟩ := h.after k
  rw [LineReader.outcome, ← List.head?_drop]
  cases hl : lines.drop k with
  | nil =>
      obtain ⟨r', hr, -⟩ := (hl ▸ ha).readLine_nil
      rw [hr]
      rfl
  | cons raw rest =>
      obtain ⟨r', hr, -⟩ := (hl ▸ ha).readLine_cons
      rw [hr, hc]
      rfl

/-- A call has a text exactly if its line decodes. -/
theorem decoded_eq_ok_iff {charset : Charset} {raw : Bytes} {line : Option Bytes} :
    decoded charset raw = .ok line ↔ ∃ text, charset.decode raw = .ok text ∧ some text = line := by
  rw [decoded]
  cases charset.decode raw <;> simp [Except.mapError, Except.map]

/-- **Decoding line by line is decoding the document.** A document decodes exactly if no line
that a reader cuts from it fails to, and the lines that are read are then the lines of the
decoded document, all of them and in order. ISO-8859-1 decodes every document, to the text whose
code points are its bytes. -/
theorem decode_iff_outcome_ok {s : σ} {d : Bytes} (h : Delivers s d) (charset : Charset)
    (bufferSize : Nat) :
    let r := LineReader.over s charset bufferSize
    ((∃ text, charset.decode d = .ok text) ↔ ∀ k, ∃ line, r.outcome k = .ok line) ∧
    (∀ text lines, charset.decode d = .ok text → Segmented text lines →
      ∀ k, r.outcome k = .ok lines[k]?) ∧
    (charset = .latin1 → ∃ text, charset.decode d = .ok text ∧ Utf8.WellFormed text ∧
      ∀ cs, text = Utf8.encodeAll cs ↔ cs.map Char.toNat = d.map UInt8.toNat) := by
  intro r
  have houtcome : ∀ k, r.outcome k = (ofText d)[k]?.elim (.ok none) (decoded charset) :=
    (ahead_over h charset bufferSize).outcome
  refine ⟨?_, fun text lines hd hl k => ?_, ?_⟩
  · rw [Charset.exists_decode_iff]
    constructor
    · intro hlines k
      rw [houtcome]
      cases hk : (ofText d)[k]? with
      | none => exact ⟨none, rfl⟩
      | some raw =>
          obtain ⟨line, hline⟩ := hlines raw (List.mem_of_getElem? hk)
          exact ⟨some line, decoded_eq_ok_iff.mpr ⟨line, hline, rfl⟩⟩
    · intro hk raw hraw
      obtain ⟨k, hk'⟩ := List.getElem?_of_mem hraw
      obtain ⟨line, hline⟩ := hk k
      rw [houtcome, hk'] at hline
      obtain ⟨text, htext, -⟩ := decoded_eq_ok_iff.mp hline
      exact ⟨text, htext⟩
  · obtain rfl := segmented_iff.mp hl
    have hlines := congrArg (·[k]?) (Charset.decode_ofText hd)
    simp only [List.getElem?_map] at hlines
    rw [houtcome]
    cases hk : (ofText d)[k]? with
    | none =>
        rw [hk, Option.map_none, eq_comm, Option.map_eq_none_iff] at hlines
        rw [hlines]
        rfl
    | some raw =>
        rw [hk, Option.map_some, eq_comm, Option.map_eq_some_iff] at hlines
        obtain ⟨line, hline, hraw⟩ := hlines
        exact decoded_eq_ok_iff.mpr ⟨line, hraw.symm, hline.symm⟩
  · rintro rfl
    exact Charset.decode_latin1_codePoints d

/-- Two lines with a byte of ISO-8859-1 in each, the first ended by a return and a line feed that
blocks of four bytes keep apart. -/
def accentedSample : Bytes := ascii "ab" ++ [0xE9] ++ ascii "\r\n" ++ [0xFC]

theorem decode_accentedSample :
    let source : MemorySource := { rest := accentedSample }
    let r := LineReader.over source .latin1 4
    Delivers source accentedSample ∧ r.outcome 0 = .ok (some (ascii "ab" ++ [0xC3, 0xA9])) ∧
      r.outcome 1 = .ok (some [0xC3, 0xBC]) ∧ r.outcome 2 = .ok none := by
  have hdecoded : Charset.decode .latin1 accentedSample =
      .ok (ascii "ab" ++ [0xC3, 0xA9] ++ ascii "\r\n" ++ [0xC3, 0xBC]) := by decide +kernel
  have hlines : Segmented (ascii "ab" ++ [0xC3, 0xA9] ++ ascii "\r\n" ++ [0xC3, 0xBC])
      [ascii "ab" ++ [0xC3, 0xA9], [0xC3, 0xBC]] := segmented_iff.mpr (by decide +kernel)
  have hdelivers : Delivers ({ rest := accentedSample } : MemorySource) accentedSample :=
    delivers_memory accentedSample _
  have h := (decode_iff_outcome_ok hdelivers .latin1 4).2.1 _ _ hdecoded hlines
  exact ⟨hdelivers, h 0, h 1, h 2⟩

end LineReader

end DoctypeProbe
