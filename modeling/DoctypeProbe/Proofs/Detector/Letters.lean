import DoctypeProbe.Proofs.Comment.Grammar
import DoctypeProbe.Proofs.Detector.Scan
import DoctypeProbe.Proofs.Text.Document
import DoctypeProbe.Proofs.Text.WellFormed

/-!
# Where Letters Are Looked For

A scan looks for an opening tag in what is left of a line without its comments: is there a letter
behind the first `<`? To tell, a character is read from the middle of a text out of which comments
have been taken. Every cut is made at a token of ASCII bytes, so no character is split, and what
is left of a line is well formed as the line was. The byte behind a `<` then begins a complete
character.

A reader of characters that is given the place and the length of the text as numbers of 32 bits
(`CharacterReader`) is therefore never asked about a malformed sequence, as long as lines are so
short that these numbers do not overflow. It may be any reader that is strict; the letters found
with it are those of `Letter.startsWith`.

## Main results

* `Comment.wellFormed_strip`: what is left of a well-formed line is well formed.
* `Detector.scanWith_eq_scan`: a scan depends on the test for opening tags only at the examined
  texts.
* `Detector.examined_character`: what is read behind the first `<` of an examined text.
-/

namespace DoctypeProbe

namespace Comment

open Bytes Utf8

variable {inside inside' : Bool} {line content : Bytes}

/-- What is left of a line is the line itself, or the text before a cut and the text behind a
closing token; if there is any text before the cut, then an opening token stands there. -/
theorem exists_pieces (h : strip inside line = (some content, inside')) :
    content = line ∨ ∃ before found front rest, content = before ++ rest ∧
      line = before ++ found ∧ found = front ++ (closing ++ rest) ∧
      (before = [] ∨ opening <+: found) := by
  have hs := stripped_strip inside line
  rw [h] at hs
  cases hs with
  | plain _ _ => exact Or.inl rfl
  | @closed before found rest hportions hrun =>
      obtain ⟨front, hfront⟩ := hrun.exists_append
      refine Or.inr ⟨before, found, front, rest, rfl, ?_, hfront, ?_⟩
      · cases hportions with
        | opened hline _ => exact hline
        | unopened _ _ => rfl
      · cases hportions with
        | opened _ _ => exact Or.inr (List.prefix_append opening _)
        | unopened _ _ => exact Or.inl rfl

theorem asciiOnly_opening : Charset.AsciiOnly opening := by decide +kernel

theorem asciiOnly_closing : Charset.AsciiOnly closing := by decide +kernel

/-- **Stripping a line splits no character**: what is left of a well-formed line is well
formed. -/
theorem wellFormed_strip (h : strip inside line = (some content, inside'))
    (hline : WellFormed line) : WellFormed content := by
  rcases exists_pieces h with rfl | ⟨before, found, front, rest, rfl, rfl, hfound, hcut⟩
  · exact hline
  · have hbefore : WellFormed before := by
      rcases hcut with rfl | ⟨tail, rfl⟩
      · exact wellFormed_nil
      · exact (wellFormed_append_ascii asciiOnly_opening hline (by decide)).1
    have hrest : WellFormed rest := by
      rw [hfound, ← List.append_assoc] at hline
      exact (wellFormed_append_ascii asciiOnly_closing hline (by decide)).2
    exact hbefore.append hrest

/-- Stripping a line does not make it longer. -/
theorem length_strip_le (h : strip inside line = (some content, inside')) :
    content.length ≤ line.length := by
  rcases exists_pieces h with rfl | ⟨before, found, front, rest, rfl, rfl, rfl, -⟩
  · exact Nat.le_refl _
  · simp only [List.length_append]
    omega

end Comment

namespace Detector

open Utf8

/-! ### Reading characters -/

/-- A reader of characters: it is given a text, the place of a byte in it and the length of the
text, these two as numbers of 32 bits with a sign. It answers the code point of the character that
begins at the byte, or a negative number. -/
abbrev CharacterReader := Bytes → Int32 → Int32 → Int32

/-- The least length that is no number of 32 bits with a sign: 2³¹. -/
def lengthLimit : Nat := 2147483648

/-- A reader of characters is strict if it reads complete characters, and answers a negative number
where none begins. Nothing is said about texts whose length is not a number of 32 bits. -/
structure CharacterReader.Strict (next : CharacterReader) : Prop where
  complete : ∀ (before : Bytes) (c : Char) (rest : Bytes),
    (before ++ (encode c ++ rest)).length < lengthLimit →
      next (before ++ (encode c ++ rest)) (Int32.ofNat before.length)
        (Int32.ofNat (before ++ (encode c ++ rest)).length) = Int32.ofNat c.toNat
  malformed : ∀ before rest : Bytes, (before ++ rest).length < lengthLimit → rest ≠ [] →
    (∀ c more, rest ≠ encode c ++ more) →
      next (before ++ rest) (Int32.ofNat before.length) (Int32.ofNat (before ++ rest).length) < 0

/-- Whether a reader of characters finds a letter at a place in a text. -/
def CharacterReader.isLetterAt [Alphabet] (next : CharacterReader) (text : Bytes) (place : Nat) :
    Bool :=
  if text.length ≤ place then false
  else
    let code := next text (Int32.ofNat place) (Int32.ofNat text.length)
    0 ≤ code && Alphabet.isLetter code.toInt.toNat

/-- Whether a reader of characters finds a letter behind the first `<` of a text. -/
def CharacterReader.hasOpeningTag [Alphabet] (next : CharacterReader) (text : Bytes) : Bool :=
  match text.cutAt [Ascii.less] with
  | some (before, _) => next.isLetterAt text (before.length + 1)
  | none => false

theorem toInt_ofNat_of_lt {n : Nat} (h : n < lengthLimit) : (Int32.ofNat n).toInt = n := by
  refine Int32.toInt_ofNat_of_lt ?_
  rw [lengthLimit] at h
  omega

/-- A code point is a number of 32 bits, and not a negative one. -/
theorem toInt_codePoint (c : Char) : (Int32.ofNat c.toNat).toInt = c.toNat := by
  have hlt := toNat_lt c
  refine toInt_ofNat_of_lt ?_
  rw [lengthLimit]
  omega

theorem codePoint_nonneg (c : Char) : 0 ≤ Int32.ofNat c.toNat := by
  rw [Int32.le_iff_toInt_le, toInt_codePoint]
  exact Int.natCast_nonneg _

/-- A letter begins a text if its first character is one. -/
theorem startsWith_encode [Alphabet] (c : Char) (rest : Bytes) :
    Letter.startsWith (encode c ++ rest) = Alphabet.isLetter c.toNat := by
  obtain ⟨b, trail, he, hs⟩ := scalar_encode c rest
  rw [he, List.cons_append, Letter.startsWith, hs]

/-! ### Texts that are examined -/

variable {σ : Type} [InputSource σ]

/-- The texts in which a scan looks for an opening tag, each with the line that it is left of.

* `here`: the next line is not blank outside comments, and declares no document type.
* `later`: the next line does not decide, and the scan goes on behind it. -/
inductive Examines [Alphabet] : Bool → LineReader σ → Bytes → Bytes → Prop
  | here {inside : Bool} {r r' : LineReader σ} {line content : Bytes} :
      r.readLine = (.ok (some line), r') →
      Comment.strip inside line = (some content, false) → hasText content = true →
      hasDoctype content = false → Examines inside r line content
  | later {inside inside' : Bool} {r r' : LineReader σ} {first line content : Bytes} :
      r.readLine = (.ok (some first), r') → finding? inside first = (none, inside') →
      Examines inside' r' line content → Examines inside r line content

/-- A line that has been read is decoded, and the next one will be from the same charset. -/
theorem decode_of_readLine {r r' : LineReader σ} {line : Bytes}
    (h : r.readLine = (.ok (some line), r')) :
    (∃ raw, r.charset.decode raw = .ok line) ∧ r'.charset = r.charset := by
  obtain ⟨out, r'', n, hg, hr⟩ := LineReader.exists_gathered r
  rw [h] at hr
  obtain ⟨hanswer, rfl⟩ := Prod.mk.inj hr
  refine ⟨?_, hg.charset_eq⟩
  rcases out with e | _ | raw
  · cases hanswer
  · cases hanswer
  · obtain ⟨text, ht, hline⟩ := LineReader.decoded_eq_ok_iff.mp hanswer.symm
    exact ⟨raw, by rw [ht, Option.some.inj hline]⟩

/-- **An examined text** is left of a line that has been decoded. Induction along the scan. -/
theorem Examines.exists_strip [Alphabet] {inside : Bool} {r : LineReader σ} {line content : Bytes}
    (h : Examines inside r line content) :
    ∃ raw inside', r.charset.decode raw = .ok line ∧
      Comment.strip inside' line = (some content, false) := by
  induction h with
  | @here inside r r' line content hread hstrip _ _ =>
      obtain ⟨⟨raw, hraw⟩, -⟩ := decode_of_readLine hread
      exact ⟨raw, inside, hraw, hstrip⟩
  | @later inside inside' r r' first line content hread _ _ ih =>
      obtain ⟨raw, inside'', hraw, hstrip⟩ := ih
      rw [(decode_of_readLine hread).2] at hraw
      exact ⟨raw, inside'', hraw, hstrip⟩

/-- An examined text is well formed, and no longer than the line that it is left of. -/
theorem Examines.wellFormed [Alphabet] {inside : Bool} {r : LineReader σ} {line content : Bytes}
    (h : Examines inside r line content) (hc : r.charset ≠ .unknown) :
    WellFormed content ∧ content.length ≤ line.length := by
  obtain ⟨raw, inside', hraw, hstrip⟩ := h.exists_strip
  exact ⟨Comment.wellFormed_strip hstrip (Charset.wellFormed_of_decode hc hraw),
    Comment.length_strip_le hstrip⟩

/-! ### The character behind the first `<` -/

/-- Behind the first `<` of a well-formed text is its end or a complete character. -/
theorem end_or_character {content before opened : Bytes} (h : WellFormed content)
    (hcut : content.cutAt [Ascii.less] = some (before, opened)) :
    ∃ tag, content = (before ++ [Ascii.less]) ++ tag ∧ opened = Ascii.less :: tag ∧
      (tag = [] ∨ ∃ c rest, tag = encode c ++ rest) := by
  obtain ⟨rfl, tag, rfl⟩ := Bytes.eq_of_cutAt hcut
  have htag : WellFormed tag := ((wellFormed_append_cons (by decide)).mp h).2
  refine ⟨tag, (List.append_assoc _ _ _).symm, rfl, ?_⟩
  exact htag.nil_or_encode.imp id fun ⟨c, rest, heq, _⟩ => ⟨c, rest, heq⟩

/-- **A strict reader finds the opening tags** of well-formed texts that are not too long. -/
theorem CharacterReader.Strict.hasOpeningTag_eq [Alphabet] {next : CharacterReader}
    (hs : next.Strict) {content : Bytes} (h : WellFormed content)
    (hlt : content.length < lengthLimit) :
    next.hasOpeningTag content = Detector.hasOpeningTag content := by
  rcases hcut : content.cutAt [Ascii.less] with - | ⟨before, opened⟩
  · simp only [CharacterReader.hasOpeningTag, Detector.hasOpeningTag, hcut]
  · have hplace : before.length + 1 = (before ++ [Ascii.less]).length := by
      rw [List.length_append, List.length_singleton]
    simp only [CharacterReader.hasOpeningTag, Detector.hasOpeningTag, hcut, hplace]
    obtain ⟨tag, rfl, rfl, rfl | ⟨c, rest, rfl⟩⟩ := end_or_character h hcut
    · rw [List.append_nil, CharacterReader.isLetterAt, if_pos (Nat.le_refl _)]
      rfl
    · have hinside : ¬ ((before ++ [Ascii.less]) ++ (encode c ++ rest)).length ≤
          (before ++ [Ascii.less]).length := by
        obtain ⟨b, trail, he, -⟩ := scalar_encode c rest
        simp only [he, List.length_append, List.length_cons]
        omega
      rw [CharacterReader.isLetterAt, if_neg hinside, hs.complete _ c rest hlt]
      simp only [codePoint_nonneg, toInt_codePoint, Int.toNat_natCast, decide_true,
        Bool.true_and, List.drop_succ_cons, List.drop_zero, startsWith_encode]

/-! ### Scanning with a reader of characters -/

/-- What a decoded line decides, if `opens` tells whether a text opens an element. -/
def findingWith (opens : Bytes → Bool) (inside : Bool) (line : Bytes) : Option Finding × Bool :=
  match Comment.strip inside line with
  | (some content, false) =>
    (if !hasText content then none
      else if hasDoctype content then some .doctype
      else if opens content then some .element
      else none, false)
  | (_, inside') => (none, inside')

/-- A scan in which `opens` tells whether a text opens an element. -/
def scanWith (opens : Bytes → Bool) (inside : Bool) (reader : LineReader σ) :
    Except ReadError (Option (Finding × Nat)) × LineReader σ :=
  match _h : reader.readLine with
  | (.error e, reader') => (.error e, reader')
  | (.ok none, reader') => (.ok none, reader')
  | (.ok (some line), reader') =>
    match findingWith opens inside line with
    | (some finding, _) => (.ok (some (finding, reader'.lineNumber)), reader')
    | (none, inside') => scanWith opens inside' reader'
termination_by reader.pending
decreasing_by exact LineReader.pending_lt ‹_›

/-- The test is asked about a text only where a scan examines one. -/
theorem findingWith_eq [Alphabet] {opens : Bytes → Bool} {inside : Bool} {r r' : LineReader σ}
    {line : Bytes} (hr : r.readLine = (.ok (some line), r'))
    (h : ∀ content, Examines inside r line content → opens content = hasOpeningTag content) :
    findingWith opens inside line = finding? inside line := by
  rw [findingWith, finding?]
  rcases hstrip : Comment.strip inside line with ⟨- | content, - | -⟩ <;> simp only
  rw [findingIn]
  cases htext : hasText content with
  | false => rfl
  | true =>
      cases hdecl : hasDoctype content with
      | true => rfl
      | false => rw [h content (.here hr hstrip htext hdecl)]

/-- **The examined texts are those that the test is asked about**: a scan with a test that agrees
with `hasOpeningTag` on them is the scan. Induction along the scan. -/
theorem scanWith_eq_scan [Alphabet] {opens : Bytes → Bool} {inside : Bool} {r : LineReader σ}
    (h : ∀ line content, Examines inside r line content → opens content = hasOpeningTag content) :
    scanWith opens inside r = scan inside r := by
  fun_induction scanWith opens inside r with
  | case1 inside r e r' hr => exact (scan_error hr).symm
  | case2 inside r r' hr => exact (scan_end hr).symm
  | case3 inside r line r' hr finding inside' hf =>
      rw [findingWith_eq hr (h line)] at hf
      rw [scan_line hr, hf]
  | case4 inside r line r' hr inside' hf ih =>
      rw [findingWith_eq hr (h line)] at hf
      rw [scan_line hr, hf]
      exact ih fun later content hlater => h later content (.later hr hf hlater)

/-- **What is read behind the first `<`.** Every text that a scan examines is well formed, and
behind its first `<` is its end or a complete character. A strict reader answers that character,
which is no negative number, if the line is shorter than 2³¹ bytes; and if all examined lines are,
a scan that asks the reader for the letters is the scan. -/
theorem examined_character [Alphabet] {charset : Charset} (hc : charset ≠ .unknown) (source : σ)
    (bufferSize : Nat) :
    (∀ line content, Examines false (LineReader.over source charset bufferSize) line content →
      WellFormed content ∧
      ∀ before opened, content.cutAt [Ascii.less] = some (before, opened) →
        before.length + 1 = content.length ∨
        ∃ c rest, content.drop (before.length + 1) = encode c ++ rest ∧
          (line.length < lengthLimit → ∀ next : CharacterReader, next.Strict →
            next content (Int32.ofNat (before.length + 1)) (Int32.ofNat content.length) =
              Int32.ofNat c.toNat ∧ 0 ≤ Int32.ofNat c.toNat)) ∧
    ∀ next : CharacterReader, next.Strict →
      (∀ line content, Examines false (LineReader.over source charset bufferSize) line content →
        line.length < lengthLimit) →
      scanWith next.hasOpeningTag false (LineReader.over source charset bufferSize) =
        scan false (LineReader.over source charset bufferSize) := by
  constructor
  · intro line content h
    obtain ⟨hwell, hle⟩ := h.wellFormed hc
    refine ⟨hwell, fun before opened hcut => ?_⟩
    have hplace : before.length + 1 = (before ++ [Ascii.less]).length := by
      rw [List.length_append, List.length_singleton]
    rw [hplace]
    obtain ⟨tag, rfl, -, rfl | ⟨c, rest, rfl⟩⟩ := end_or_character hwell hcut
    · exact Or.inl (by rw [List.append_nil])
    · refine Or.inr ⟨c, rest, List.drop_left, fun hlt next hs => ⟨?_, codePoint_nonneg c⟩⟩
      exact hs.complete _ c rest (Nat.lt_of_le_of_lt hle hlt)
  · intro next hs hshort
    refine scanWith_eq_scan fun line content h => ?_
    obtain ⟨hwell, hle⟩ := h.wellFormed hc
    exact hs.hasOpeningTag_eq hwell (Nat.lt_of_le_of_lt hle (hshort line content h))

/-! ### A strict reader -/

/-- The code point of the character that begins a text, or -1 if there is none. -/
def firstCode : Bytes → Int32
  | [] => -1
  | b :: rest =>
    match scalar b rest with
    | .ok (code, _) => Int32.ofNat code
    | .error _ => -1

/-- A reader of characters that answers -1 where no character begins. -/
def readCharacter : CharacterReader := fun text place length =>
  firstCode ((text.take length.toInt.toNat).drop place.toInt.toNat)

/-- At a place in a text that is not too long, it reads what is behind the place. -/
theorem readCharacter_append {before rest : Bytes} (h : (before ++ rest).length < lengthLimit) :
    readCharacter (before ++ rest) (Int32.ofNat before.length)
        (Int32.ofNat (before ++ rest).length) = firstCode rest := by
  have hplace : before.length < lengthLimit := by
    rw [List.length_append] at h
    omega
  rw [readCharacter, toInt_ofNat_of_lt h, toInt_ofNat_of_lt hplace, Int.toNat_natCast,
    Int.toNat_natCast, List.take_length, List.drop_left]

theorem strict_readCharacter : CharacterReader.Strict readCharacter where
  complete before c rest h := by
    obtain ⟨b, trail, he, hs⟩ := scalar_encode c rest
    rw [readCharacter_append h, he, List.cons_append, firstCode, hs]
  malformed before rest h hne hmalformed := by
    rw [readCharacter_append h]
    rcases rest with - | ⟨b, rest⟩
    · exact absurd rfl hne
    · rw [firstCode]
      rcases hs : scalar b rest with e | ⟨code, k⟩
      · exact (by decide : (-1 : Int32) < 0)
      · obtain ⟨c, more, heq, -⟩ := exists_encode_of_scalar hs
        exact absurd heq (hmalformed c more)

/-- A document of two lines in ISO-8859-1. The second has two comments behind an accented letter,
and a tag with an accented letter behind these. -/
def taggedSample : Bytes :=
  [0xE9, Ascii.lf, 0xE9] ++ ascii "<!--" ++ [0xFC] ++ ascii "-->  <!--" ++ [0xFC] ++
    ascii "--><" ++ [0xE4] ++ ascii ">"

/-- The second line of the sample, decoded. -/
def taggedLine : Bytes :=
  [0xC3, 0xA9] ++ ascii "<!--" ++ [0xC3, 0xBC] ++ ascii "-->  <!--" ++ [0xC3, 0xBC] ++
    ascii "--><" ++ [0xC3, 0xA4] ++ ascii ">"

/-- The same line without its comments. -/
def taggedContent : Bytes := [0xC3, 0xA9] ++ ascii "<" ++ [0xC3, 0xA4] ++ ascii ">"

/-- A reader at the start of the sample. -/
def taggedReader : LineReader MemorySource := LineReader.over { rest := taggedSample } .latin1 3

/-- Reading a line ahead answers what it decodes to. -/
theorem readLine_of_ahead {r : LineReader σ} {raw line : Bytes} {lines : List Bytes}
    (h : r.Ahead (raw :: lines)) (hline : r.charset.decode raw = .ok line) :
    ∃ r', r.readLine = (.ok (some line), r') ∧ r'.Ahead lines ∧ r'.charset = r.charset := by
  obtain ⟨r', hr, hahead, hv⟩ := h.readLine_cons
  rw [hline] at hr
  exact ⟨r', hr, hahead, hv.charset⟩

/-- The second line of the sample is examined without its comments. -/
theorem examines_taggedSample : Examines false taggedReader taggedLine taggedContent := by
  have hlines : Lines.ofText taggedSample = [[0xE9], taggedSample.drop 2] := by decide +kernel
  have hahead : taggedReader.Ahead [[0xE9], taggedSample.drop 2] :=
    hlines ▸ LineReader.ahead_over (delivers_memory taggedSample _) .latin1 3
  have hdecode : taggedReader.charset.decode [0xE9] = .ok [0xC3, 0xA9] := by decide +kernel
  obtain ⟨r', hfirst, hahead', hcharset⟩ := readLine_of_ahead hahead hdecode
  have hdecode' : r'.charset.decode (taggedSample.drop 2) = .ok taggedLine := by
    rw [hcharset]
    decide +kernel
  obtain ⟨r'', hsecond, -, -⟩ := readLine_of_ahead hahead' hdecode'
  have hgoes : finding? false [0xC3, 0xA9] = (none, false) := by decide +kernel
  exact .later hfirst hgoes
    (.here hsecond (by decide +kernel) (by decide +kernel) (by decide +kernel))

/-- In the sample, a character stands behind the `<`, and a strict reader reads it. -/
theorem examined_character_taggedSample :
    Charset.latin1 ≠ .unknown ∧ Examines false taggedReader taggedLine taggedContent ∧
      taggedLine.length < lengthLimit ∧ readCharacter.Strict ∧ WellFormed taggedContent ∧
      ∃ c rest, taggedContent.drop 3 = encode c ++ rest ∧
        readCharacter taggedContent 3 6 = Int32.ofNat c.toNat := by
  have hcut : Bytes.cutAt taggedContent [Ascii.less] =
      some ([0xC3, 0xA9], taggedContent.drop 2) := by decide +kernel
  have hlt : taggedLine.length < lengthLimit := by decide +kernel
  have hlatin1 : Charset.latin1 ≠ .unknown := by decide
  obtain ⟨hwell, hreads⟩ := (examined_character hlatin1
    ({ rest := taggedSample } : MemorySource) 3).1 _ _ examines_taggedSample
  refine ⟨hlatin1, examines_taggedSample, hlt, strict_readCharacter, hwell, ?_⟩
  obtain hend | ⟨c, rest, hdrop, hread⟩ := hreads _ _ hcut
  · exact absurd hend (by decide)
  · exact ⟨c, rest, hdrop, (hread hlt _ strict_readCharacter).1⟩

end Detector

end DoctypeProbe
