import DoctypeProbe.Proofs.CommandLine.Arguments
import DoctypeProbe.Proofs.Settings.Layering
import DoctypeProbe.Proofs.Toml.Integers
import Mathlib.Algebra.Group.Nat.Defs

/-!
# The Size of the Read Buffer

The size of the read buffer can be given as an argument, or in a settings document. The two ways
have little in common. An argument may have white space and a plus sign before its digits, and is
refused as a whole if it is no size. A numeral in a document may stand for no integer of 64 bits,
and then the document is refused, or for one that is not positive, and then filling in fails.

For an integer written in decimal they agree all the same: it is a size for both if it is positive
and fits into 64 bits with a sign, and then it is the same size.

## Main results

* `Arguments.bufferSize?_eq_some_iff`: the texts that are sizes, and which ones they are.
* `Settings.fill_of_integer`, `Settings.fillFromText_sizeDocument`: what an integer for the size
  comes to, in a table and in a document.
* `Settings.bufferSize_agrees`: both ways of giving the size.
-/

namespace DoctypeProbe

namespace Arguments

open Numeral

/-! ### As an argument -/

/-- The white space that may stand before a numeral. -/
def whiteSpace : Bytes := [0x20, 0x09, 0x0A, 0x0B, 0x0C, 0x0D]

theorem isSpace_iff {b : Byte} : Ascii.isSpace b = true ↔ b ∈ whiteSpace := by
  simp only [Ascii.isSpace, Ascii.space, Ascii.tab, Ascii.cr, whiteSpace]
  grind

/-- A number as an argument: white space, maybe a plus sign, and digits. -/
inductive SpellsSize : Bytes → Nat → Prop
  | intro {blank signs digits : Bytes} (hblank : ∀ b ∈ blank, b ∈ whiteSpace)
      (hsigns : signs = [] ∨ signs = [Ascii.plus]) (hdigits : IsDigits digits)
      (hne : digits ≠ []) : SpellsSize (blank ++ (signs ++ digits)) (ofDigits digits)

/-- A numeral behind white space is that of a size unless it has a minus sign. -/
theorem SpellsSize.of_integer {blank numeral : Bytes} {n : Int}
    (hblank : ∀ b ∈ blank, Ascii.isSpace b = true) (h : SpellsInteger numeral n) (hn : 0 < n) :
    SpellsSize (blank ++ numeral) n.toNat := by
  have hwhite : ∀ b ∈ blank, b ∈ whiteSpace := fun b hb => isSpace_iff.mp (hblank b hb)
  cases h with
  | intro hsigns hdigits hne =>
      cases hsigns with
      | absent => exact .intro hwhite (.inl rfl) hdigits hne
      | plus => exact .intro hwhite (.inr rfl) hdigits hne
      | minus =>
          rw [signed, if_pos rfl] at hn
          omega

/-- A number as an argument is read as the number. -/
theorem SpellsSize.integer?_eq {text : Bytes} {v : Nat} (h : SpellsSize text v) :
    integer? text = some ((v : Int), []) := by
  cases h with
  | @intro blank signs digits hblank hsigns hdigits hne =>
      have hsign : IsSign signs false := by
        rcases hsigns with rfl | rfl
        · exact .absent
        · exact .plus
      rw [integer?_append fun b hb => isSpace_iff.mpr (hblank b hb)]
      exact (SpellsInteger.intro hsign hdigits hne).integer?_eq

/-- A text that is an integer throughout is a size if it is positive and fits. -/
theorem bufferSize?_of_integer? {text : Bytes} {n : Int} (h : integer? text = some (n, [])) :
    bufferSize? text = if 1 ≤ n ∧ n ≤ 2 ^ 63 - 1 then some n.toNat else none := by
  have hiff : (decide (0 < n) && fitsInt64 n) = true ↔ 1 ≤ n ∧ n ≤ 2 ^ 63 - 1 := by
    rw [Bool.and_eq_true, decide_eq_true_eq, Toml.fitsInt64_iff]
    omega
  rw [bufferSize?, h]
  simp only [hiff]

/-- **The texts that are sizes**: numbers from one up to the greatest that fits. -/
theorem bufferSize?_eq_some_iff {text : Bytes} {v : Nat} :
    bufferSize? text = some v ↔ SpellsSize text v ∧ 1 ≤ v ∧ v ≤ 2 ^ 63 - 1 := by
  constructor
  · intro h
    obtain ⟨n, hn⟩ : ∃ n, integer? text = some (n, []) := by
      rw [bufferSize?] at h
      split at h
      · rename_i n hn
        exact ⟨n, hn⟩
      · cases h
    rw [bufferSize?_of_integer? hn] at h
    split_ifs at h with hrange
    obtain rfl := Option.some.inj h
    obtain ⟨blank, numeral, rfl, hblank, hspells⟩ := exists_blank hn
    refine ⟨.of_integer hblank hspells (by omega), by omega, by omega⟩
  · rintro ⟨hspells, hrange⟩
    have hfits : 1 ≤ (v : Int) ∧ (v : Int) ≤ 2 ^ 63 - 1 := by omega
    rw [bufferSize?_of_integer? hspells.integer?_eq, if_pos hfits, Int.toNat_natCast]

/-- An integer in decimal as a size. -/
theorem bufferSize?_signedDecimal (n : Int) :
    bufferSize? (Bytes.signedDecimal n) =
      if 1 ≤ n ∧ n ≤ 2 ^ 63 - 1 then some n.toNat else none :=
  bufferSize?_of_integer? (integer?_signedDecimal n)

/-- The option for the size takes a size, and is refused with anything else. -/
theorem parseFrom_bufferSize (text : Bytes) (invocation : Invocation) (args : List Bytes) :
    parseFrom invocation (ascii "--buffer-size" :: text :: args) =
      match bufferSize? text with
      | some v =>
        parseFrom
          { invocation with settings := { invocation.settings with bufferSize := some v } } args
      | none => (.error (.invalidBufferSize text), invocation) := by
  have hname : (ascii "--buffer-size", .bufferSize) ∈ valueOptions := by decide
  cases hsize : bufferSize? text with
  | some v => exact parseFrom_name_value hname (by simp only [ValueOption.set, hsize]) args
  | none => exact parseFrom_name_refused hname (by simp only [ValueOption.set, hsize]) args

end Arguments

namespace Settings

open Arguments

variable {s : Settings} {t : Toml.Table} {v : Int64}

/-! ### In a table -/

/-- Filling in from a table with usable values takes the size of the read buffer. -/
theorem bufferSize_fill (hsize : ¬UnusableBufferSize s t) :
    (s.fill t).2.bufferSize = s.bufferSize.or (given t).bufferSize := by
  by_cases hpaths : UnusableSearchPaths s t
  · rw [fill_of_unusableSearchPaths hsize hpaths]
    rfl
  · rw [fill_of_usable hsize hpaths]
    rfl

theorem given_bufferSize (h : t.integer? bufferSizeKey = some v) :
    (given t).bufferSize = some v.toInt.toNat := by rw [given, h, Option.map_some]

/-- An integer of 64 bits is a size if it is positive. -/
theorem bufferSize?_toInt (v : Int64) :
    bufferSize? (Bytes.signedDecimal v.toInt) = if v ≤ 0 then none else some v.toInt.toNat := by
  have hmax := v.toInt_lt
  have hzero : v ≤ 0 ↔ v.toInt ≤ 0 := Int64.le_iff_toInt_le
  rw [bufferSize?_signedDecimal, ← ite_not]
  refine if_congr ?_ rfl rfl
  rw [hzero]
  omega

/-- **An integer for the size** in a table is taken if its decimal is a size as an argument, and
else filling in fails. -/
theorem fill_of_integer (hs : s.bufferSize = none) (h : t.integer? bufferSizeKey = some v) :
    match bufferSize? (Bytes.signedDecimal v.toInt) with
    | some size => (s.fill t).2.bufferSize = some size
    | none => (s.fill t).1 = .error .bufferSizeNotPositive := by
  rw [bufferSize?_toInt]
  by_cases hv : v ≤ 0
  · rw [if_pos hv, fill_of_unusableBufferSize ⟨hs, v, h, hv⟩]
  · have husable : ¬UnusableBufferSize s t := by
      rintro ⟨-, n, hn, hle⟩
      rw [h] at hn
      exact hv (Option.some.inj hn ▸ hle)
    rw [if_neg hv]
    exact (bufferSize_fill husable).trans (by rw [hs, Option.none_or, given_bufferSize h])

/-! ### In a document -/

/-- A document that gives the size of the read buffer by a numeral. -/
def sizeDocument (numeral : Bytes) : Bytes :=
  ascii "[xmlmode.detector]\nreadBufferSize = " ++ (numeral ++ [Ascii.lf])

/-- The table of such a document. -/
def sizeTable (size : Int64) : Toml.Table :=
  [(ascii "xmlmode", .table [(ascii "detector", .table [(ascii "readBufferSize", .integer size)])])]

/-- **The table of the document** has the integer that the numeral stands for. If it does not fit,
the document is refused. -/
theorem parse_sizeDocument (n : Int) :
    Toml.parse (sizeDocument (Bytes.signedDecimal n)) =
      if Numeral.fitsInt64 n then .ok (sizeTable (Int64.ofInt n))
      else .error ⟨2, .invalidNumber (Bytes.signedDecimal n)⟩ := by
  have hspells := Numeral.spellsInteger_signedDecimal n
  have hspaced := Toml.Spaced.self hspells
  have hname : ∀ b ∈ ascii "xmlmode.detector", Toml.isInside b = true := by decide +kernel
  have hkey : Toml.IsBareKey (ascii "readBufferSize") := by decide +kernel
  have hlf : ∀ b ∈ [Ascii.lf].head?, Toml.continuesInteger b = false :=
    Toml.forall_head?_of_eq_some rfl rfl
  have hvalue := Toml.readValue_spaced hspells hspaced hlf 2
  have hdocument : ascii "[xmlmode.detector]\nreadBufferSize = " =
      Ascii.openBracket :: (ascii "xmlmode.detector" ++ Ascii.closeBracket :: Ascii.lf ::
        (ascii "readBufferSize" ++ ascii " = ")) := by decide +kernel
  have hparse := Toml.parse_inSection hname (fun _ => rfl) hkey
    (hspaced.head_not_space hspells [Ascii.lf])
  rw [sizeDocument, hdocument]
  simp only [List.cons_append, List.append_assoc] at hparse ⊢
  rw [hparse]
  split_ifs at hvalue ⊢ with hfits
  · rw [Toml.Reading.andThen_of_ok _ hvalue, Toml.readRest_of_endsLine _ rfl,
      Toml.readLines_of_nil _ rfl]
    rfl
  · rw [Toml.Reading.andThen_of_error _ hvalue]
    rfl

theorem fill_sizeTable_of_le (hs : s.bufferSize = none) (hv : v ≤ 0) :
    s.fill (sizeTable v) = (.error .bufferSizeNotPositive, s) := by
  have hnothing : givenTexts (sizeTable v) = {} := rfl
  rw [fill_of_unusableBufferSize ⟨hs, v, rfl, hv⟩, hnothing]
  simp only [overlay, Option.or_none]

theorem fill_sizeTable_of_not_le (hs : s.bufferSize = none) (hv : ¬v ≤ 0) :
    s.fill (sizeTable v) = (.ok (), { s with bufferSize := some v.toInt.toNat }) := by
  have hsize : ¬UnusableBufferSize s (sizeTable v) := by
    rintro ⟨-, n, hn, hle⟩
    have hn : some v = some n := hn
    exact hv (Option.some.inj hn ▸ hle)
  have hpaths : ¬UnusableSearchPaths s (sizeTable v) := by
    rintro ⟨-, items, hitems, -⟩
    cases hitems
  have hgiven : given (sizeTable v) = { bufferSize := some v.toInt.toNat } := rfl
  rw [fill_of_usable hsize hpaths, hgiven]
  simp only [overlay, Option.or_none, hs, Option.none_or]

/-- Takes unset settings from a document. -/
def fillFromText (s : Settings) (text : Bytes) : Except SettingsError Unit × Settings :=
  match Store.ofText text with
  | .ok store => s.fill store.table
  | .error e => (.error e, s)

theorem fillFromText_of_ok {text : Bytes} (h : Toml.parse text = .ok t) :
    s.fillFromText text = s.fill t := by rw [fillFromText, Store.ofText, h]

theorem fillFromText_of_error {text : Bytes} {e : Toml.ParseError}
    (h : Toml.parse text = .error e) : s.fillFromText text = (.error (.parse e), s) := by
  rw [fillFromText, Store.ofText, h]

/-- What is wrong with a document that gives the size by an integer which is none. -/
def sizeFault (n : Int) : SettingsError :=
  if Numeral.fitsInt64 n then .bufferSizeNotPositive
  else .parse ⟨2, .invalidNumber (Bytes.signedDecimal n)⟩

/-- **An integer for the size** in a document is taken if its decimal is a size as an argument, and
else nothing is. -/
theorem fillFromText_sizeDocument (hs : s.bufferSize = none) (n : Int) :
    s.fillFromText (sizeDocument (Bytes.signedDecimal n)) =
      match bufferSize? (Bytes.signedDecimal n) with
      | some size => (.ok (), { s with bufferSize := some size })
      | none => (.error (sizeFault n), s) := by
  have hparse := parse_sizeDocument n
  rw [sizeFault]
  split_ifs at hparse ⊢ with hfits
  · have hrange := (Toml.fitsInt64_iff n).mp hfits
    have hn : (Int64.ofInt n).toInt = n := Int64.toInt_ofInt_of_le hrange.1 (by omega)
    have hsize := bufferSize?_toInt (Int64.ofInt n)
    rw [hn] at hsize
    rw [fillFromText_of_ok hparse, hsize]
    by_cases hv : Int64.ofInt n ≤ 0
    · rw [if_pos hv, fill_sizeTable_of_le hs hv]
    · rw [if_neg hv, fill_sizeTable_of_not_le hs hv, hn]
  · have hrange : ¬(1 ≤ n ∧ n ≤ 2 ^ 63 - 1) := by
      rw [Toml.fitsInt64_iff] at hfits
      omega
    rw [fillFromText_of_error hparse, bufferSize?_signedDecimal, if_neg hrange]

/-! ### Both ways -/

/-- **The size of the read buffer**, as an argument and in settings.

* A text is a size exactly if it consists of white space, maybe a plus sign, and digits for a number
  from 1 to the greatest integer of 64 bits. It is that number.
* The option for the size takes a size, and the arguments are refused with any other text.
* An integer in decimal is a size exactly if it is positive and fits.
* Where the size is unset, a document that gives it by an integer sets it to what the decimal of the
  integer is as an argument. If that is no size, the document or its value is refused, and nothing
  is set.
* A table with an integer for the size sets it to the same, whatever else is in the table. If that
  is no size, filling in fails because of it. -/
theorem bufferSize_agrees :
    (∀ text v, bufferSize? text = some v ↔ SpellsSize text v ∧ 1 ≤ v ∧ v ≤ 2 ^ 63 - 1) ∧
    (∀ text invocation args,
      parseFrom invocation (ascii "--buffer-size" :: text :: args) =
        match bufferSize? text with
        | some v =>
          parseFrom
            { invocation with settings := { invocation.settings with bufferSize := some v } } args
        | none => (.error (.invalidBufferSize text), invocation)) ∧
    (∀ n : Int, bufferSize? (Bytes.signedDecimal n) =
      if 1 ≤ n ∧ n ≤ 2 ^ 63 - 1 then some n.toNat else none) ∧
    (∀ (n : Int) (s : Settings), s.bufferSize = none →
      s.fillFromText (sizeDocument (Bytes.signedDecimal n)) =
        match bufferSize? (Bytes.signedDecimal n) with
        | some size => (.ok (), { s with bufferSize := some size })
        | none => (.error (sizeFault n), s)) ∧
    ∀ (s : Settings) t v, s.bufferSize = none → t.integer? bufferSizeKey = some v →
      match bufferSize? (Bytes.signedDecimal v.toInt) with
      | some size => (s.fill t).2.bufferSize = some size
      | none => (s.fill t).1 = .error .bufferSizeNotPositive :=
  ⟨fun _ _ => bufferSize?_eq_some_iff, parseFrom_bufferSize, bufferSize?_signedDecimal,
    fun n _ hs => fillFromText_sizeDocument hs n, fun _ _ _ => fill_of_integer⟩

/-- The greatest size, and the integer behind it. -/
theorem bufferSize_agrees_limits :
    bufferSize? (ascii "\t +0" ++ ascii "9223372036854775807") = some (2 ^ 63 - 1) ∧
    ({} : Settings).fillFromText (sizeDocument (ascii "9223372036854775807")) =
      (.ok (), { bufferSize := some (2 ^ 63 - 1) }) ∧
    bufferSize? (ascii "9223372036854775808") = none ∧
    ({} : Settings).fillFromText (sizeDocument (ascii "9223372036854775808")) =
      (.error (.parse ⟨2, .invalidNumber (ascii "9223372036854775808")⟩), {}) := by
  obtain ⟨htexts, -, hdecimal, hdocument, -⟩ := bufferSize_agrees
  have hgreatest : Bytes.signedDecimal (2 ^ 63 - 1) = ascii "9223372036854775807" := by
    decide +kernel
  have hbehind : Bytes.signedDecimal (2 ^ 63) = ascii "9223372036854775808" := by decide +kernel
  have hwhite : ∀ b ∈ ascii "\t ", b ∈ whiteSpace := by decide +kernel
  have hdigits : ∀ b ∈ ascii "09223372036854775807", Ascii.isDigit b = true := by decide +kernel
  have hspells : SpellsSize (ascii "\t +0" ++ ascii "9223372036854775807") (2 ^ 63 - 1) :=
    .intro hwhite (.inr rfl) hdigits (by decide +kernel)
  have hsize := hdecimal (2 ^ 63 - 1)
  have hnone := hdecimal (2 ^ 63)
  have htaken := hdocument (2 ^ 63 - 1) {} rfl
  have hrefused := hdocument (2 ^ 63) {} rfl
  rw [hgreatest, if_pos (by decide)] at hsize
  rw [hbehind, if_neg (by decide)] at hnone
  rw [hgreatest, hsize] at htaken
  rw [hbehind, hnone, sizeFault, if_neg (by decide), hbehind] at hrefused
  exact ⟨(htexts _ _).mpr ⟨hspells, by decide, by decide⟩, htaken, hnone, hrefused⟩

end Settings

end DoctypeProbe
