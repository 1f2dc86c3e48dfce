import DoctypeProbe.Number.Numeral
import Mathlib.Data.List.TakeWhile

/-!
# Decimal Numerals Read Back

The decimal numeral of a number is a text of digits, and reading it gives the number. This holds
of integers as well, whose numerals may have a minus sign in front.

## Main results

* `Numeral.ofDigits_decimal`: the digits of a natural number stand for it.
* `Numeral.integer?_signedDecimal`: the numeral of an integer is read back.
-/

namespace DoctypeProbe

namespace Ascii

theorem toNat_ofDigit {d : Nat} (h : d < 10) : (ofDigit d).toNat = 0x30 + d :=
  UInt8.toNat_ofNat_of_lt' (by simp only [UInt8.size]; omega)

theorem isDigit_ofDigit {d : Nat} (h : d < 10) : isDigit (ofDigit d) = true := by
  simp only [isDigit, Bool.and_eq_true, decide_eq_true_eq, UInt8.le_iff_toNat_le, toNat_ofDigit h,
    UInt8.reduceToNat]
  omega

theorem digitValue_ofDigit {d : Nat} (h : d < 10) : digitValue (ofDigit d) = d := by
  rw [digitValue, toNat_ofDigit h]
  omega

end Ascii

namespace Bytes

theorem decimal_of_lt {n : Nat} (h : n < 10) : decimal n = [Ascii.ofDigit n] := by
  rw [decimal, if_pos h]

theorem decimal_of_not_lt {n : Nat} (h : ¬n < 10) :
    decimal n = decimal (n / 10) ++ [Ascii.ofDigit (n % 10)] := by
  rw [decimal, if_neg h]

theorem decimal_ne_nil (n : Nat) : decimal n ≠ [] := by
  rw [decimal]
  split <;> simp

theorem isDigit_of_mem_decimal {n : Nat} {b : Byte} (h : b ∈ decimal n) :
    Ascii.isDigit b = true := by
  induction n using decimal.induct with
  | case1 n hn =>
      rw [decimal_of_lt hn, List.mem_singleton] at h
      exact h ▸ Ascii.isDigit_ofDigit hn
  | case2 n hn ih =>
      rw [decimal_of_not_lt hn, List.mem_append, List.mem_singleton] at h
      rcases h with h | rfl
      · exact ih h
      · exact Ascii.isDigit_ofDigit (Nat.mod_lt n (by decide))

/-- A numeral is a first byte, which is a digit or a minus sign, and digits. -/
theorem exists_signedDecimal_eq (n : Int) :
    ∃ b digits, signedDecimal n = b :: digits ∧ (b = Ascii.minus ∨ Ascii.isDigit b = true) ∧
      ∀ d ∈ digits, Ascii.isDigit d = true := by
  cases n with
  | ofNat n =>
      obtain ⟨b, digits, h⟩ := List.exists_cons_of_ne_nil (decimal_ne_nil n)
      have hdigit : ∀ d ∈ b :: digits, Ascii.isDigit d = true := fun d hd =>
        isDigit_of_mem_decimal (h ▸ hd)
      obtain ⟨hb, hdigits⟩ := List.forall_mem_cons.mp hdigit
      exact ⟨b, digits, h, Or.inr hb, hdigits⟩
  | negSucc n => exact ⟨_, _, rfl, Or.inl rfl, fun d hd => isDigit_of_mem_decimal hd⟩

end Bytes

namespace Numeral

theorem ofDigits_append_singleton (digits : Bytes) (d : Byte) :
    ofDigits (digits ++ [d]) = 10 * ofDigits digits + Ascii.digitValue d := by
  simp [ofDigits]

/-- **The digits of a natural number** stand for it. -/
theorem ofDigits_decimal (n : Nat) : ofDigits (Bytes.decimal n) = n := by
  induction n using Bytes.decimal.induct with
  | case1 n hn =>
      rw [Bytes.decimal_of_lt hn]
      exact (Nat.zero_add _).trans (Ascii.digitValue_ofDigit hn)
  | case2 n hn ih =>
      rw [Bytes.decimal_of_not_lt hn, ofDigits_append_singleton, ih,
        Ascii.digitValue_ofDigit (Nat.mod_lt n (by decide))]
      exact Nat.div_add_mod n 10

/-- Digits behind a sign are read to their end. -/
theorem integer?_of_sign {s digits : Bytes} {negative : Bool}
    (hspace : s.dropWhile Ascii.isSpace = s) (hsign : sign s = (negative, digits))
    (hne : digits ≠ []) (hdigits : ∀ d ∈ digits, Ascii.isDigit d = true) :
    integer? s = some (signed negative (ofDigits digits), []) := by
  rw [integer?, hspace, hsign]
  simp only [List.takeWhile_eq_self_iff.mpr hdigits, List.dropWhile_eq_nil_iff.mpr hdigits,
    List.isEmpty_iff, hne, if_false]

/-- A digit is neither white space nor a sign. -/
theorem sign_of_isDigit {b : Byte} (h : Ascii.isDigit b = true) (s : Bytes) :
    (b :: s).dropWhile Ascii.isSpace = b :: s ∧ sign (b :: s) = (false, b :: s) := by
  simp only [Ascii.isDigit, Bool.and_eq_true, decide_eq_true_eq] at h
  have hspace : Ascii.isSpace b = false := by
    simp only [Ascii.isSpace, Ascii.space, Ascii.tab, Ascii.cr]
    grind
  have hminus : b ≠ Ascii.minus := by
    rintro rfl
    exact absurd h.1 (by decide)
  have hplus : b ≠ Ascii.plus := by
    rintro rfl
    exact absurd h.1 (by decide)
  exact ⟨List.dropWhile_cons_of_neg (by simp [hspace]), by rw [sign, if_neg hminus, if_neg hplus]⟩

/-- A byte that is neither a point nor the marker of an exponent. -/
theorem not_marker_iff {b : Byte} :
    (b == Ascii.dot || Ascii.lower b == 0x65) = false ↔ b ≠ Ascii.dot ∧ Ascii.lower b ≠ 0x65 := by
  rw [Bool.or_eq_false_iff, beq_eq_false_iff_ne, beq_eq_false_iff_ne]

/-- A digit is neither a point nor the marker of an exponent. -/
theorem not_marker_of_isDigit {b : Byte} (h : Ascii.isDigit b = true) :
    (b == Ascii.dot || Ascii.lower b == 0x65) = false := by
  have hupper : Ascii.isUpper b = false := by
    simp only [Ascii.isDigit, Ascii.isUpper] at h ⊢
    grind
  have hdot : b ≠ Ascii.dot := by
    rintro rfl
    exact absurd h (by decide)
  have hmarker : b ≠ 0x65 := by
    rintro rfl
    exact absurd h (by decide)
  rw [Ascii.lower, hupper]
  simp [hdot, hmarker]

/-- **The numeral of an integer** is read back. -/
theorem integer?_signedDecimal (n : Int) : integer? (Bytes.signedDecimal n) = some (n, []) := by
  cases n with
  | ofNat n =>
      obtain ⟨b, digits, h⟩ := List.exists_cons_of_ne_nil (Bytes.decimal_ne_nil n)
      have hb : Ascii.isDigit b = true := Bytes.isDigit_of_mem_decimal (h ▸ List.mem_cons_self)
      obtain ⟨hspace, hsign⟩ := sign_of_isDigit hb digits
      rw [← h] at hspace hsign
      rw [Bytes.signedDecimal, integer?_of_sign hspace hsign (Bytes.decimal_ne_nil n)
        fun d hd => Bytes.isDigit_of_mem_decimal hd, ofDigits_decimal]
      rfl
  | negSucc n =>
      have hsign : sign (Ascii.minus :: Bytes.decimal (n + 1)) = (true, Bytes.decimal (n + 1)) :=
        rfl
      rw [Bytes.signedDecimal, integer?_of_sign rfl hsign (Bytes.decimal_ne_nil (n + 1))
        fun d hd => Bytes.isDigit_of_mem_decimal hd, ofDigits_decimal]
      rfl

end Numeral

end DoctypeProbe
