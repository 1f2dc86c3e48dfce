import DoctypeProbe.Proofs.Number.Numeral
import Mathlib.Data.List.DropRight

/-!
# What a Numeral Is

An integer is spelled by a sign, which may be missing, and digits. A decimal number is spelled by a
sign, digits with at most one point among them, and an exponent, which may be missing, but has
digits if it is there.

`Numeral.decimal?` reads such a numeral off the front of a text, and does not say where it ends.
It ends where no longer opening of the text is a numeral (`Numeral.afterDecimal`). So a text is
read to its end exactly if it is a numeral.

## Main results

* `Numeral.exists_spellsDecimal`: what is read is spelled by an opening of the text.
* `Numeral.afterDecimal_suffix`: no longer opening spells a decimal number.
* `Numeral.SpellsInteger.integer?_eq`, `Numeral.SpellsDecimal.decimal?_eq`: a numeral is read as the
  number that it spells.
-/

namespace DoctypeProbe

namespace Numeral

/-! ### Grammar -/

/-- A text of digits. -/
def IsDigits (s : Bytes) : Prop := ∀ b ∈ s, Ascii.isDigit b = true

/-- A sign, which may be missing, and whether it is a minus sign. -/
inductive IsSign : Bytes → Bool → Prop
  | absent : IsSign [] false
  | plus : IsSign [Ascii.plus] false
  | minus : IsSign [Ascii.minus] true

/-- The numeral of an integer. -/
inductive SpellsInteger : Bytes → Int → Prop
  | intro {signs digits : Bytes} {negative : Bool} : IsSign signs negative → IsDigits digits →
      digits ≠ [] → SpellsInteger (signs ++ digits) (signed negative (ofDigits digits))

/-- A point and the digits behind it; both may be missing. -/
inductive IsFraction : Bytes → Bytes → Prop
  | absent : IsFraction [] []
  | point {digits : Bytes} : IsDigits digits → IsFraction (Ascii.dot :: digits) digits

/-- The exponent of a numeral, which may be missing, but has digits if it is there. -/
inductive IsExponent : Bytes → Int → Prop
  | absent : IsExponent [] 0
  | marked {marker : Byte} {signs digits : Bytes} {negative : Bool} : Ascii.lower marker = 0x65 →
      IsSign signs negative → IsDigits digits → digits ≠ [] →
      IsExponent (marker :: (signs ++ digits)) (signed negative (ofDigits digits))

/-- The numeral of a decimal number: there are digits before its point or behind it. -/
inductive SpellsDecimal : Bytes → Decimal → Prop
  | intro {signs whole point fraction power : Bytes} {negative : Bool} {exponent : Int} :
      IsSign signs negative → IsDigits whole → IsFraction point fraction →
      whole ++ fraction ≠ [] → IsExponent power exponent →
      SpellsDecimal (signs ++ (whole ++ (point ++ power)))
        ⟨negative, ofDigits (whole ++ fraction), exponent - fraction.length⟩

/-- The numeral of an integer is that of a decimal number as well. -/
theorem SpellsInteger.decimal {s : Bytes} {n : Int} (h : SpellsInteger s n) :
    ∃ d, SpellsDecimal s d := by
  cases h with
  | @intro signs digits negative hsigns hdigits hne =>
      have hwhole : digits ++ [] ≠ [] := by rwa [List.append_nil]
      have hspells := SpellsDecimal.intro hsigns hdigits .absent hwhole .absent
      rw [List.append_nil, List.append_nil] at hspells
      exact ⟨_, hspells⟩

/-! ### What is left behind a numeral -/

/-- A text without the digits that it begins with. -/
def afterDigits (s : Bytes) : Bytes := s.dropWhile Ascii.isDigit

/-- The digits of the fraction that a text begins with. -/
def fractionDigits : Bytes → Bytes
  | [] => []
  | b :: s => if b = Ascii.dot then s.takeWhile Ascii.isDigit else []

/-- A text without the fraction that it begins with. -/
def afterFraction : Bytes → Bytes
  | [] => []
  | b :: s => if b = Ascii.dot then afterDigits s else b :: s

/-- A text without the exponent that it begins with. A marker without digits is none. -/
def afterExponent : Bytes → Bytes
  | [] => []
  | b :: s =>
    if Ascii.lower b = 0x65 ∧ (sign s).2.takeWhile Ascii.isDigit ≠ [] then afterDigits (sign s).2
    else b :: s

/-- What is left of a text when a decimal number has been read. -/
def afterDecimal (s : Bytes) : Bytes := afterExponent (afterFraction (afterDigits (sign s).2))

theorem decimal?_eq (s : Bytes) :
    decimal? s =
      let whole := (sign s).2.takeWhile Ascii.isDigit
      let rest := afterDigits (sign s).2
      if whole ++ fractionDigits rest = [] then none
      else some ⟨(sign s).1, ofDigits (whole ++ fractionDigits rest),
        exponent (afterFraction rest) - (fractionDigits rest).length⟩ := by
  rw [decimal?]
  obtain ⟨negative, u⟩ := sign s
  simp only [afterDigits, List.append_eq_nil_iff, Bool.and_eq_true, List.isEmpty_iff]
  cases u.dropWhile Ascii.isDigit with
  | nil => rfl
  | cons b t =>
      simp only [fractionDigits, afterFraction, afterDigits]
      split_ifs <;> rfl

/-! ### What is read is spelled -/

theorem isDigits_takeWhile (s : Bytes) : IsDigits (s.takeWhile Ascii.isDigit) :=
  fun _ hb => List.mem_takeWhile_imp hb

theorem takeWhile_append_afterDigits (s : Bytes) :
    s.takeWhile Ascii.isDigit ++ afterDigits s = s := List.takeWhile_append_dropWhile

/-- A text begins with a sign, which may be missing. -/
theorem exists_sign (s : Bytes) : ∃ signs, s = signs ++ (sign s).2 ∧ IsSign signs (sign s).1 := by
  cases s with
  | nil => exact ⟨[], rfl, .absent⟩
  | cons b s =>
      rw [sign]
      split_ifs with hminus hplus
      · exact ⟨[b], rfl, hminus ▸ .minus⟩
      · exact ⟨[b], rfl, hplus ▸ .plus⟩
      · exact ⟨[], rfl, .absent⟩

theorem exists_fraction (s : Bytes) :
    ∃ point, s = point ++ afterFraction s ∧ IsFraction point (fractionDigits s) := by
  cases s with
  | nil => exact ⟨[], rfl, .absent⟩
  | cons b s =>
      rw [afterFraction, fractionDigits]
      split_ifs with hdot
      · refine ⟨b :: s.takeWhile Ascii.isDigit, ?_, hdot ▸ .point (isDigits_takeWhile s)⟩
        rw [List.cons_append, takeWhile_append_afterDigits]
      · exact ⟨[], rfl, .absent⟩

theorem exists_exponent (s : Bytes) :
    ∃ power, s = power ++ afterExponent s ∧ IsExponent power (exponent s) := by
  cases s with
  | nil => exact ⟨[], rfl, .absent⟩
  | cons b s =>
      obtain ⟨signs, hs, hsigns⟩ := exists_sign s
      rw [afterExponent, exponent]
      by_cases hmarker : Ascii.lower b = 0x65
      · by_cases hne : (sign s).2.takeWhile Ascii.isDigit = []
        · -- a marker without digits stands for no exponent
          have hzero : ∀ negative, signed negative (ofDigits []) = 0 := by decide
          rw [if_neg fun h => h.2 hne, if_pos hmarker]
          simp only [hne, hzero]
          exact ⟨[], rfl, .absent⟩
        · rw [if_pos ⟨hmarker, hne⟩, if_pos hmarker]
          refine ⟨b :: (signs ++ (sign s).2.takeWhile Ascii.isDigit), ?_,
            .marked hmarker hsigns (isDigits_takeWhile _) hne⟩
          rw [List.cons_append, List.append_assoc, takeWhile_append_afterDigits, ← hs]
      · rw [if_neg fun h => hmarker h.1, if_neg hmarker]
        exact ⟨[], rfl, .absent⟩

/-- **What is read is spelled** by an opening of the text. -/
theorem exists_spellsDecimal {s : Bytes} {d : Decimal} (h : decimal? s = some d) :
    ∃ numeral, s = numeral ++ afterDecimal s ∧ SpellsDecimal numeral d := by
  rw [decimal?_eq] at h
  obtain ⟨signs, hs, hsigns⟩ := exists_sign s
  obtain ⟨point, hpoint, hfraction⟩ := exists_fraction (afterDigits (sign s).2)
  obtain ⟨power, hpower, hexponent⟩ :=
    exists_exponent (afterFraction (afterDigits (sign s).2))
  dsimp only at h
  split_ifs at h with hne
  cases h
  refine ⟨_, ?_, .intro hsigns (isDigits_takeWhile _) hfraction hne hexponent⟩
  rw [List.append_assoc, List.append_assoc, List.append_assoc, afterDecimal, ← hpower, ← hpoint,
    takeWhile_append_afterDigits, ← hs]

/-- The same of integers, where no white space stands before them. -/
theorem exists_spellsInteger {s rest : Bytes} {n : Int} (hspace : s.dropWhile Ascii.isSpace = s)
    (h : integer? s = some (n, rest)) :
    ∃ numeral, s = numeral ++ rest ∧ SpellsInteger numeral n := by
  obtain ⟨signs, hs, hsigns⟩ := exists_sign s
  rw [integer?, hspace] at h
  simp only [List.isEmpty_iff] at h
  split_ifs at h with hne
  obtain ⟨rfl, rfl⟩ := Prod.mk.inj (Option.some.inj h)
  refine ⟨_, ?_, .intro hsigns (isDigits_takeWhile _) hne⟩
  rw [List.append_assoc, List.takeWhile_append_dropWhile, ← hs]

/-- White space before a numeral does not count. -/
theorem integer?_append {blank : Bytes} (h : ∀ b ∈ blank, Ascii.isSpace b = true) (s : Bytes) :
    integer? (blank ++ s) = integer? s := by
  rw [integer?, List.dropWhile_append_of_pos h, ← integer?]

/-- An integer that is read to the end of a text is spelled behind white space. -/
theorem exists_blank {s : Bytes} {n : Int} (h : integer? s = some (n, [])) :
    ∃ blank numeral, s = blank ++ numeral ∧ (∀ b ∈ blank, Ascii.isSpace b = true) ∧
      SpellsInteger numeral n := by
  have hsplit := (List.takeWhile_append_dropWhile (p := Ascii.isSpace) (l := s)).symm
  have hblank : ∀ b ∈ s.takeWhile Ascii.isSpace, Ascii.isSpace b = true :=
    fun _ hb => List.mem_takeWhile_imp hb
  rw [hsplit, integer?_append hblank] at h
  obtain ⟨numeral, hnumeral, hspells⟩ := exists_spellsInteger (List.dropWhile_idempotent _ _) h
  rw [List.append_nil] at hnumeral
  exact ⟨_, numeral, hnumeral ▸ hsplit, hblank, hspells⟩

/-! ### What is spelled is read -/

/-- A point or a marker ends digits. -/
theorem not_isDigit_of_marker {b : Byte} (h : b = Ascii.dot ∨ Ascii.lower b = 0x65) :
    ¬Ascii.isDigit b = true := by
  intro hdigit
  obtain ⟨hdot, hlower⟩ := not_marker_iff.mp (not_marker_of_isDigit hdigit)
  exact h.elim hdot hlower

theorem IsDigits.takeWhile_append {digits : Bytes} (h : IsDigits digits) (rest : Bytes) :
    (digits ++ rest).takeWhile Ascii.isDigit = digits ++ rest.takeWhile Ascii.isDigit :=
  List.takeWhile_append_of_pos h

theorem IsDigits.afterDigits_append {digits : Bytes} (h : IsDigits digits) (rest : Bytes) :
    afterDigits (digits ++ rest) = afterDigits rest :=
  List.dropWhile_append_of_pos h

/-- A sign is taken off what is not a sign itself. -/
theorem IsSign.sign_append {signs : Bytes} {negative : Bool} (h : IsSign signs negative) {b : Byte}
    (hb : Ascii.isDigit b = true ∨ b = Ascii.dot) (rest : Bytes) :
    sign (signs ++ b :: rest) = (negative, b :: rest) := by
  have hplain : sign (b :: rest) = (false, b :: rest) := by
    rcases hb with hb | rfl
    · exact (sign_of_isDigit hb rest).2
    · rfl
  cases h with
  | absent => exact hplain
  | plus => rfl
  | minus => rfl

/-- A sign is taken off the digits of a number, or its point. -/
theorem IsSign.sign_mantissa {signs whole point fraction : Bytes} {negative : Bool}
    (h : IsSign signs negative) (hwhole : IsDigits whole) (hfraction : IsFraction point fraction)
    (hne : whole ++ fraction ≠ []) (rest : Bytes) :
    sign (signs ++ (whole ++ (point ++ rest))) = (negative, whole ++ (point ++ rest)) := by
  rcases whole with - | ⟨b, whole⟩
  · cases hfraction with
    | absent => exact absurd rfl hne
    | point hdigits => exact h.sign_append (Or.inr rfl) _
  · exact h.sign_append (Or.inl (hwhole b List.mem_cons_self)) _

/-- What a point and its digits are taken for, whatever stands behind them. -/
theorem IsFraction.eq_nil_or {point fraction : Bytes} (h : IsFraction point fraction) :
    (point = [] ∧ fraction = []) ∨ ∀ rest, (point ++ rest).takeWhile Ascii.isDigit = [] ∧
      afterDigits (point ++ rest) = point ++ rest ∧
      fractionDigits (point ++ rest) = fraction ++ rest.takeWhile Ascii.isDigit ∧
      afterFraction (point ++ rest) = afterDigits rest := by
  cases h with
  | absent => exact Or.inl ⟨rfl, rfl⟩
  | point hdigits =>
      refine Or.inr fun rest => ?_
      have hdot : ¬Ascii.isDigit Ascii.dot = true := not_isDigit_of_marker (Or.inl rfl)
      rw [List.cons_append, fractionDigits, if_pos rfl, hdigits.takeWhile_append, afterFraction,
        if_pos rfl, hdigits.afterDigits_append]
      exact ⟨List.takeWhile_cons_of_neg hdot, List.dropWhile_cons_of_neg hdot, rfl, rfl⟩

/-- What an exponent is taken for, whatever stands behind it. -/
theorem IsExponent.eq_nil_or {power : Bytes} {e : Int} (h : IsExponent power e) :
    power = [] ∨ ∀ rest, (power ++ rest).takeWhile Ascii.isDigit = [] ∧
      afterDigits (power ++ rest) = power ++ rest ∧ fractionDigits (power ++ rest) = [] ∧
      afterFraction (power ++ rest) = power ++ rest ∧
      afterExponent (power ++ rest) = afterDigits rest := by
  cases h with
  | absent => exact Or.inl rfl
  | @marked marker signs digits negative hmarker hsigns hdigits hne =>
      refine Or.inr fun rest => ?_
      have hdigit : ¬Ascii.isDigit marker = true := not_isDigit_of_marker (Or.inr hmarker)
      have hdot : marker ≠ Ascii.dot := by
        rintro rfl
        exact absurd hmarker (by decide)
      have hsign : (sign (signs ++ (digits ++ rest))).2 = digits ++ rest := by
        obtain ⟨b, digits, rfl⟩ := List.exists_cons_of_ne_nil hne
        exact congrArg Prod.snd (hsigns.sign_append (Or.inl (hdigits b List.mem_cons_self)) _)
      have htake : (digits ++ rest).takeWhile Ascii.isDigit ≠ [] := by
        rw [hdigits.takeWhile_append]
        exact List.append_ne_nil_of_left_ne_nil hne _
      rw [List.cons_append, List.append_assoc]
      refine ⟨List.takeWhile_cons_of_neg hdigit, List.dropWhile_cons_of_neg hdigit, if_neg hdot,
        if_neg hdot, ?_⟩
      rw [afterExponent, hsign, if_pos ⟨hmarker, htake⟩, hdigits.afterDigits_append]

theorem IsExponent.exponent_eq {power : Bytes} {e : Int} (h : IsExponent power e) :
    exponent power = e := by
  cases h with
  | absent => rfl
  | @marked marker signs digits negative hmarker hsigns hdigits hne =>
      have hsign : sign (signs ++ digits) = (negative, digits) := by
        obtain ⟨b, digits, rfl⟩ := List.exists_cons_of_ne_nil hne
        exact hsigns.sign_append (Or.inl (hdigits b List.mem_cons_self)) _
      rw [exponent, if_pos hmarker, hsign]
      simp only [List.takeWhile_eq_self_iff.mpr hdigits]

/-- A numeral begins with a sign or a digit, and goes on with digits. -/
theorem SpellsInteger.exists_cons {s : Bytes} {n : Int} (h : SpellsInteger s n) :
    ∃ b digits, s = b :: digits ∧ IsDigits digits ∧
      (b = Ascii.plus ∨ b = Ascii.minus ∨ Ascii.isDigit b = true) := by
  cases h with
  | @intro signs digits negative hsigns hdigits hne =>
      obtain ⟨d, ds, rfl⟩ := List.exists_cons_of_ne_nil hne
      obtain ⟨hd, hds⟩ := List.forall_mem_cons.mp hdigits
      cases hsigns with
      | absent => exact ⟨d, ds, rfl, hds, Or.inr (Or.inr hd)⟩
      | plus => exact ⟨_, _, rfl, hdigits, Or.inl rfl⟩
      | minus => exact ⟨_, _, rfl, hdigits, Or.inr (Or.inl rfl)⟩

/-- **The numeral of an integer** is read as the integer that it spells. -/
theorem SpellsInteger.integer?_eq {s : Bytes} {n : Int} (h : SpellsInteger s n) :
    integer? s = some (n, []) := by
  cases h with
  | @intro signs digits negative hsigns hdigits hne =>
      obtain ⟨d, ds, rfl⟩ := List.exists_cons_of_ne_nil hne
      have hd := hdigits d List.mem_cons_self
      have hspace : (signs ++ d :: ds).dropWhile Ascii.isSpace = signs ++ d :: ds := by
        cases hsigns with
        | absent => exact (sign_of_isDigit hd ds).1
        | plus => rfl
        | minus => rfl
      exact integer?_of_sign hspace (hsigns.sign_append (Or.inl hd) ds) hne hdigits

/-- **A numeral** is read as the number that it spells. -/
theorem SpellsDecimal.decimal?_eq {s : Bytes} {d : Decimal} (h : SpellsDecimal s d) :
    decimal? s = some d := by
  cases h with
  | @intro signs whole point fraction power negative e hsigns hwhole hfraction hne hpower =>
      have hend : power.takeWhile Ascii.isDigit = [] ∧ afterDigits power = power ∧
          fractionDigits power = [] ∧ afterFraction power = power := by
        rcases hpower.eq_nil_or with rfl | h
        · exact ⟨rfl, rfl, rfl, rfl⟩
        · obtain ⟨htake, hafter, hdigits, hrest, -⟩ := h []
          rw [List.append_nil] at htake hafter hdigits hrest
          exact ⟨htake, hafter, hdigits, hrest⟩
      have hsplit : (point ++ power).takeWhile Ascii.isDigit = [] ∧
          afterDigits (point ++ power) = point ++ power ∧
          fractionDigits (point ++ power) = fraction ∧ afterFraction (point ++ power) = power := by
        rcases hfraction.eq_nil_or with ⟨rfl, rfl⟩ | h
        · exact hend
        · obtain ⟨htake, hafter, hdigits, hrest⟩ := h power
          rw [hend.1, List.append_nil] at hdigits
          rw [hend.2.1] at hrest
          exact ⟨htake, hafter, hdigits, hrest⟩
      obtain ⟨htake, hafter, hdigits, hrest⟩ := hsplit
      rw [Numeral.decimal?_eq, hsigns.sign_mantissa hwhole hfraction hne]
      simp only [hwhole.takeWhile_append, htake, List.append_nil, hwhole.afterDigits_append, hafter,
        hdigits, hrest, hpower.exponent_eq, if_neg hne]

/-- A text that begins with a numeral is read as some number. -/
theorem SpellsDecimal.isSome_decimal? {s : Bytes} {d : Decimal} (h : SpellsDecimal s d)
    (rest : Bytes) : (decimal? (s ++ rest)).isSome := by
  cases h with
  | @intro signs whole point fraction power negative e hsigns hwhole hfraction hne hpower =>
      simp only [List.append_assoc]
      rw [Numeral.decimal?_eq, hsigns.sign_mantissa hwhole hfraction hne]
      have hdigits : (whole ++ (point ++ (power ++ rest))).takeWhile Ascii.isDigit ++
          fractionDigits (afterDigits (whole ++ (point ++ (power ++ rest)))) ≠ [] := by
        rw [hwhole.takeWhile_append, hwhole.afterDigits_append, List.append_assoc]
        rcases hfraction.eq_nil_or with ⟨rfl, rfl⟩ | h
        · rw [List.append_nil] at hne
          exact List.append_ne_nil_of_left_ne_nil hne _
        · obtain ⟨htake, hafter, hdigits, -⟩ := h (power ++ rest)
          rw [htake, hafter, hdigits, List.nil_append, ← List.append_assoc]
          exact List.append_ne_nil_of_left_ne_nil hne _
      dsimp only
      rw [if_neg hdigits]
      rfl

theorem afterDigits_suffix (s : Bytes) : afterDigits s <:+ s := List.dropWhile_suffix _

theorem afterFraction_suffix (s : Bytes) : afterFraction s <:+ s := by
  obtain ⟨point, hs, -⟩ := exists_fraction s
  exact ⟨point, hs.symm⟩

theorem afterExponent_suffix (s : Bytes) : afterExponent s <:+ s := by
  obtain ⟨power, hs, -⟩ := exists_exponent s
  exact ⟨power, hs.symm⟩

/-- **No longer opening of a text is a numeral**: behind every opening that spells a decimal number
stands all that is left when one has been read. -/
theorem SpellsDecimal.afterDecimal_suffix {s : Bytes} {d : Decimal} (h : SpellsDecimal s d)
    (rest : Bytes) : afterDecimal (s ++ rest) <:+ rest := by
  cases h with
  | @intro signs whole point fraction power negative e hsigns hwhole hfraction hne hpower =>
      simp only [List.append_assoc]
      rw [afterDecimal, hsigns.sign_mantissa hwhole hfraction hne, hwhole.afterDigits_append]
      rcases hfraction.eq_nil_or with ⟨rfl, rfl⟩ | h
      · rw [List.nil_append]
        rcases hpower.eq_nil_or with rfl | h
        · exact ((afterExponent_suffix _).trans (afterFraction_suffix _)).trans
            (afterDigits_suffix rest)
        · obtain ⟨-, hafter, -, hfrac, hexp⟩ := h rest
          rw [hafter, hfrac, hexp]
          exact afterDigits_suffix rest
      · obtain ⟨-, hstay, -, hfrac⟩ := h (power ++ rest)
        rw [hstay, hfrac]
        rcases hpower.eq_nil_or with rfl | h
        · exact (afterExponent_suffix _).trans (afterDigits_suffix rest)
        · obtain ⟨-, hafter, -, -, hexp⟩ := h rest
          rw [hafter, hexp]
          exact afterDigits_suffix rest

/-- A numeral is read to its end. -/
theorem SpellsDecimal.afterDecimal_eq_nil {s : Bytes} {d : Decimal} (h : SpellsDecimal s d) :
    afterDecimal s = [] := by
  have hsuffix := h.afterDecimal_suffix []
  rw [List.append_nil] at hsuffix
  exact List.suffix_nil.mp hsuffix

end Numeral

end DoctypeProbe
