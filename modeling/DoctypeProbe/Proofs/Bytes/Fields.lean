import DoctypeProbe.Bytes

/-!
# Fields of a Text

A text with separators in it is a row of fields. Where a separator ends a field, the fields before
it and those behind it are read independently of each other.

## Main results

* `Bytes.fields_append`: a field in front of a separator.
* `Bytes.fields_append_separator`: what stands on either side of a separator.
* `Bytes.fields_append_singleton`: when a separator at the end makes no difference.
-/

namespace DoctypeProbe

namespace Bytes

/-- A field is what stands before a separator. -/
theorem fields_append {sep : Byte} {field : Bytes} (h : sep ∉ field) (s : Bytes) :
    fields (field ++ sep :: s) sep = field :: fields s sep := by
  induction field with
  | nil => simp [fields]
  | cons b field ih =>
      rw [List.mem_cons, not_or] at h
      rw [List.cons_append, fields, if_neg (Ne.symm h.1), ih h.2]

theorem fields_of_not_mem {sep : Byte} {field : Bytes} (h : sep ∉ field) (hne : field ≠ []) :
    fields field sep = [field] := by
  induction field with
  | nil => exact absurd rfl hne
  | cons b field ih =>
      rw [List.mem_cons, not_or] at h
      rw [fields, if_neg (Ne.symm h.1)]
      by_cases hf : field = []
      · subst hf
        rfl
      · rw [ih h.2 hf]

/-- The fields of a text have no separators in them. -/
theorem not_mem_of_mem_fields {sep : Byte} {s field : Bytes} (h : field ∈ fields s sep) :
    sep ∉ field := by
  induction s generalizing field with
  | nil => cases h
  | cons b s ih =>
      rw [fields] at h
      split at h
      · rcases List.mem_cons.mp h with rfl | h
        · simp
        · exact ih h
      · rename_i hb
        cases hf : fields s sep with
        | nil =>
            rw [hf] at h
            obtain rfl := List.mem_singleton.mp h
            simpa using Ne.symm hb
        | cons f fs =>
            rw [hf] at h ih
            rcases List.mem_cons.mp h with rfl | h
            · simpa using ⟨Ne.symm hb, ih List.mem_cons_self⟩
            · exact ih (List.mem_cons_of_mem _ h)

theorem fields_ne_nil {s : Bytes} (h : s ≠ []) (sep : Byte) : fields s sep ≠ [] := by
  cases s with
  | nil => exact absurd rfl h
  | cons b s =>
      rw [fields]
      split
      · exact List.cons_ne_nil _ _
      · split <;> exact List.cons_ne_nil _ _

/-- **The fields on both sides of a separator**, each side read on its own. -/
theorem fields_append_separator (front s : Bytes) (sep : Byte) :
    fields (front ++ sep :: s) sep = fields (front ++ [sep]) sep ++ fields s sep := by
  induction front with
  | nil => simp only [List.nil_append, fields, if_true, List.cons_append]
  | cons b front ih =>
      rw [List.cons_append, List.cons_append, fields, fields, ih]
      split
      · rfl
      · have hne : fields (front ++ [sep]) sep ≠ [] :=
          fields_ne_nil (List.append_ne_nil_of_right_ne_nil _ (List.cons_ne_nil _ _)) sep
        obtain ⟨field, rest, hfields⟩ := List.exists_cons_of_ne_nil hne
        rw [hfields]
        rfl

/-- **A separator at the end** only ends the last field, which there is unless the text is empty or
ends in a separator as it is. -/
theorem fields_append_singleton {s : Bytes} {sep : Byte} (hne : s ≠ [])
    (hlast : s.getLast? ≠ some sep) : fields (s ++ [sep]) sep = fields s sep := by
  induction s with
  | nil => exact absurd rfl hne
  | cons b s ih =>
      by_cases hs : s = []
      · subst hs
        have hb : b ≠ sep := by simpa using hlast
        simp [fields, hb]
      · rw [List.getLast?_cons_of_ne_nil hs] at hlast
        rw [List.cons_append, fields, fields, ih hs hlast]

end Bytes

end DoctypeProbe
