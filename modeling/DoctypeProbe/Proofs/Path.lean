import DoctypeProbe.Path
import DoctypeProbe.Proofs.Bytes.Fields
import Mathlib.Data.List.DropRight

/-!
# The Last Name of a Path

A path that does not end in a slash is a directory and a name in it. The directory is what stands
before the name, up to a slash, and the names of the path are those of the directory and this name.

## Main results

* `Path.names_ofText`: the names of a path are the fields of its text.
* `Path.exists_eq_append_fileName`: a path is its last name and what leads to it.
* `Path.names_append`: the names of a path that leads to a name.
-/

namespace DoctypeProbe

namespace Path

/-! ### The parts of a path that is read from a text -/

theorem isEmpty_ofText (t : Bytes) : (ofText t).isEmpty = t.isEmpty := by
  cases t with
  | nil => rfl
  | cons b t =>
      rw [ofText]
      split
      · rfl
      · split
        · rfl
        · rfl

/-- A path is absolute if its text begins with a slash. -/
theorem isAbsolute_ofText (t : Bytes) :
    (ofText t).isAbsolute = (t.head? == some Ascii.slash) := by
  rw [ofText]
  split
  · rename_i hall
    cases t with
    | nil => rfl
    | cons b t =>
        have hb : (b == Ascii.slash) = true := List.all_eq_true.mp hall b List.mem_cons_self
        rw [beq_iff_eq] at hb
        subst hb
        rfl
  · split
    · rename_i hhead
      rw [hhead]
      rfl
    · rename_i hhead
      exact (beq_eq_false_iff_ne.mpr hhead).symm

/-- **The names of a path** are the fields of its text that are not empty. -/
theorem names_ofText (t : Bytes) :
    (ofText t).names = (Bytes.fields t Ascii.slash).filter (!·.isEmpty) := by
  rw [ofText]
  split
  · rename_i hall
    induction t with
    | nil => rfl
    | cons b t ih =>
        rw [List.all_cons, Bool.and_eq_true, beq_iff_eq] at hall
        obtain ⟨rfl, hall⟩ := hall
        rw [Bytes.fields, if_pos rfl]
        exact ih hall
  · split
    · rename_i hhead
      obtain ⟨tail, rfl⟩ := List.head?_eq_some_iff.mp hhead
      rw [Bytes.fields, if_pos rfl]
      rfl
    · rfl

/-! ### The last name -/

/-- What stands at the end of a text up to a byte does not depend on such a byte in front. -/
theorem rtakeWhile_cons_of_neg {p : Byte → Bool} {b : Byte} (h : ¬p b = true) (s : Bytes) :
    (b :: s).rtakeWhile p = s.rtakeWhile p := by
  induction s using List.reverseRecOn with
  | nil => exact List.rtakeWhile_concat_neg p [] b h
  | append_singleton s c ih =>
      rw [← List.cons_append, List.rtakeWhile_concat, List.rtakeWhile_concat, ih]

/-- **The last name of a path** is what stands behind the last slash of its text. -/
theorem fileName_ofText (t : Bytes) :
    (ofText t).fileName = t.rtakeWhile (· != Ascii.slash) := by
  rw [ofText]
  split
  · rename_i hall
    refine (List.rtakeWhile_eq_nil_iff.mpr fun hne => ?_).symm
    have hlast := List.all_eq_true.mp hall _ (List.getLast_mem hne)
    rw [bne, hlast]
    exact Bool.false_ne_true
  · split
    · rename_i hhead
      obtain ⟨tail, rfl⟩ := List.head?_eq_some_iff.mp hhead
      exact (rtakeWhile_cons_of_neg (by decide) tail).symm
    · rfl

/-- A text in front of a name: it is empty, or a slash keeps it apart from the name. -/
def Leads (front : Bytes) : Prop := front = [] ∨ ∃ s, front = s ++ [Ascii.slash]

/-- A name is the last one of a path that leads to it. -/
theorem names_append {front name : Bytes} (hfront : Leads front) (hname : Ascii.slash ∉ name)
    (hne : name ≠ []) : (ofText (front ++ name)).names = (ofText front).names ++ [name] := by
  have hfields : Bytes.fields (front ++ name) Ascii.slash =
      Bytes.fields front Ascii.slash ++ [name] := by
    rcases hfront with rfl | ⟨s, rfl⟩
    · exact Bytes.fields_of_not_mem hname hne
    · rw [List.append_assoc, List.singleton_append, Bytes.fields_append_separator,
        Bytes.fields_of_not_mem hname hne]
  rw [names_ofText, names_ofText, hfields, List.filter_append, List.filter_singleton,
    List.isEmpty_eq_false_iff.mpr hne]
  rfl

/-- **A path and its last name**, with what leads to it. -/
theorem exists_eq_append_fileName (t : Bytes) :
    ∃ front, t = front ++ (ofText t).fileName ∧ Leads front ∧
      Ascii.slash ∉ (ofText t).fileName := by
  rw [fileName_ofText]
  refine ⟨t.rdropWhile (· != Ascii.slash), List.rdropWhile_append_rtakeWhile.symm, ?_,
    fun hmem => absurd (List.mem_rtakeWhile_imp hmem) (by decide)⟩
  by_cases hnil : t.rdropWhile (· != Ascii.slash) = []
  · exact Or.inl hnil
  · have hlast := List.rdropWhile_last_not (· != Ascii.slash) t hnil
    rw [bne_iff_ne, not_not] at hlast
    exact Or.inr ⟨_, hlast ▸ (List.dropLast_append_getLast hnil).symm⟩

end Path

end DoctypeProbe
