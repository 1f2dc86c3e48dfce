import DoctypeProbe.Keyed
import Mathlib.Data.List.Basic

/-!
# Entries in Order

Entries by key are kept in increasing order of their keys, with one entry a key. That order is
what makes two of them equal as soon as they hold the same: a list of entries is determined by
what its keys find.

## Main results

* `Keyed.Increasing.insert`: putting a value at a key keeps the order.
* `Keyed.Increasing.ext`: entries in order that hold the same are equal.
-/

namespace DoctypeProbe

namespace Keyed

variable {α : Type} {entries entries' : Keyed α} {key : Bytes} {value : α}

/-- Entries in increasing order of their keys, one a key. -/
def Increasing (entries : Keyed α) : Prop := entries.Pairwise fun a b => a.1 < b.1

theorem increasing_nil : Increasing ([] : Keyed α) := List.Pairwise.nil

theorem increasing_cons {entry : Bytes × α} :
    Increasing (entry :: entries) ↔ (∀ e ∈ entries, entry.1 < e.1) ∧ Increasing entries :=
  List.pairwise_cons

theorem lt_or_lt_of_ne {k k' : Bytes} (h : k ≠ k') : k < k' ∨ k' < k := by
  by_contra hn
  rw [not_or, List.not_lt, List.not_lt] at hn
  exact h (List.le_antisymm hn.2 hn.1)

/-- What a key finds is one of the entries. -/
theorem mem_of_get? (h : entries.get? key = some value) : (key, value) ∈ entries := by
  induction entries with
  | nil => cases h
  | cons entry rest ih =>
      obtain ⟨k, v⟩ := entry
      rw [get?_cons] at h
      split at h
      · rename_i hk
        cases h
        exact hk ▸ List.mem_cons_self
      · exact List.mem_cons_of_mem _ (ih h)

/-- A key finds its entry, if no other has the same key. -/
theorem get?_of_mem (hkeys : (entries.map Prod.fst).Nodup) (h : (key, value) ∈ entries) :
    entries.get? key = some value := by
  induction entries with
  | nil => cases h
  | cons entry rest ih =>
      obtain ⟨k, v⟩ := entry
      obtain ⟨hk, hrest⟩ := List.nodup_cons.mp hkeys
      rw [get?_cons]
      rcases List.mem_cons.mp h with he | hmem
      · cases he
        exact if_pos rfl
      · have hne : key ≠ k := fun he => hk (List.mem_map.mpr ⟨_, hmem, he⟩)
        rw [if_neg hne, ih hrest hmem]

/-- A key below all others finds nothing. -/
theorem get?_eq_none_of_lt (h : ∀ e ∈ entries, key < e.1) : entries.get? key = none := by
  rw [Option.eq_none_iff_forall_ne_some]
  exact fun v hv => List.lt_irrefl key (h _ (mem_of_get? hv))

theorem mem_insert {entry : Bytes × α} (h : entry ∈ entries.insert key value) :
    entry = (key, value) ∨ entry ∈ entries := by
  induction entries with
  | nil => exact Or.inl (List.mem_singleton.mp h)
  | cons first rest ih =>
      rw [insert] at h
      split at h
      · exact (List.mem_cons.mp h).imp_right (List.mem_cons_of_mem _)
      · split at h
        · exact List.mem_cons.mp h
        · rcases List.mem_cons.mp h with rfl | h
          · exact Or.inr List.mem_cons_self
          · exact (ih h).imp_right (List.mem_cons_of_mem _)

/-- **Putting a value at a key** keeps the order. -/
theorem Increasing.insert (h : Increasing entries) (key : Bytes) (value : α) :
    Increasing (entries.insert key value) := by
  induction entries with
  | nil => exact List.pairwise_singleton _ _
  | cons first rest ih =>
      obtain ⟨hfirst, hrest⟩ := increasing_cons.mp h
      rw [Keyed.insert]
      split
      · rename_i hk
        exact increasing_cons.mpr ⟨fun e he => hk ▸ hfirst e he, hrest⟩
      · rename_i hne
        split
        · rename_i hlt
          refine increasing_cons.mpr ⟨fun e he => ?_, h⟩
          rcases List.mem_cons.mp he with rfl | he
          · exact hlt
          · exact List.lt_trans hlt (hfirst e he)
        · rename_i hge
          have hlt : first.1 < key := (lt_or_lt_of_ne hne).resolve_left hge
          refine increasing_cons.mpr ⟨fun e he => ?_, ih hrest⟩
          rcases mem_insert he with rfl | he
          · exact hlt
          · exact hfirst e he

theorem get?_rest {k : Bytes} {v : α} (h : Increasing ((k, v) :: entries)) (key : Bytes) :
    entries.get? key = if key = k then none else get? ((k, v) :: entries) key := by
  rw [get?_cons]
  split
  · rename_i hk
    exact get?_eq_none_of_lt (hk ▸ (increasing_cons.mp h).1)
  · rfl

/-- The first key is one that is found, and no key below it is. -/
theorem not_lt_first {k k' : Bytes} {v : α} {rest : Keyed α} (h' : Increasing ((k', value) :: rest))
    (hget : ∀ key, get? ((k, v) :: entries) key = get? ((k', value) :: rest) key) : ¬ k < k' := by
  intro hlt
  have hk := hget k
  have hnone : get? ((k', value) :: rest) k = none := by
    refine get?_eq_none_of_lt fun e he => ?_
    rcases List.mem_cons.mp he with rfl | he
    · exact hlt
    · exact List.lt_trans hlt ((increasing_cons.mp h').1 e he)
  rw [get?_cons, if_pos rfl, hnone] at hk
  cases hk

/-- **Entries in order that hold the same** are equal. -/
theorem Increasing.ext (h : Increasing entries) (h' : Increasing entries')
    (hget : ∀ key, entries.get? key = entries'.get? key) : entries = entries' := by
  induction entries generalizing entries' with
  | nil =>
      rcases entries' with - | ⟨⟨k, v⟩, rest⟩
      · rfl
      · have hk := hget k
        rw [get?_cons, if_pos rfl] at hk
        cases hk
  | cons first rest ih =>
      obtain ⟨k, v⟩ := first
      rcases entries' with - | ⟨⟨k', v'⟩, rest'⟩
      · have hk := hget k
        rw [get?_cons, if_pos rfl] at hk
        cases hk
      · obtain rfl : k = k' := by
          by_contra hne
          rcases lt_or_lt_of_ne hne with hlt | hlt
          · exact not_lt_first h' hget hlt
          · exact not_lt_first h (fun key => (hget key).symm) hlt
        have hv := hget k
        rw [get?_cons, get?_cons, if_pos rfl, if_pos rfl] at hv
        obtain rfl := Option.some.inj hv
        rw [ih (increasing_cons.mp h).2 (increasing_cons.mp h').2 fun key => ?_]
        rw [get?_rest h, get?_rest h', hget]

end Keyed

end DoctypeProbe
