import DoctypeProbe.Bytes

/-!
# Keyed Values

Values by key, as a list of entries in increasing order of their keys with one entry a key.
Two lists of entries that hold the same values are then equal, and the entries are shown in
the order of their keys.

## Main results

* `Keyed.get?_insert` — a key finds what was put at it last.
-/

namespace DoctypeProbe

/-- Values by key, in increasing order of the keys. -/
abbrev Keyed (α : Type) := List (Bytes × α)

namespace Keyed

variable {α : Type}

/-- The value at a key. -/
def get? (entries : Keyed α) (key : Bytes) : Option α := entries.lookup key

/-- Puts a value at a key, in place of what stood there. -/
def insert (entries : Keyed α) (key : Bytes) (value : α) : Keyed α :=
  match entries with
  | [] => [(key, value)]
  | (k, v) :: rest =>
    if key = k then (key, value) :: rest
    else if key < k then (key, value) :: (k, v) :: rest
    else (k, v) :: insert rest key value

theorem get?_cons (k key : Bytes) (value : α) (rest : Keyed α) :
    get? ((k, value) :: rest) key = if key = k then some value else get? rest key := by
  by_cases h : key = k
  · simp [get?, h]
  · simp [get?, List.lookup_cons, beq_false_of_ne h, h]

/-- A key finds what was put at it, and the other keys find what they found before. -/
theorem get?_insert (entries : Keyed α) (key k : Bytes) (value : α) :
    (entries.insert key value).get? k = if k = key then some value else entries.get? k := by
  induction entries with
  | nil => simp [insert, get?_cons]
  | cons entry rest ih =>
    obtain ⟨k', v⟩ := entry
    unfold insert
    split
    · rename_i he
      subst he
      by_cases h : k = key <;> simp [get?_cons, h]
    · split
      · simp [get?_cons]
      · rename_i hne _
        by_cases h : k = k'
        · simp [get?_cons, h, Ne.symm hne]
        · simp [get?_cons, h, ih]

end Keyed

end DoctypeProbe
