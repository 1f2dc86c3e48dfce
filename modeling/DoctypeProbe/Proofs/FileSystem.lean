import DoctypeProbe.FileSystem

/-!
# File Systems That Differ in One File

Writing to a file changes what it holds and nothing else. Two file systems are alike outside a file
if the same names stand in the same places and every other file holds the same. Paths then lead to
the same in both, since what a path leads to depends on the names alone.

## Main results

* `FileSystem.sameOutside_append`: adding to a file keeps everything outside it.
* `FileSystem.content_append`: what files hold after that.
* `FileSystem.SameOutside.resolve`: paths lead to the same.
-/

namespace DoctypeProbe

namespace FileSystem

/-- File systems that are alike outside the file with a given number, if there is one: the same
names stand in the same places, and every other file holds the same. -/
structure SameOutside (number : Option Nat) (fs fs' : FileSystem) : Prop where
  /-- The working directory. -/
  workingDirectory : fs'.workingDirectory = fs.workingDirectory
  /-- What stands in each place. -/
  entries : fs'.entries = fs.entries
  /-- What each other file holds. -/
  content : ∀ n, number ≠ some n → fs'.content n = fs.content n

variable {number : Option Nat} {fs fs' fs'' : FileSystem}

theorem SameOutside.refl (number : Option Nat) (fs : FileSystem) : SameOutside number fs fs :=
  ⟨rfl, rfl, fun _ _ => rfl⟩

theorem SameOutside.trans (h : SameOutside number fs fs') (h' : SameOutside number fs' fs'') :
    SameOutside number fs fs'' where
  workingDirectory := h'.workingDirectory.trans h.workingDirectory
  entries := h'.entries.trans h.entries
  content n hn := (h'.content n hn).trans (h.content n hn)

/-- **Adding to a file** keeps everything outside it. -/
theorem sameOutside_append (fs : FileSystem) (n : Nat) (data : Bytes) :
    SameOutside (some n) fs (fs.append n data) where
  workingDirectory := rfl
  entries := rfl
  content m hm := by
    have hne : m ≠ n := by
      rintro rfl
      exact hm rfl
    rw [append, content_setContent, if_neg hne]

/-- **What files hold** after something has been added to one of them. -/
theorem content_append (fs : FileSystem) (n m : Nat) (data : Bytes) :
    (fs.append n data).content m = fs.content m ++ if n = m then data else [] := by
  rw [append, content_setContent]
  by_cases h : n = m
  · subst h
    rw [if_pos rfl, if_pos rfl]
  · rw [if_neg (Ne.symm h), if_neg h, List.append_nil]

/-! ### Following paths -/

/-- Following names depends on what stands in each place alone. -/
theorem follow_of_entries (h : fs'.entries = fs.entries) (place : Place) (entry : Entry)
    (names : List Bytes) : fs'.follow place entry names = fs.follow place entry names := by
  have hentry : ∀ place, fs'.entry? place = fs.entry? place := by
    intro place
    rw [ entry?, entry?, h]
  induction names generalizing place entry with
  | nil => cases entry <;> rfl
  | cons name names ih =>
      cases entry with
      | file n => rfl
      | directory => simp only [follow, ih, hentry]

/-- **Paths lead to the same.** -/
theorem SameOutside.resolve (h : SameOutside number fs fs') (path : Bytes) :
    fs'.resolve path = fs.resolve path := by
  simp only [FileSystem.resolve, h.workingDirectory, follow_of_entries h.entries]

/-- The working directory stays where it is. -/
theorem SameOutside.hasWorkingDirectory (h : SameOutside number fs fs') :
    fs'.HasWorkingDirectory ↔ fs.HasWorkingDirectory := by
  rw [HasWorkingDirectory, HasWorkingDirectory, h.workingDirectory, entry?, h.entries, entry?]

theorem SameOutside.isRegularFile (h : SameOutside number fs fs') (path : Bytes) :
    fs'.isRegularFile path = fs.isRegularFile path := by
  rw [FileSystem.isRegularFile, FileSystem.isRegularFile, h.resolve]

end FileSystem

end DoctypeProbe
