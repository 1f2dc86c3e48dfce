import DoctypeProbe.Loader
import DoctypeProbe.Proofs.FileSystem

/-!
# What Locations Lead To

A loader that asks no resolvers makes a file of every location that it accepts. Which file it is
depends on the location and on where regular files stand, and not on what they hold: the same
location is located in the same way while files are written to.

## Main results

* `Loader.exists_path_of_locate`: what is located is a file at a path that the location can lead to.
* `Loader.locate_congr`: writing to files does not change what is located.
-/

namespace DoctypeProbe

namespace Loader

variable {σ : Type} {loader : Loader σ} {location : Bytes} {resource : Resource σ}

theorem exists_path_of_search {files : FileSystem} {name : Bytes}
    (h : (loader.search files location name).1 = .ok resource) :
    ∃ path ∈ loader.searchPaths.map (candidate name), resource = .file path := by
  rw [search] at h
  split at h
  · rename_i directory hfound
    cases h
    exact ⟨_, List.mem_map_of_mem (List.mem_of_find?_eq_some hfound), rfl⟩
  · split at h
    · cases h
    · rename_i first rest hpaths
      cases h
      rw [hpaths]
      exact ⟨_, List.mem_map_of_mem List.mem_cons_self, rfl⟩

/-- **What is located** is a file at one of the paths that the location can lead to. -/
theorem exists_path_of_locate {files : FileSystem}
    (h : (loader.locate files location).1 = .ok resource) :
    ∃ path ∈ loader.pathsFor location, resource = .file path := by
  rw [locate] at h
  split at h
  · cases h
  · rw [pathsFor]
    rw [rule] at h
    split at h
    · cases h
      exact ⟨_, List.mem_singleton_self _, rfl⟩
    · cases h
      exact ⟨_, List.mem_singleton_self _, rfl⟩
    · cases h
      exact ⟨_, List.mem_singleton_self _, rfl⟩
    · exact exists_path_of_search h
    · cases h
    · cases h

/-- **Writing to a file** does not change what is located. -/
theorem locate_congr {number : Option Nat} {files files' : FileSystem}
    (h : FileSystem.SameOutside number files files') (loader : Loader σ) (location : Bytes) :
    loader.locate files' location = loader.locate files location := by
  simp only [locate, rule, search, h.isRegularFile]

end Loader

end DoctypeProbe
