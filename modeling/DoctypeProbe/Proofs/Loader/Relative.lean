import DoctypeProbe.Proofs.Loader
import DoctypeProbe.Proofs.Loader.Finding
import DoctypeProbe.Proofs.Path.Joining

/-!
# Relative Paths

A relative path is seen from a directory, and there are two ways to say from which one: as the base
directory of a loader, or by a file in the directory. The first joins the path to the directory as
it is written, the second to the parent of the file, which is read anew. Both lead to the same path
(`Loader.relative_paths_agree`), for paths that go up out of the directory, end in slashes or dots,
or stand below an empty directory as well.

What is called the same path here is what compares equal. Where the directory or the file is read
from a text, the two are the same as texts, too. They can differ in the root otherwise: a loader
with the base directory `//` finds `//x/y`, whose parent is read from `//x`, and there the second
slash is no part of the root.

## Main results

* `Loader.wellFormed_of_mem_pathsFor`: the paths of files that a loader finds.
* `Loader.relative_paths_agree`: a loader and a file in its base directory.
-/

namespace DoctypeProbe

namespace Loader

variable {σ : Type}

/-- A relative location: it is a plain path, and it does not start at the root. -/
structure IsRelative (location : Bytes) : Prop where
  /-- There is something in the location. -/
  ne_nil : location ≠ []
  /-- The location is no absolute path. -/
  not_absolute : ¬[Ascii.slash] <+: location
  /-- The location is not marked as a file. -/
  not_file : ¬fileMark <+: location
  /-- The location is not marked as a search. -/
  not_search : ¬searchMark <+: location
  /-- The mark of a scheme stands nowhere in the location. -/
  not_scheme : ¬schemeMark <:+: location

theorem IsRelative.isAbsolute_ofText {location : Bytes} (h : IsRelative location) :
    (Path.ofText location).isAbsolute = false := by
  rw [Path.isAbsolute_ofText, beq_eq_false_iff_ne]
  intro hhead
  obtain ⟨rest, rfl⟩ := List.head?_eq_some_iff.mp hhead
  exact h.not_absolute (List.prefix_append [Ascii.slash] rest)

/-- A relative location stands for the file at this path, seen from the base directory. -/
theorem finds_of_isRelative {loader : Loader σ} {files : FileSystem} {requests : Nat}
    {location : Bytes} (h : IsRelative location)
    (hpass : loader.AllPass files requests location) (resource : Resource σ) :
    loader.Finds files requests location resource ↔
      resource = .file (loader.baseDirectory.join (Path.ofText location)).normal :=
  finds_iff_of_governs (.plain h.not_absolute h.not_file h.not_search h.not_scheme) h.ne_nil hpass

/-- **The paths of files that a loader finds** are well-formed. -/
theorem wellFormed_of_mem_pathsFor {loader : Loader σ} {location : Bytes} {path : Path}
    (h : path ∈ loader.pathsFor location) : path.WellFormed := by
  rw [pathsFor] at h
  split at h
  · rw [List.mem_singleton.mp h]
    exact Path.wellFormed_ofText _
  · rw [List.mem_singleton.mp h]
    exact (Path.isNormal_normal _).wellFormed
  · rw [List.mem_singleton.mp h]
    exact (Path.isNormal_normal _).wellFormed
  · obtain ⟨directory, -, rfl⟩ := List.mem_map.mp h
    exact (Path.isNormal_normal _).wellFormed
  · cases h
  · cases h

/-- A loader and a file in its base directory lead to the same path. -/
theorem alike_of_file_in_base {base : Path} (hbase : base.WellFormed) {name location : Bytes}
    (hname : Ascii.slash ∉ name) (h : IsRelative location) :
    let found := (base.join (Path.ofText location)).normal
    let next := ((base.join (Path.ofText name)).parent.join (Path.ofText location)).normal
    found.Alike next ∧ ∀ text, base = Path.ofText text → found = next := by
  intro found next
  have hsame := Path.sameDirectory_parent_join hbase hname
  have hnext : next = _ := Path.normal_join_congr hsame h.isAbsolute_ofText
  have hroot : found.root = base.root :=
    (Path.root_normal _).trans (Path.root_join h.isAbsolute_ofText)
  rw [hnext]
  refine ⟨Path.alike_of_tail_eq ?_ rfl, ?_⟩
  · have habsolute := hsame.isAbsolute
    rw [Path.isAbsolute, Path.isAbsolute] at habsolute
    rw [Path.isAbsolute, Path.isAbsolute, hroot, habsolute]
  · rintro text rfl
    rw [Path.root_parent_join_ofText text hname, ← hroot]

/-- **Two ways to resolve a relative path agree.** Take any directory and any relative location.
Where all resolvers pass, a loader with this base directory finds one file, and a file in the
directory has one next to it at the location; the two paths compare equal, and they are the same if
the directory is read from a text. And for every path, the file at its own last name next to it has
a path that compares equal to its normal form, and that is the same if the path is read from a
text. -/
theorem relative_paths_agree :
    (∀ (loader : Loader σ) (files : FileSystem) (requests : Nat) (location : Bytes),
      loader.baseDirectory.WellFormed → IsRelative location →
      loader.AllPass files requests location →
        ∃ found next : Path,
          (∀ resource, loader.Finds files requests location resource ↔ resource = .file found) ∧
          (Resource.file (loader.baseDirectory.join (Path.ofText (ascii "x")))).createRelative
            location = .ok (.file next : Resource σ) ∧
          found.Alike next ∧
          ∀ text, loader.baseDirectory = Path.ofText text → found = next) ∧
    ∀ path : Path, path.WellFormed →
      ∃ next : Path,
        (Resource.file path).createRelative path.fileName = .ok (.file next : Resource σ) ∧
        next.Alike path.normal ∧ ∀ text, path = Path.ofText text → next = path.normal := by
  constructor
  · intro loader files requests location hbase hrelative hpass
    exact ⟨_, _, finds_of_isRelative hrelative hpass, rfl,
      alike_of_file_in_base hbase (by decide) hrelative⟩
  · intro path hpath
    refine ⟨_, rfl, ?_, ?_⟩
    · rw [Path.normal_parent_join_fileName hpath]
      refine Path.alike_of_tail_eq ?_ rfl
      rw [Path.isAbsolute, Path.isAbsolute, Path.root_normal]
      exact Path.isAbsolute_parent hpath
    · rintro text rfl
      rw [Path.normal_parent_join_fileName hpath, Path.root_parent_ofText, ← Path.root_normal]

/-- A loader with resolvers and a base directory that is written with more slashes than names. -/
def basedLoader : Loader Empty :=
  { sampleLoader with baseDirectory := Path.ofText (ascii "a//b/") }

/-- A path that leads up and out of its directory is found by a loader and next to a file alike, and
a path with a detour to its last name is put into normal form by that name. -/
theorem finds_relativeSample :
    basedLoader.baseDirectory.WellFormed ∧ IsRelative (ascii "../c/./") ∧
    basedLoader.AllPass {} 0 (ascii "../c/./") ∧
    basedLoader.Finds {} 0 (ascii "../c/./") (.file (Path.ofText (ascii "a/c/"))) ∧
    (Resource.file (basedLoader.baseDirectory.join (Path.ofText (ascii "x")))).createRelative
      (ascii "../c/./") = .ok (.file (Path.ofText (ascii "a/c/")) : Resource Empty) ∧
    (Path.ofText (ascii "/a/.//..")).WellFormed ∧
    (Resource.file (Path.ofText (ascii "/a/.//.."))).createRelative
      (Path.ofText (ascii "/a/.//..")).fileName = .ok (.file { root := 1 } : Resource Empty) := by
  have hbase : basedLoader.baseDirectory.WellFormed := Path.wellFormed_ofText _
  have hrelative : IsRelative (ascii "../c/./") :=
    ⟨by decide, by decide, by decide, by decide, by decide⟩
  have hpass : basedLoader.AllPass {} 0 (ascii "../c/./") :=
    exists_passes (List.forall_mem_cons.mpr ⟨rfl, List.forall_mem_singleton.mpr rfl⟩) 0
  have hpath := Path.wellFormed_ofText (ascii "/a/.//..")
  obtain ⟨hbased, hself⟩ := relative_paths_agree (σ := Empty)
  obtain ⟨found, next, hfinds, hnext, -, hsame⟩ := hbased basedLoader {} 0 _ hbase hrelative hpass
  obtain ⟨last, hlast, -, hnormal⟩ := hself _ hpath
  have hgoal : next = Path.ofText (ascii "a/c/") := by
    have hcreated := Resource.file.inj (Except.ok.inj hnext)
    rw [← hcreated]
    decide
  obtain rfl : found = next := hsame (ascii "a//b/") rfl
  obtain rfl : last = _ := hnormal _ rfl
  have hroot : (Path.ofText (ascii "/a/.//..")).normal = { root := 1 } := by decide
  rw [hroot] at hlast
  exact ⟨hbase, hrelative, hpass, (hfinds _).mpr (hgoal ▸ rfl), hgoal ▸ hnext, hpath, hlast⟩

-- a root of two slashes is lost where the parent is read anew, which the comparison overlooks
example :
    let path := (Path.ofText (ascii "//")).join (Path.ofText (ascii "x/y"))
    path.normal.text = ascii "//x/y" ∧
      (path.parent.join (Path.ofText path.fileName)).normal.text = ascii "/x/y" := by decide

end Loader

end DoctypeProbe
