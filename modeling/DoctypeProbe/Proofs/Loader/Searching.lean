import DoctypeProbe.Proofs.Loader.Finding
import DoctypeProbe.Proofs.Path.Joining
import Mathlib.Order.Lattice.Nat

/-!
# Searching for a Name

A search looks for a name in one directory after the other and takes it from the first one that has
it as a regular file. If none has it, the name is taken from the very first directory, so that what
is reported missing is a path that a file could stand at. The index of the directory depends on
where regular files stand and on the name without the slashes in front of it, and directories behind
one that has the name have no part in it.

## Main results

* `Loader.search_of_chosen`: the directory that a search takes a name from.
* `Loader.Chosen.append`: more directories behind one that has the name.
* `Loader.finds_first_candidate`: what a search finds.
-/

namespace DoctypeProbe

namespace Loader

variable {σ : Type}

/-- The path of a name in a directory, in normal form. -/
def pathIn (directory : Path) (name : Bytes) : Path :=
  (directory.join (Path.ofText name)).normal

/-- The indices of the directories that have a name: a regular file stands at its path in them. -/
def holders (directories : List Path) (files : FileSystem) (name : Bytes) : Set Nat :=
  {i | ∃ directory, directories[i]? = some directory ∧
    files.isRegularFile (pathIn directory name).text = true}

/-- The index of the directory that a name is taken from: the least one that has it, and zero if
none has it. -/
def Chosen (directories : List Path) (files : FileSystem) (name : Bytes) (k : Nat) : Prop :=
  IsLeast (holders directories files name) k ∨ holders directories files name = ∅ ∧ k = 0

section

variable {directories : List Path} {files : FileSystem} {name : Bytes} {k k' : Nat}

/-- A name is taken from one directory. -/
theorem Chosen.unique (h : Chosen directories files name k)
    (h' : Chosen directories files name k') : k = k' := by
  rcases h with hleast | ⟨hnone, rfl⟩ <;> rcases h' with hleast' | ⟨hnone', rfl⟩
  · exact hleast.unique hleast'
  · exact absurd hleast.1 (hnone' ▸ Set.notMem_empty k)
  · exact absurd hleast'.1 (hnone ▸ Set.notMem_empty k')
  · rfl

/-- There is a directory that a name is taken from, if there are any. -/
theorem exists_chosen (files : FileSystem) (name : Bytes) (h : directories ≠ []) :
    ∃ k directory, directories[k]? = some directory ∧ Chosen directories files name k := by
  rcases (holders directories files name).eq_empty_or_nonempty with hnone | hsome
  · obtain ⟨first, rest, rfl⟩ := List.exists_cons_of_ne_nil h
    exact ⟨0, first, rfl, .inr ⟨hnone, rfl⟩⟩
  · have hleast : IsLeast (holders directories files name)
        (sInf (holders directories files name)) :=
      ⟨Nat.sInf_mem hsome, fun _ => Nat.sInf_le⟩
    obtain ⟨directory, hdirectory, -⟩ := hleast.1
    exact ⟨_, directory, hdirectory, .inl hleast⟩

/-- **More directories behind one that has the name** change nothing. -/
theorem Chosen.append (h : Chosen directories files name k)
    (hfound : (holders directories files name).Nonempty) (more : List Path) :
    Chosen (directories ++ more) files name k := by
  rcases h with ⟨⟨directory, hdirectory, hfile⟩, hleast⟩ | ⟨hnone, -⟩
  · obtain ⟨hlt, -⟩ := List.getElem?_eq_some_iff.mp hdirectory
    refine .inl ⟨⟨directory, ?_, hfile⟩, ?_⟩
    · rw [List.getElem?_append_left hlt, hdirectory]
    · rintro i ⟨other, hother, hfile'⟩
      by_cases hi : i < directories.length
      · rw [List.getElem?_append_left hi] at hother
        exact hleast ⟨other, hother, hfile'⟩
      · exact Nat.le_trans (Nat.le_of_lt hlt) (Nat.le_of_not_lt hi)
  · exact absurd hfound (hnone ▸ Set.not_nonempty_empty)

end

/-! ### The search -/

/-- The location that searches for a name, with slashes in front of it. -/
def searchFor (slashes : Nat) (name : Bytes) : Bytes :=
  searchMark ++ (List.replicate slashes Ascii.slash ++ name)

theorem searchFor_ne_nil (slashes : Nat) (name : Bytes) : searchFor slashes name ≠ [] :=
  List.append_ne_nil_of_left_ne_nil (by decide) _

/-- The slashes in front of a name do not count. -/
theorem candidate_of_slashes {name : Bytes} (h : name.head? ≠ some Ascii.slash) (slashes : Nat)
    (directory : Path) :
    candidate (List.replicate slashes Ascii.slash ++ name) directory = pathIn directory name := by
  have hdrop :
      (List.replicate slashes Ascii.slash ++ name).dropWhile (· == Ascii.slash) = name := by
    rw [List.dropWhile_append_of_pos]
    · cases name with
      | nil => rfl
      | cons b name => exact List.dropWhile_cons_of_neg (by simpa using h)
    · intro b hb
      exact beq_iff_eq.mpr (List.eq_of_mem_replicate hb)
  rw [candidate, hdrop]
  rfl

variable {loader : Loader σ} {files : FileSystem} {requests : Nat} {name : Bytes}

/-- **The directory that a search takes a name from.** -/
theorem search_of_chosen (hname : name.head? ≠ some Ascii.slash) {k : Nat} {directory : Path}
    (h : Chosen loader.searchPaths files name k)
    (hdirectory : loader.searchPaths[k]? = some directory) (slashes : Nat) (location : Bytes) :
    (loader.search files location (List.replicate slashes Ascii.slash ++ name)).1 =
      .ok (.file (pathIn directory name)) := by
  have hcandidate := candidate_of_slashes hname slashes
  simp only [search, hcandidate]
  rcases h with ⟨⟨_, hsome, hfile⟩, hleast⟩ | ⟨hnone, rfl⟩
  · obtain rfl := Option.some.inj (hdirectory.symm.trans hsome)
    obtain ⟨hlt, hget⟩ := List.getElem?_eq_some_iff.mp hdirectory
    have hfound : loader.searchPaths.find? (fun d => files.isRegularFile (pathIn d name).text) =
        some directory := by
      refine List.find?_eq_some_iff_getElem.mpr ⟨hfile, k, hlt, hget, fun j hj => ?_⟩
      rw [Bool.not_eq_true', ← Bool.not_eq_true]
      intro hother
      have hmem : j ∈ holders loader.searchPaths files name :=
        ⟨_, List.getElem?_eq_getElem (Nat.lt_trans hj hlt), hother⟩
      exact absurd (hleast hmem) (Nat.not_le_of_lt hj)
    rw [hfound]
  · have hmissing : loader.searchPaths.find? (fun d => files.isRegularFile (pathIn d name).text) =
        none := by
      refine List.find?_eq_none.mpr fun d hd hfile => ?_
      obtain ⟨i, hi⟩ := List.mem_iff_getElem?.mp hd
      have hmem : i ∈ holders loader.searchPaths files name := ⟨d, hi, hfile⟩
      rw [hnone] at hmem
      exact hmem
    obtain ⟨rest, hrest⟩ : ∃ rest, loader.searchPaths = directory :: rest := by
      cases hpaths : loader.searchPaths with
      | nil => rw [hpaths] at hdirectory; cases hdirectory
      | cons first rest =>
          rw [hpaths] at hdirectory
          exact ⟨rest, by rw [Option.some.inj hdirectory]⟩
    rw [hmissing, hrest]

/-- A search finds the name in the directory that it is taken from, and nothing else. -/
theorem finds_of_chosen (hname : name.head? ≠ some Ascii.slash) {k : Nat} {directory : Path}
    (h : Chosen loader.searchPaths files name k)
    (hdirectory : loader.searchPaths[k]? = some directory) {slashes : Nat}
    (hpass : loader.AllPass files requests (searchFor slashes name)) (resource : Resource σ) :
    loader.Finds files requests (searchFor slashes name) resource ↔
      resource = .file (pathIn directory name) := by
  have hsearch := search_of_chosen hname h hdirectory slashes (searchFor slashes name)
  have hgoverns : loader.Governs files (searchFor slashes name)
      (loader.search files (searchFor slashes name) (List.replicate slashes Ascii.slash ++ name)) :=
    .search rfl
  have hanswer : loader.search files (searchFor slashes name)
      (List.replicate slashes Ascii.slash ++ name) = (.ok (.file (pathIn directory name)), _) :=
    Prod.ext hsearch rfl
  rw [hanswer] at hgoverns
  exact finds_iff_of_governs hgoverns (searchFor_ne_nil slashes name) hpass

/-- Directories that are added are searched behind the others. -/
theorem searchPaths_foldl (more : List Path) (loader : Loader σ) :
    (more.foldl addSearchPath loader).searchPaths = loader.searchPaths ++ more := by
  induction more generalizing loader with
  | nil => exact (List.append_nil _).symm
  | cons directory more ih =>
      rw [List.foldl_cons, ih, addSearchPath, List.append_assoc, List.singleton_append]

/-- **What a search finds.** Take a loader with directories to search, any file system, and a name
with any number of slashes in front of it. There is one directory that the name is taken from: the
first one in which a regular file stands at the path of the name, or the very first one if there is
no such file. Then, where all resolvers pass,

* the search finds the file at the path of the name in this directory, and nothing else, whatever
  the number of slashes is;
* after directories have been added behind the others it still finds this file, if one of those
  before had the name;
* the text of the directory stands before the name, so that no slash makes the name replace it. -/
theorem finds_first_candidate (loader : Loader σ) (files : FileSystem) (requests : Nat)
    (hpaths : loader.searchPaths ≠ []) {name : Bytes} (hname : name.head? ≠ some Ascii.slash) :
    ∃ k directory, loader.searchPaths[k]? = some directory ∧
      (∀ k', Chosen loader.searchPaths files name k' ↔ k' = k) ∧
      (∀ slashes, loader.AllPass files requests (searchFor slashes name) →
        ∀ resource, loader.Finds files requests (searchFor slashes name) resource ↔
          resource = .file (directory.join (Path.ofText name)).normal) ∧
      (∀ (more : List Path) (slashes : Nat), (holders loader.searchPaths files name).Nonempty →
        (more.foldl addSearchPath loader).AllPass files requests (searchFor slashes name) →
        ∀ resource,
          (more.foldl addSearchPath loader).Finds files requests (searchFor slashes name) resource ↔
            resource = .file (directory.join (Path.ofText name)).normal) ∧
      ∃ sep, (sep = [] ∨ sep = [Ascii.slash]) ∧
        (directory.join (Path.ofText name)).text = directory.text ++ (sep ++ name) := by
  obtain ⟨k, directory, hdirectory, hchosen⟩ := exists_chosen files name hpaths
  refine ⟨k, directory, hdirectory, fun k' => ⟨fun h => h.unique hchosen, fun h => h ▸ hchosen⟩,
    fun slashes hpass => finds_of_chosen hname hchosen hdirectory hpass,
    fun more slashes hfound hpass => ?_, ?_⟩
  · have hsearch := searchPaths_foldl more loader
    have hmore := hchosen.append hfound more
    obtain ⟨hlt, -⟩ := List.getElem?_eq_some_iff.mp hdirectory
    have hsame : (loader.searchPaths ++ more)[k]? = some directory := by
      rw [List.getElem?_append_left hlt, hdirectory]
    rw [← hsearch] at hmore hsame
    exact finds_of_chosen hname hmore hsame hpass
  · have hrelative : (Path.ofText name).isAbsolute = false := by
      rw [Path.isAbsolute_ofText]
      exact beq_eq_false_iff_ne.mpr hname
    obtain ⟨sep, hsep, htext⟩ := Path.exists_text_join (p := directory) hrelative
    exact ⟨sep, hsep, by rw [htext, Path.text_ofText]⟩

/-- Two directories; in the first one the name is that of a directory, and in the second one that
of a regular file. -/
def searchedFiles : FileSystem where
  entries :=
    [([ascii "s"], .directory), ([ascii "s", ascii "n"], .directory), ([ascii "t"], .directory),
      ([ascii "t", ascii "n"], .file 0)]
  contents := [(0, [])]

/-- A loader with resolvers that searches both. -/
def searchingLoader : Loader Empty :=
  { sampleLoader with searchPaths := [Path.ofText (ascii "/s"), Path.ofText (ascii "/t/")] }

/-- The directory of this name is passed over, the slashes in front do not count, and one more
directory behind the others changes nothing. -/
theorem finds_searchedName :
    searchingLoader.searchPaths ≠ [] ∧ (ascii "n").head? ≠ some Ascii.slash ∧
    searchingLoader.AllPass searchedFiles 0 (searchFor 2 (ascii "n")) ∧
    searchingLoader.Finds searchedFiles 0 (searchFor 2 (ascii "n"))
      (.file (Path.ofText (ascii "/t/n"))) ∧
    (searchingLoader.addSearchPath (Path.ofText (ascii "/u"))).Finds searchedFiles 0
      (searchFor 2 (ascii "n")) (.file (Path.ofText (ascii "/t/n"))) := by
  have hpaths : searchingLoader.searchPaths ≠ [] := List.cons_ne_nil _ _
  have hname : (ascii "n").head? ≠ some Ascii.slash := by decide
  have hpass : ∀ resolver ∈ searchingLoader.resolvers,
      resolver 0 (searchFor 2 (ascii "n")) = .pass :=
    List.forall_mem_cons.mpr ⟨rfl, List.forall_mem_singleton.mpr rfl⟩
  have hmem : 1 ∈ holders searchingLoader.searchPaths searchedFiles (ascii "n") :=
    ⟨Path.ofText (ascii "/t/"), rfl, by decide⟩
  have hchosen : Chosen searchingLoader.searchPaths searchedFiles (ascii "n") 1 := by
    refine .inl ⟨hmem, fun i hi => ?_⟩
    cases i with
    | zero =>
        obtain ⟨directory, hdirectory, hfile⟩ := hi
        obtain rfl := Option.some.inj hdirectory
        exact absurd hfile (by decide)
    | succ i => exact Nat.le_add_left 1 i
  obtain ⟨k, directory, hdirectory, hk, hfound, hmore, -⟩ :=
    finds_first_candidate searchingLoader searchedFiles 0 hpaths hname
  obtain rfl := (hk 1).mp hchosen
  obtain rfl := Option.some.inj hdirectory
  have hpath : Path.ofText (ascii "/t/n") =
      ((Path.ofText (ascii "/t/")).join (Path.ofText (ascii "n"))).normal := by decide
  exact ⟨hpaths, hname, exists_passes hpass 0,
    (hfound 2 (exists_passes hpass 0) _).mpr (congrArg _ hpath),
    (hmore [Path.ofText (ascii "/u")] 2 ⟨1, hmem⟩ (exists_passes hpass 0) _).mpr
      (congrArg _ hpath)⟩

end Loader

end DoctypeProbe
