import DoctypeProbe.Loader
import DoctypeProbe.Proofs.Bytes.Search

/-!
# The Rules for Locations

When no resolver decides about a location, its text does, by one of five rules. They are tried in
order: a leading slash, the mark of a file, the mark of a search, the mark of a scheme anywhere,
and the plain path that is left. The first three marks exclude each other by their first bytes, so
the order matters for the mark of a scheme alone: a location with `://` in it may well be the path
of a file or a name to search.

`Loader.Governs` says this of the texts themselves, and what each rule makes of a location. An
authority behind the mark of a file runs up to the next slash (`Loader.Authority`), and it has to
be empty or the local host.

## Main results

* `Loader.governs_iff`: the rule for a location, and what it makes of it.
* `Loader.rule_eq_error_iff`: the locations that the rules refuse, and how.
-/

namespace DoctypeProbe

namespace Loader

open Bytes

variable {σ : Type}

/-! ### Texts behind the mark of a file -/

/-- A text begins with an authority: two slashes, a host without slashes, and a path, which is
empty or goes on with a slash. -/
structure Authority (text host path : Bytes) : Prop where
  /-- The host and the path stand behind two slashes. -/
  text_eq : text = ascii "//" ++ (host ++ path)
  /-- The host ends before the next slash. -/
  host : Ascii.slash ∉ host
  /-- The path begins with that slash, if there is one. -/
  path : path = [] ∨ [Ascii.slash] <+: path

/-- A host that stands for the local one. -/
def IsLocal (host : Bytes) : Prop := host = [] ∨ host = ascii "localhost"

instance (host : Bytes) : Decidable (IsLocal host) := inferInstanceAs (Decidable (_ ∨ _))

/-- A text that begins with two slashes begins with an authority. -/
theorem exists_authority {text : Bytes} (h : ascii "//" <+: text) :
    ∃ host path, Authority text host path := by
  obtain ⟨rest, rfl⟩ := h
  refine ⟨rest.takeWhile (· != Ascii.slash), rest.dropWhile (· != Ascii.slash), ?_, ?_, ?_⟩
  · rw [List.takeWhile_append_dropWhile]
  · intro hmem
    simpa using List.all_eq_true.mp List.all_takeWhile _ hmem
  · cases hrest : rest.dropWhile (· != Ascii.slash) with
    | nil => exact .inl rfl
    | cons b s =>
        have hb := List.head?_dropWhile_not (· != Ascii.slash) rest
        simp only [hrest, List.head?_cons, bne_eq_false_iff_eq] at hb
        exact .inr ⟨s, by rw [hb, List.singleton_append]⟩

/-- The host of an authority is what comes before the next slash. -/
theorem Authority.takeWhile {text host path : Bytes} (h : Authority text host path) :
    (host ++ path).takeWhile (· != Ascii.slash) = host ∧
      (host ++ path).dropWhile (· != Ascii.slash) = path := by
  have hhost : ∀ b ∈ host, (b != Ascii.slash) = true := by
    intro b hb
    exact bne_iff_ne.mpr fun heq => h.host (heq ▸ hb)
  rw [List.takeWhile_append_of_pos hhost, List.dropWhile_append_of_pos hhost]
  rcases h.path with rfl | ⟨rest, rfl⟩
  · exact ⟨List.append_nil host, rfl⟩
  · exact ⟨List.append_nil host, rfl⟩

theorem fileForm_of_not_prefix {text : Bytes} (h : ¬ascii "//" <+: text) :
    fileForm text = .file text := by
  rw [fileForm, afterOpening_eq_none_iff.mpr h]

/-- An authority decides about the text behind the mark of a file. -/
theorem fileForm_of_authority {text host path : Bytes} (h : Authority text host path) :
    fileForm text =
      if IsLocal host then .file (if path = [] then [Ascii.slash] else path) else .remote := by
  obtain ⟨htake, hdrop⟩ := h.takeWhile
  have hlocal : (host.isEmpty || host == ascii "localhost") = true ↔ IsLocal host := by
    rw [Bool.or_eq_true, List.isEmpty_iff, beq_iff_eq, IsLocal]
  rw [fileForm, afterOpening_eq_some_iff.mpr h.text_eq]
  simp only [htake, hdrop, hlocal, List.isEmpty_iff]

/-! ### The form of a location -/

/-- A location with the mark of a scheme that no other rule is for. -/
structure Foreign (location : Bytes) : Prop where
  /-- The location is no absolute path. -/
  not_absolute : ¬[Ascii.slash] <+: location
  /-- The location is not marked as a file. -/
  not_file : ¬fileMark <+: location
  /-- The location is not marked as a search. -/
  not_search : ¬searchMark <+: location
  /-- The mark of a scheme stands somewhere in the location. -/
  scheme : schemeMark <:+: location

/-- A file on a host other than the local one. -/
def Remote (location : Bytes) : Prop :=
  ∃ text host path, location = fileMark ++ text ∧ Authority text host path ∧ ¬IsLocal host

/-- What a location stands for when all resolvers pass, and what is logged.

* `absolute`: a leading slash stands for the file at this path, as it is written.
* `file`: the mark of a file, for the file at the path behind it.
* `localFile`: the same with an authority that is local; without a path it stands for the root.
* `remoteFile`: an authority that is not local is refused.
* `search`: the mark of a search, for what the search finds.
* `scheme`: any other mark of a scheme is refused.
* `plain`: anything else stands for the file at this path. -/
inductive Governs (loader : Loader σ) (files : FileSystem) (location : Bytes) :
    Except Failure (Resource σ) × List Log.Record → Prop
  | absolute :
      [Ascii.slash] <+: location →
      Governs loader files location (.ok (.file (Path.ofText location)), [])
  | file {path : Bytes} :
      location = fileMark ++ path → ¬ascii "//" <+: path →
      Governs loader files location (.ok (loader.atPath path), [])
  | localFile {text host path : Bytes} :
      location = fileMark ++ text → Authority text host path → IsLocal host →
      Governs loader files location
        (.ok (loader.atPath (if path = [] then [Ascii.slash] else path)), [])
  | remoteFile :
      Remote location →
      Governs loader files location (.error (.unsupportedLocation location), [])
  | search {name : Bytes} :
      location = searchMark ++ name →
      Governs loader files location (loader.search files location name)
  | scheme :
      Foreign location →
      Governs loader files location (.error (.unsupportedLocation location), [])
  | plain :
      ¬[Ascii.slash] <+: location → ¬fileMark <+: location → ¬searchMark <+: location →
      ¬schemeMark <:+: location → Governs loader files location (.ok (loader.atPath location), [])

theorem formOf_of_absolute {location : Bytes} (h : [Ascii.slash] <+: location) :
    formOf location = .absolute location := by
  obtain ⟨rest, rfl⟩ := h
  exact if_pos rfl

theorem formOf_of_not_absolute {location : Bytes} (h : ¬[Ascii.slash] <+: location) :
    formOf location =
      match location.afterOpening fileMark with
      | some text => fileForm text
      | none =>
        match location.afterOpening searchMark with
        | some name => .search name
        | none => if location.contains schemeMark then .scheme else .plain location := by
  refine if_neg fun hhead => h ?_
  obtain ⟨rest, rfl⟩ := List.head?_eq_some_iff.mp hhead
  exact List.prefix_append [Ascii.slash] rest

theorem formOf_fileMark (text : Bytes) : formOf (fileMark ++ text) = fileForm text := by
  have hnot : ¬[Ascii.slash] <+: fileMark ++ text := by
    rintro ⟨rest, hrest⟩
    cases (List.cons.inj hrest).1
  rw [formOf_of_not_absolute hnot, afterOpening_eq_some_iff.mpr rfl]

theorem formOf_searchMark (name : Bytes) : formOf (searchMark ++ name) = .search name := by
  have hnot : ¬[Ascii.slash] <+: searchMark ++ name := by
    rintro ⟨rest, hrest⟩
    cases (List.cons.inj hrest).1
  have hfile : ¬fileMark <+: searchMark ++ name := by
    rintro ⟨rest, hrest⟩
    cases (List.cons.inj hrest).1
  rw [formOf_of_not_absolute hnot, afterOpening_eq_none_iff.mpr hfile,
    afterOpening_eq_some_iff.mpr rfl]

/-- A location that the first three rules are not for is told by the mark of a scheme. -/
theorem formOf_of_unmarked {location : Bytes} (habsolute : ¬[Ascii.slash] <+: location)
    (hfile : ¬fileMark <+: location) (hsearch : ¬searchMark <+: location) :
    formOf location =
      if location.contains schemeMark then .scheme else .plain location := by
  rw [formOf_of_not_absolute habsolute, afterOpening_eq_none_iff.mpr hfile,
    afterOpening_eq_none_iff.mpr hsearch]

/-! ### The rules -/

variable {loader : Loader σ} {files : FileSystem} {location : Bytes}
  {found : Except Failure (Resource σ) × List Log.Record}

/-- What governs a location is what the loader makes of it. -/
theorem rule_of_governs (h : Governs loader files location found) :
    loader.rule files location = found := by
  cases h with
  | absolute hslash => rw [rule, formOf_of_absolute hslash]
  | file hlocation hnot =>
      rw [rule, hlocation, formOf_fileMark, fileForm_of_not_prefix hnot]
  | localFile hlocation hauthority hlocal =>
      rw [rule, hlocation, formOf_fileMark, fileForm_of_authority hauthority, if_pos hlocal]
  | remoteFile hremote =>
      obtain ⟨text, host, path, hlocation, hauthority, hhost⟩ := hremote
      have hform : formOf location = .remote := by
        rw [hlocation, formOf_fileMark, fileForm_of_authority hauthority, if_neg hhost]
      rw [rule, hform]
  | search hlocation =>
      have hform := formOf_searchMark
      rw [rule, hlocation, hform]
  | scheme hforeign =>
      rw [rule, formOf_of_unmarked hforeign.not_absolute hforeign.not_file hforeign.not_search,
        if_pos (contains_iff.mpr hforeign.scheme)]
  | plain habsolute hfile hsearch hscheme =>
      rw [rule, formOf_of_unmarked habsolute hfile hsearch,
        if_neg (mt contains_iff.mp hscheme)]

/-- A rule governs every location. -/
theorem exists_governs (loader : Loader σ) (files : FileSystem) (location : Bytes) :
    ∃ found, Governs loader files location found := by
  by_cases habsolute : [Ascii.slash] <+: location
  · exact ⟨_, .absolute habsolute⟩
  by_cases hfile : fileMark <+: location
  · obtain ⟨text, rfl⟩ := hfile
    by_cases hslashes : ascii "//" <+: text
    · obtain ⟨host, path, hauthority⟩ := exists_authority hslashes
      by_cases hhost : IsLocal host
      · exact ⟨_, .localFile rfl hauthority hhost⟩
      · exact ⟨_, .remoteFile ⟨text, host, path, rfl, hauthority, hhost⟩⟩
    · exact ⟨_, .file rfl hslashes⟩
  by_cases hsearch : searchMark <+: location
  · obtain ⟨name, rfl⟩ := hsearch
    exact ⟨_, .search rfl⟩
  by_cases hscheme : schemeMark <:+: location
  · exact ⟨_, .scheme ⟨habsolute, hfile, hsearch, hscheme⟩⟩
  · exact ⟨_, .plain habsolute hfile hsearch hscheme⟩

/-- **The rule for a location** governs what the loader makes of it, and no other rule does. -/
theorem governs_iff : Governs loader files location found ↔ loader.rule files location = found := by
  constructor
  · exact rule_of_governs
  · rintro rfl
    obtain ⟨found, hgoverns⟩ := exists_governs loader files location
    rwa [rule_of_governs hgoverns]

/-- A search fails only where there is nothing to search. -/
theorem search_eq_error_iff {name : Bytes} {e : Failure} :
    (loader.search files location name).1 = .error e ↔
      e = .io (.notFound location) ∧ loader.searchPaths = [] := by
  rw [search]
  cases hfound : loader.searchPaths.find? fun d => files.isRegularFile (candidate name d).text with
  | some directory =>
      refine iff_of_false nofun fun ⟨_, hpaths⟩ => ?_
      rw [hpaths] at hfound
      cases hfound
  | none =>
      cases loader.searchPaths with
      | nil => simp [eq_comm]
      | cons first rest => exact iff_of_false nofun nofun

/-- **The locations that the rules refuse**: a file on another host, a scheme that no rule is for,
and a search with nothing to search. -/
theorem rule_eq_error_iff {e : Failure} :
    (loader.rule files location).1 = .error e ↔
      e = .unsupportedLocation location ∧ (Remote location ∨ Foreign location) ∨
      e = .io (.notFound location) ∧ searchMark <+: location ∧ loader.searchPaths = [] := by
  constructor
  · intro h
    obtain ⟨found, hgoverns⟩ := exists_governs loader files location
    rw [rule_of_governs hgoverns] at h
    cases hgoverns with
    | absolute => cases h
    | file => cases h
    | localFile => cases h
    | plain => cases h
    | remoteFile hremote =>
        cases h
        exact .inl ⟨rfl, .inl hremote⟩
    | scheme hforeign =>
        cases h
        exact .inl ⟨rfl, .inr hforeign⟩
    | search hlocation =>
        obtain ⟨he, hpaths⟩ := search_eq_error_iff.mp h
        exact .inr ⟨he, ⟨_, hlocation.symm⟩, hpaths⟩
  · rintro (⟨rfl, hremote | hforeign⟩ | ⟨rfl, ⟨name, hname⟩, hpaths⟩)
    · rw [rule_of_governs (.remoteFile hremote)]
    · rw [rule_of_governs (.scheme hforeign)]
    · rw [rule_of_governs (.search hname.symm)]
      exact search_eq_error_iff.mpr ⟨rfl, hpaths⟩

end Loader

end DoctypeProbe
