import DoctypeProbe.Proofs.Loader.Resolution
import DoctypeProbe.Proofs.Path.Normal

/-!
# What a Loader Finds

A loader finds a resource if resolving the location ends with it. Where all resolvers pass, that is
what the rule for the location makes of it, and nothing else (`Loader.finds_iff`).

The path of a local file can be spelled in several ways: behind the mark of a file, with no
authority, with an empty one, or with one that names the local host. Each of them leads through
another branch of the rules, and all lead to the same file. An absolute path behind the mark is put
into normal form, in contrast to one that stands on its own, and no base directory has a part in
either.

## Main results

* `Loader.finds_iff`: what is found where all resolvers pass.
* `Loader.spellings_agree`: the spellings of a local file.
-/

namespace DoctypeProbe

namespace Loader

variable {σ : Type} {loader : Loader σ} {files : FileSystem} {requests : Nat} {location : Bytes}
  {resource : Resource σ}

/-- All resolvers pass on a location, while so many requests are under way. -/
def AllPass (loader : Loader σ) (files : FileSystem) (requests : Nat) (location : Bytes) : Prop :=
  ∃ events, loader.Passes files requests location 0 loader.resolvers events

/-- Resolving a location ends, and it ends with a resource. -/
def Finds (loader : Loader σ) (files : FileSystem) (requests : Nat) (location : Bytes)
    (resource : Resource σ) : Prop :=
  ∃ events, loader.Ends files requests location { outcome := .ok resource, events }

/-- Resolvers pass if each of them passes without asking for anything. -/
theorem exists_passes {resolvers : List (Resolver σ)}
    (h : ∀ resolver ∈ resolvers, resolver requests location = .pass) (index : Nat) :
    ∃ events, loader.Passes files requests location index resolvers events := by
  induction resolvers generalizing index with
  | nil => exact ⟨[], .nil index⟩
  | cons resolver resolvers ih =>
      obtain ⟨hpass, hall⟩ := List.forall_mem_cons.mp h
      obtain ⟨events, hpasses⟩ := ih hall (index + 1)
      have hsettles : loader.Settles files requests (resolver requests location)
          { outcome := .ok none } := by
        rw [hpass]
        exact .pass
      exact ⟨_, .cons hsettles hpasses⟩

/-- **What is found** where all resolvers pass is what the rule for the location answers. -/
theorem finds_iff (hlocation : location ≠ []) (hpass : loader.AllPass files requests location) :
    loader.Finds files requests location resource ↔
      (loader.rule files location).1 = .ok resource := by
  obtain ⟨passed, hpasses⟩ := hpass
  have hends := (ends_iff_resolves hlocation).mpr (.ruled hpasses (governs_iff.mpr rfl))
  constructor
  · rintro ⟨events, hfound⟩
    exact congrArg Resolution.outcome (hends.unique hfound)
  · intro h
    exact ⟨_, h ▸ hends⟩

/-- Where a rule answers a resource, nothing else is found. -/
theorem finds_iff_of_governs {answer : Resource σ} {log : List Log.Record}
    (h : loader.Governs files location (.ok answer, log)) (hlocation : location ≠ [])
    (hpass : loader.AllPass files requests location) :
    loader.Finds files requests location resource ↔ resource = answer := by
  rw [finds_iff hlocation hpass, rule_of_governs h]
  exact ⟨fun heq => (Except.ok.inj heq).symm, fun heq => heq ▸ rfl⟩

/-! ### The spellings of a local file -/

/-- What can stand before the absolute path of a local file: the mark of a file, on its own or
with an authority that is local. -/
def localMarks : List Bytes :=
  [fileMark, fileMark ++ ascii "//", fileMark ++ ascii "//localhost"]

/-- An absolute path is seen from the root, whatever the base directory is. -/
theorem atPath_of_absolute {path : Bytes} (h : [Ascii.slash] <+: path) :
    loader.atPath path = .file (Path.ofText path).normal := by
  have habsolute : (Path.ofText path).isAbsolute = true := by
    obtain ⟨rest, rfl⟩ := h
    rw [Path.isAbsolute_ofText]
    rfl
  rw [atPath, Path.join, habsolute, Bool.true_or, if_pos rfl]

/-- A local authority before an absolute path changes nothing. -/
theorem governs_of_isLocal {host path : Bytes} (hlocal : IsLocal host)
    (hhost : Ascii.slash ∉ host) (hpath : [Ascii.slash] <+: path) :
    loader.Governs files (fileMark ++ (ascii "//" ++ (host ++ path)))
      (.ok (loader.atPath path), []) := by
  have hne : path ≠ [] := by
    rintro rfl
    cases List.prefix_nil.mp hpath
  have hgoverns :=
    @Governs.localFile σ loader files _ _ host path rfl ⟨rfl, hhost, .inr hpath⟩ hlocal
  rwa [if_neg hne] at hgoverns

/-- Each spelling of a local file is governed by the path in it. -/
theorem governs_of_mem_localMarks {mark path : Bytes} (hmark : mark ∈ localMarks)
    (hpath : [Ascii.slash] <+: path) (hsingle : ¬ascii "//" <+: path) :
    loader.Governs files (mark ++ path) (.ok (.file (Path.ofText path).normal), []) := by
  rw [← atPath_of_absolute hpath]
  simp only [localMarks, List.mem_cons, List.not_mem_nil, or_false] at hmark
  rcases hmark with rfl | rfl | rfl
  · exact .file rfl hsingle
  · exact governs_of_isLocal (.inl rfl) (by decide) hpath
  · exact governs_of_isLocal (.inr rfl) (by decide) hpath

/-- **The spellings of a local file agree.** Take a path that begins with exactly one slash. There
is one path in normal form that every loader finds behind each of the marks of a local file,
whatever its base directory and its search paths are and whatever the file system holds, as long as
its resolvers pass. It is the normal form of the path that is found where nothing stands before it,
and that one is the path as it is written. -/
theorem spellings_agree {path : Bytes} (hpath : [Ascii.slash] <+: path)
    (hsingle : ¬ascii "//" <+: path) :
    ∃ goal : Path, goal.IsNormal ∧
      ∀ (loader : Loader σ) (files : FileSystem) (requests : Nat),
        (∀ mark ∈ localMarks, loader.AllPass files requests (mark ++ path) →
          ∀ resource, loader.Finds files requests (mark ++ path) resource ↔
            resource = .file goal) ∧
        (loader.AllPass files requests path →
          ∃ written : Path, written.text = path ∧ written.normal = goal ∧
            ∀ resource, loader.Finds files requests path resource ↔ resource = .file written) := by
  refine ⟨(Path.ofText path).normal, Path.isNormal_normal _, fun loader files requests =>
    ⟨fun mark hmark hpass resource => ?_, fun hpass =>
      ⟨Path.ofText path, Path.text_ofText path, rfl, fun resource => ?_⟩⟩⟩
  · have hne : mark ++ path ≠ [] := by
      obtain ⟨rest, rfl⟩ := hpath
      exact List.append_ne_nil_of_right_ne_nil _ (List.cons_ne_nil _ _)
    exact finds_iff_of_governs (governs_of_mem_localMarks hmark hpath hsingle) hne hpass
  · have hne : path ≠ [] := by
      obtain ⟨rest, rfl⟩ := hpath
      exact List.cons_ne_nil _ _
    exact finds_iff_of_governs (.absolute hpath) hne hpass

/-- A path with a detour is found in normal form behind each mark, by a loader with resolvers and
a base directory, and as it is written on its own. -/
theorem finds_detourSample :
    let path := ascii "/a/./b//../c"
    let loader := { sampleLoader with baseDirectory := Path.ofText (ascii "d") }
    [Ascii.slash] <+: path ∧ ¬ascii "//" <+: path ∧
    (∀ mark ∈ localMarks, loader.AllPass {} 0 (mark ++ path) ∧
      loader.Finds {} 0 (mark ++ path) (.file (Path.ofText (ascii "/a/c")))) ∧
    loader.AllPass {} 0 path ∧ loader.Finds {} 0 path (.file (Path.ofText path)) := by
  intro path loader
  have hpath : [Ascii.slash] <+: path := by decide
  have hsingle : ¬ascii "//" <+: path := by decide
  have hmarked : ∀ mark ∈ localMarks, loader.AllPass {} 0 (mark ++ path) := by
    intro mark hmark
    simp only [localMarks, List.mem_cons, List.not_mem_nil, or_false] at hmark
    rcases hmark with rfl | rfl | rfl <;>
    exact exists_passes (List.forall_mem_cons.mpr ⟨rfl, List.forall_mem_singleton.mpr rfl⟩) 0
  have hunmarked : loader.AllPass {} 0 path :=
    exists_passes (List.forall_mem_cons.mpr ⟨rfl, List.forall_mem_singleton.mpr rfl⟩) 0
  obtain ⟨goal, -, hall⟩ := spellings_agree (σ := Empty) hpath hsingle
  obtain ⟨hfound, hwritten⟩ := hall loader {} 0
  obtain ⟨written, htext, hnormal, hfinds⟩ := hwritten hunmarked
  have hself : loader.Finds {} 0 path (.file (Path.ofText path)) :=
    (finds_iff (by decide) hunmarked).mpr rfl
  have hgoal : goal = Path.ofText (ascii "/a/c") := by
    rw [← hnormal, ← Resource.file.inj ((hfinds _).mp hself)]
    decide
  exact ⟨hpath, hsingle, fun mark hmark =>
    ⟨hmarked mark hmark, (hfound mark hmark (hmarked mark hmark) _).mpr (hgoal ▸ rfl)⟩,
    hunmarked, hself⟩

end Loader

end DoctypeProbe
