import DoctypeProbe.Proofs.Detector.Forward
import DoctypeProbe.Proofs.FileSystem
import DoctypeProbe.Resource

/-!
# The Mode at a Path

What a detection of the file at a path answers is a function of what stands at the path. A regular
file has the mode of its contents. A directory opens and then breaks off at the first read, so it
fails, and so does a path that leads nowhere. Nothing else in the file system has a part in it:
writing to one file does not change the mode at a path that leads elsewhere.

## Main results

* `Resource.detect_file`: the answer of a detection, by what stands at the path.
* `Detector.modeAt_congr`: writing to another file does not change it.
* `Resource.text_eq_of_description_eq`: descriptions tell paths apart.
-/

namespace DoctypeProbe

namespace Detector

variable [Alphabet]

/-- The mode at a path, or why there is none, by what stands at the path. -/
def modeAt (options : Options) (files : FileSystem) (path : Bytes) : Except Failure Mode :=
  match files.resolve path with
  | .ok (_, .file number) => .ok (firstDecision options.charset (files.content number))
  | .ok (_, .directory) => .error (.io (.readFailed path .isDirectory))
  | .error e => .error (.io (if e = .noEntry then .notFound path else .openFailed path e))

/-- A path leads to the file with a given number. -/
def LeadsTo (files : FileSystem) (path : Bytes) (number : Nat) : Prop :=
  ∃ place, files.resolve path = .ok (place, .file number)

/-- **Writing to a file** does not change the mode at a path that does not lead to it. -/
theorem modeAt_congr {number : Option Nat} {files files' : FileSystem} {path : Bytes}
    (h : FileSystem.SameOutside number files files')
    (hpath : ∀ n, number = some n → ¬LeadsTo files path n) (options : Options) :
    modeAt options files' path = modeAt options files path := by
  rw [modeAt, modeAt, h.resolve]
  rcases hr : files.resolve path with e | ⟨place, _ | n⟩
  · rfl
  · rfl
  · have hcontent : files'.content n = files.content n :=
      h.content n fun hn => hpath n hn ⟨place, hr⟩
    simp only [hcontent]

variable {σ : Type} [InputSource σ]

omit [Alphabet] in
/-- A directory breaks off at the first read. -/
theorem breaksOff_directory (files : FileSystem) (path : Bytes) :
    BreaksOff (.readFailed path .isDirectory)
      (Opened.file ⟨files, some .directory, path⟩ : Opened σ) [] := by
  refine ⟨fun s d => s = .file ⟨files, some .directory, path⟩ ∧ d = [], ?_, rfl, rfl⟩
  rintro s d n ⟨rfl, rfl⟩ -
  exact .inl ⟨rfl, _, rfl⟩

/-- A detection of a directory fails. -/
theorem detect_directory (options : Options) (files : FileSystem) (path : Bytes) :
    (detect options (Opened.file ⟨files, some .directory, path⟩ : Opened σ)).outcome =
      .error (.readFailed path .isDirectory) := by
  have hbreaks := breaksOff_directory (σ := σ) files path
  rcases detect_of_breaksOff options hbreaks with ⟨mode, hmode, -⟩ | ⟨-, hfails⟩
  · cases hmode
  · exact hfails

end Detector

namespace Resource

variable {σ : Type}

/-- Two files with the same description have the same path. -/
theorem text_eq_of_description_eq {p q : Path}
    (h : (file p : Resource σ).description = (file q : Resource σ).description) :
    p.text = q.text := by
  simp only [description, List.append_assoc] at h
  exact List.append_cancel_right (List.append_cancel_left h)

/-- **A detection of a file** answers the mode at its path. -/
theorem detect_file [Alphabet] [InputSource σ] (options : Detector.Options) (files : FileSystem)
    (path : Path) :
    (detect options files (file path : Resource σ)).1 =
      Detector.modeAt options files path.text := by
  rw [Detector.modeAt]
  rcases hr : files.resolve path.text with e | ⟨place, _ | number⟩
  · simp only [detect, openSource, FileSource.openPath, hr]
  · simp only [detect, openSource, FileSource.openPath, hr, Detector.detect_directory]
    rfl
  · refine Detector.resource_detect_file options ?_
    rw [FileSystem.contentAt?, hr]

end Resource

end DoctypeProbe
