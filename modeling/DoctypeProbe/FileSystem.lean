import DoctypeProbe.Path
import DoctypeProbe.Source

/-!
# File System

A file system of directories and regular files. Each file has a number, and its contents are
kept under that number: an open file keeps its contents when its name is taken away, and
sees what is written to it.

A path is followed name by name from the root or from the working directory. The first
obstacle on the way decides the error: a name inside something that is not a directory, a
name that is too long, or a name that does not exist.

## Main results

* `FileSystem.resolve` — what is found at a path, or the error number.
* `FileSystem.content_setContent` — writing a file changes no other file.
* `FileSystem.openAppend` — the file at a path to be written to, created if need be.
-/

namespace DoctypeProbe

/-- What a name in a directory stands for. -/
inductive Entry where
  /-- A directory. -/
  | directory
  /-- The regular file with a given number. -/
  | file (number : Nat)
deriving DecidableEq, Repr

/-- A place in the file system: the names that lead to it from the root. -/
abbrev Place := List Bytes

/-- A file system with a working directory. -/
structure FileSystem where
  /-- The working directory. -/
  workingDirectory : Place := []
  /-- The places below the root. -/
  entries : List (Place × Entry) := []
  /-- The contents of the files by number. -/
  contents : List (Nat × Bytes) := []
deriving DecidableEq, Repr

namespace FileSystem

/-- The length of path from which on it is refused. -/
def pathLimit : Nat := 4096

/-- The longest name. -/
def nameLimit : Nat := 255

/-- The path of the working directory. -/
def workingPath (fs : FileSystem) : Path :=
  { root := 1, tail := Path.ofNames fs.workingDirectory }

/-- What stands at a place. -/
def entry? (fs : FileSystem) (place : Place) : Option Entry :=
  if place = [] then some .directory else fs.entries.lookup place

/-- The working directory is there: nobody has taken it away meanwhile. -/
def HasWorkingDirectory (fs : FileSystem) : Prop :=
  fs.entry? fs.workingDirectory = some .directory

instance (fs : FileSystem) : Decidable fs.HasWorkingDirectory :=
  inferInstanceAs (Decidable (_ = _))

/-- The contents of the file with a given number. -/
def content (fs : FileSystem) (number : Nat) : Bytes := (fs.contents.lookup number).getD []

/-! ### Following a path -/

/-- Follows names from a place where `entry` stands. -/
def follow (fs : FileSystem) (place : Place) (entry : Entry) :
    List Bytes → Except Errno (Place × Entry)
  | [] => .ok (place, entry)
  | name :: names =>
    match entry with
    | .file _ => .error .notDirectory
    | .directory =>
      if name = Path.here then follow fs place .directory names
      else if name = Path.above then follow fs place.dropLast .directory names
      else if nameLimit < name.length then .error .nameTooLong
      else
        match fs.entry? (place ++ [name]) with
        | none => .error .noEntry
        | some entry' => follow fs (place ++ [name]) entry' names

/-- What is found at the path of a text. The text is read up to its first NUL byte, and a
slash at its end asks for a directory. -/
def resolve (fs : FileSystem) (text : Bytes) : Except Errno (Place × Entry) :=
  let path := Path.ofText text.untilNul
  if path.isEmpty then .error .noEntry
  else if pathLimit ≤ path.text.length then .error .nameTooLong
  else
    let start := if path.isAbsolute then [] else fs.workingDirectory
    match fs.follow start .directory path.names with
    | .ok (place, .file number) =>
      if path.endsInSlash then .error .notDirectory else .ok (place, .file number)
    | outcome => outcome

/-- Whether a path leads to a regular file. -/
def isRegularFile (fs : FileSystem) (path : Bytes) : Bool :=
  match fs.resolve path with
  | .ok (_, .file _) => true
  | _ => false

/-- The contents of the regular file at a path. -/
def contentAt? (fs : FileSystem) (path : Bytes) : Option Bytes :=
  match fs.resolve path with
  | .ok (_, .file number) => some (fs.content number)
  | _ => none

/-- The size of the regular file at a path. -/
def fileSize (fs : FileSystem) (path : Bytes) : Except Errno Nat :=
  match fs.resolve path with
  | .ok (_, .file number) => .ok (fs.content number).length
  | .ok (_, .directory) => .error .isDirectory
  | .error e => .error e

/-! ### Changing files -/

/-- A file number not in use. -/
def freshNumber (fs : FileSystem) : Nat :=
  fs.contents.foldl (fun n (number, _) => max n (number + 1)) 0

/-- Replaces the contents of a file. -/
def setContent (fs : FileSystem) (number : Nat) (data : Bytes) : FileSystem :=
  { fs with contents := (number, data) :: fs.contents.filter (·.1 != number) }

theorem lookup_filter_ne (contents : List (Nat × Bytes)) {number other : Nat}
    (h : other ≠ number) :
    (contents.filter (·.1 != number)).lookup other = contents.lookup other := by
  induction contents with
  | nil => rfl
  | cons entry rest ih =>
    obtain ⟨k, data⟩ := entry
    by_cases hk : k = number
    · simp [hk, List.lookup_cons, beq_false_of_ne h, ih]
    · simp [hk, List.lookup_cons, ih]

/-- Replacing the contents of a file changes this file and no other. -/
theorem content_setContent (fs : FileSystem) (number other : Nat) (data : Bytes) :
    (fs.setContent number data).content other =
      if other = number then data else fs.content other := by
  unfold content setContent
  by_cases h : other = number
  · simp [h]
  · simp [List.lookup_cons, beq_false_of_ne h, h, lookup_filter_ne fs.contents h]

/-- Adds to the end of a file. -/
def append (fs : FileSystem) (number : Nat) (data : Bytes) : FileSystem :=
  fs.setContent number (fs.content number ++ data)

/-- Creates an empty file at a place and answers its number. -/
def create (fs : FileSystem) (place : Place) : Nat × FileSystem :=
  let number := fs.freshNumber
  (number, { fs with
    entries := (place, .file number) :: fs.entries.filter (·.1 != place)
    contents := (number, []) :: fs.contents })

/-- The file at a path to be written to. A missing file is created if the directory it is to
be in exists: nothing can be created in a working directory that has been taken away. -/
def openAppend (fs : FileSystem) (path : Bytes) : Except Errno (Nat × FileSystem) :=
  match fs.resolve path with
  | .ok (_, .file number) => .ok (number, fs)
  | .ok (_, .directory) => .error .isDirectory
  | .error e =>
    if e != .noEntry then .error e
    else
      let text := path.untilNul
      let name := (Path.ofText text).fileName
      let directory :=
        if name.length = text.length then Path.here else text.take (text.length - name.length)
      if name.isEmpty then .error (if text.isEmpty then .noEntry else .isDirectory)
      else
        match fs.resolve directory with
        | .ok (place, .directory) =>
          if fs.entry? place = some .directory then .ok (fs.create (place ++ [name]))
          else .error .noEntry
        | .ok (_, .file _) => .error .notDirectory
        | .error e => .error e

/-- The place that a path names, whether or not anything stands there. -/
def placeOf (fs : FileSystem) (text : Bytes) : Place :=
  let path := Path.ofText text
  let start := if path.isAbsolute then [] else fs.workingDirectory.reverse
  (path.names.foldl (Path.push true) start).reverse

/-- The places that a path leads through, the last of which is the one it names. -/
def placesAlong (fs : FileSystem) (text : Bytes) : List Place :=
  let path := Path.ofText text.untilNul
  let start := if path.isAbsolute then [] else fs.workingDirectory.reverse
  (List.range (path.names.length + 1)).map fun n =>
    ((path.names.take n).foldl (Path.push true) start).reverse

/-- Makes a directory at a place, together with the directories above it. -/
def makeDirectory (fs : FileSystem) (place : Place) : FileSystem :=
  (List.range (place.length + 1)).foldl
    (fun fs n =>
      if (fs.entry? (place.take n)).isSome then fs
      else { fs with entries := (place.take n, .directory) :: fs.entries })
    fs

/-- Writes a file, with the directories above it, and replaces what it held. -/
def put (fs : FileSystem) (path : Bytes) (data : Bytes) : FileSystem :=
  let place := fs.placeOf path
  match fs.entry? place with
  | some (.file number) => fs.setContent number data
  | some .directory => fs
  | none =>
    let (number, fs) := (fs.makeDirectory place.dropLast).create place
    fs.setContent number data

/-- Takes the name at a path away, unless it is a directory that holds something. Answers
whether there was anything to take away. -/
def remove (fs : FileSystem) (path : Bytes) : Bool × FileSystem :=
  let place := fs.placeOf path
  let isUsed := fs.entries.any fun (p, _) => p.length > place.length && place.isPrefixOf p
  match fs.entry? place with
  | some _ =>
    if isUsed || place.isEmpty then (false, fs)
    else (true, { fs with entries := fs.entries.filter (·.1 != place) })
  | none => (false, fs)

end FileSystem

end DoctypeProbe
