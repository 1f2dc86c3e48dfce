import DoctypeProbe.FileSystem

/-!
# File Sources

A source over an open descriptor. It reads the contents that its file has in the file system
at hand, from the offset reached so far. A descriptor can also belong to a directory, which
opens but cannot be read, or to nothing that is open.
-/

namespace DoctypeProbe

/-- What a descriptor refers to. -/
inductive Descriptor where
  /-- A regular file, and the offset of the next read. -/
  | file (number offset : Nat)
  /-- A directory. -/
  | directory
  /-- Nothing: the number is not that of an open descriptor. -/
  | invalid
deriving DecidableEq, Repr

/-- A source over a descriptor that it owns. -/
structure FileSource where
  /-- The file system that is read. -/
  files : FileSystem
  /-- The descriptor, until it is closed. -/
  descriptor : Option Descriptor
  /-- The name in messages. -/
  description : Bytes
deriving DecidableEq, Repr

namespace FileSource

/-- Opens the file at a path for reading. -/
def openPath (files : FileSystem) (path : Bytes) : Except IoError FileSource :=
  match files.resolve path with
  | .ok (_, .file number) => .ok ⟨files, some (.file number 0), path⟩
  | .ok (_, .directory) => .ok ⟨files, some .directory, path⟩
  | .error e => .error (if e = .noEntry then .notFound path else .openFailed path e)

/-- The bytes of a descriptor not read yet. -/
def rest (files : FileSystem) : Option Descriptor → Bytes
  | some (.file number offset) => (files.content number).drop offset
  | _ => []

/-- Delivers the next bytes of a file; anything else fails. -/
def read (s : FileSource) (n : Nat) : Except IoError Bytes × FileSource :=
  match s.descriptor with
  | none => (.error (.readClosed s.description), s)
  | some .invalid => (.error (.readFailed s.description .badDescriptor), s)
  | some .directory => (.error (.readFailed s.description .isDirectory), s)
  | some (.file number offset) =>
    let bs := (rest s.files s.descriptor).take n
    (.ok bs, { s with descriptor := some (.file number (offset + bs.length)) })

/-- Gives the descriptor up. This fails once if it is not that of anything open. -/
def close (s : FileSource) : Except IoError Unit × FileSource :=
  match s.descriptor with
  | some .invalid =>
    (.error (.closeFailed s.description .badDescriptor), { s with descriptor := none })
  | _ => (.ok (), { s with descriptor := none })

instance : InputSource FileSource where
  read := read
  close := close
  isOpen s := s.descriptor.isSome
  description := description
  remaining s := (rest s.files s.descriptor).length
  read_bound {s s' n bs} h := by
    unfold read at h
    split at h
    · cases h
    · cases h
    · cases h
    · rename_i number offset hd
      cases h
      simp only [rest, hd, List.length_take, List.length_drop]
      omega

end FileSource

end DoctypeProbe
