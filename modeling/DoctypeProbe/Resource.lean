import DoctypeProbe.Detector
import DoctypeProbe.Failure
import DoctypeProbe.FileSystem
import DoctypeProbe.Source.Opened

/-!
# Resources

A resource is a named piece of content that can be opened: a file, bytes in memory, or a
stream that is already open. Files and bytes open any number of times. A stream can be handed
out once, and whatever opens it counts: also finding out its length, and also a use that then
fails. Every later use is refused and touches no source.

## Main results

* `Resource.openSource` — hands out a source over the content.
* `Resource.contentLength` — the length of the content.
* `Resource.createRelative` — the file next to a file.
* `Resource.detect` — the mode of the document.
-/

namespace DoctypeProbe

/-- A named piece of content; streams are of type `σ`. -/
inductive Resource (σ : Type) where
  /-- The file at a path. -/
  | file (path : Path)
  /-- Bytes in memory. -/
  | bytes (data label : Bytes)
  /-- A stream that is already open, until it has been handed out. -/
  | stream (source : Option σ) (label : Bytes)
deriving DecidableEq, Repr

namespace Resource

variable {σ : Type}

/-- The label of bytes when none is given. -/
def bytesLabel : Bytes := ascii "resource loaded from byte array"

/-- The label of a stream when none is given. -/
def streamLabel : Bytes := ascii "resource loaded through InputSource"

/-- Wraps a stream, which may be missing: a missing one is refused. -/
def ofStream (source : Option σ) (label : Bytes) : Except Misuse (Resource σ) :=
  match source with
  | none => .error .noWrappedSource
  | some s => .ok (.stream (some s) label)

/-! ### Properties -/

/-- The name of a resource in messages, which tells resources apart. -/
def description : Resource σ → Bytes
  | file path => ascii "file [" ++ path.text ++ ascii "]"
  | bytes _ label => ascii "byte array [" ++ label ++ ascii "]"
  | stream _ label => ascii "InputSource resource [" ++ label ++ ascii "]"

/-- The path of a file. -/
def path? : Resource σ → Option Path
  | file path => some path
  | _ => none

/-- The name of a file without the directories before it. -/
def fileName? (r : Resource σ) : Option Bytes := r.path?.map Path.fileName

/-- Whether the content is there: a file has to be a regular one. -/
def isPresent (files : FileSystem) : Resource σ → Bool
  | file path => files.isRegularFile path.text
  | _ => true

/-- Whether the content can be read; it is taken to be readable if it is there. -/
def isReadable (files : FileSystem) (r : Resource σ) : Bool := r.isPresent files

/-- Whether the resource wraps a stream that is already open. -/
def isOpen : Resource σ → Bool
  | stream .. => true
  | _ => false

/-- Whether the resource is a file. -/
def isFile : Resource σ → Bool
  | file _ => true
  | _ => false

/-! ### Use -/

/-- Hands out a source over the content, and answers the resource afterwards. -/
def openSource (files : FileSystem) : Resource σ → Except Failure (Opened σ) × Resource σ
  | file path =>
    (match FileSource.openPath files path.text with
      | .ok source => .ok (.file source)
      | .error e => .error (.io e),
      file path)
  | bytes data label => (.ok (.memory { rest := data, description := label }), bytes data label)
  | stream (some source) label => (.ok (.stream source), stream none label)
  | stream none label => (.error .alreadyRead, stream none label)

/-- Why the properties of the file at a path cannot be had. -/
def statFailure (path : Path) (e : Errno) : Failure :=
  .io (if e = .noEntry then .notFound path.text else .statFailed path.text e)

/-- Whether there is a time of last modification: only what stands at a path has one. -/
def modification (files : FileSystem) : Resource σ → Except Failure Unit
  | file path =>
    match files.resolve path.text with
    | .ok _ => .ok ()
    | .error e => .error (statFailure path e)
  | r => .error (.io (.noModificationTime r.description))

/-- The file at a path seen from the directory of a file. Nothing else has a place that a
path could start from. -/
def createRelative (r : Resource σ) (relative : Bytes) : Except Failure (Resource σ) :=
  match r with
  | file path => .ok (.file (path.parent.join (Path.ofText relative)).normal)
  | r => .error (.io (.noRelative r.description relative))

/-- The size of the blocks that a stream is measured in. -/
def measureBlock : Nat := 4096

variable [InputSource σ]

/-- The length of what a source delivers until its end. The source is closed after it. -/
def lengthOf (source : Opened σ) : Except Failure Nat :=
  match InputSource.drain measureBlock source with
  | (.error e, _) => .error (.io e)
  | (.ok content, source') =>
    match (InputSource.close source').1 with
    | .error e => .error (.io e)
    | .ok () => .ok content.length

/-- The length of the content. A stream is handed out for it and read to its end. -/
def contentLength (files : FileSystem) : Resource σ → Except Failure Nat × Resource σ
  | file path => ((files.fileSize path.text).mapError (statFailure path), file path)
  | bytes data label => (.ok data.length, bytes data label)
  | r =>
    match r.openSource files with
    | (.error e, r') => (.error e, r')
    | (.ok source, r') => (lengthOf source, r')

/-- Opens a resource and detects the mode of the document in it. Answers what was logged, and
the resource afterwards. -/
def detect [Alphabet] (options : Detector.Options) (files : FileSystem) (r : Resource σ) :
    Except Failure Mode × List Log.Record × Resource σ :=
  match r.openSource files with
  | (.error e, r') => (.error e, [], r')
  | (.ok source, r') =>
    let detection := Detector.detect options source
    (detection.outcome.mapError .io, detection.log, r')

end Resource

end DoctypeProbe
