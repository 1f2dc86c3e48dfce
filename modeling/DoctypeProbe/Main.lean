import DoctypeProbe.CommandLine.Run
import Std.Time.DateTime.Timestamp

/-!
# The Program

The outermost layer. It brings what a run can look at into a session — the files along the
paths in question, standard input if it is named, the time and the thread — and writes what
the run has written: to the two standard streams, and to the end of the log file.

A file whose path is no text, or that cannot be opened, counts as missing; what can be opened
but not read is taken for a directory.
-/

namespace DoctypeProbe

namespace Program

/-- The bytes of a text. -/
def bytesOf (text : String) : Bytes := text.toUTF8.data.toList

/-- Bytes in the form in which they are read and written. -/
def pack (bs : Bytes) : ByteArray := ⟨bs.toArray⟩

/-- What can be read from a handle to its end. -/
def readHandle (handle : IO.FS.Handle) : IO (Option Bytes) := do
  try
    let content ← handle.readBinToEnd
    return some content.toList
  catch _ => return none

/-- What stands at a path: the contents of a file, or a directory. -/
def look (path : Bytes) : IO (Option (Option Bytes)) := do
  let some name := String.fromUTF8? (pack path) | return none
  try
    let handle ← IO.FS.Handle.mk name .read
    let content ← readHandle handle
    return some content
  catch _ => return none

/-- Brings what stands at a place into a file system. -/
def bring (files : FileSystem) (place : Place) : IO FileSystem := do
  if (files.entry? place).isSome then return files
  let path := ({ root := 1, tail := Path.ofNames place } : Path).text
  match ← look path with
  | none => return files
  | some none => return files.makeDirectory place
  | some (some content) => return files.put path content

/-- Brings what stands along paths into a file system. -/
def bringAll (files : FileSystem) (paths : List Bytes) : IO FileSystem :=
  paths.foldlM (fun files path => (files.placesAlong path).foldlM bring files) files

/-- Reads a stream to its end. -/
partial def readAll (stream : IO.FS.Stream) (sofar : ByteArray) : IO ByteArray := do
  let block ← stream.read 8192
  if block.isEmpty then return sofar else readAll stream (sofar ++ block)

/-- The contents of standard input; none if it is closed. -/
def readInput : IO (Option Bytes) := do
  try
    let content ← readAll (← IO.getStdin) .empty
    return some content.toList
  catch _ => return none

/-- The time and the thread. -/
def now : IO Log.Stamp := do
  let time ← Std.Time.Timestamp.now
  return {
    moment := .ofUnixMilliseconds time.toMillisecondsSinceUnixEpoch.val.toNat
    thread := (← IO.getTID).toNat }

/-- Writes texts to the standard streams, in order. -/
def writeAll (texts : List (Channel × Bytes)) : IO Unit := do
  let output ← IO.getStdout
  let errors ← IO.getStderr
  for (channel, text) in texts do
    match channel with
    | .results => output.write (pack text)
    | .messages | .console => errors.write (pack text)
  output.flush

/-- Adds lines to the end of the log file; if it cannot be opened, they go to standard
error. -/
def addToLog (path lines : Bytes) : IO Unit := do
  try
    let some name := String.fromUTF8? (pack path) | throw (IO.userError "not a text")
    let handle ← IO.FS.Handle.mk name .append
    handle.write (pack lines)
  catch _ =>
    writeAll [(.console, Log.Logger.notOpened path), (.console, lines)]

/-- A place where nothing stands, since its name is too long for a file. -/
def nowhere : Place := [List.replicate (FileSystem.nameLimit + 1) Ascii.dot]

/-- The file system at the start, of which only the working directory is known. One that has been
taken away is nowhere. -/
def startingFiles : IO FileSystem := do
  try
    let directory ← IO.currentDir
    let place := (Path.ofText (bytesOf directory.toString)).names
    return ({ workingDirectory := place } : FileSystem).makeDirectory place
  catch _ => return { workingDirectory := nowhere }

/-- Runs the program on its arguments and answers its exit status. -/
def perform (args : List Bytes) : IO Nat := do
  let invocation := (Arguments.parse args).2
  let files ← bringAll (← startingFiles) invocation.settings.configFile.toList
  let settings := (invocation.settings.fillFromFile files).2.2
  let loader : Loader Empty := settings.loader files
  let paths := invocation.locations.flatMap fun location =>
    (loader.pathsFor location).map Path.text
  let files ← bringAll files (settings.logFile.toList ++ paths)
  let input ← if invocation.locations.contains Run.inputLocation then readInput else pure none
  let (status, session) := Run.run args { files, input, stamp := ← now }
  writeAll session.written
  match session.logger.file with
  | none => pure ()
  | some number =>
    addToLog (settings.logFile.getD [])
      ((session.files.content number).drop (files.content number).length)
  return status.code

end Program

end DoctypeProbe

/-- Runs the program. -/
def main (args : List String) : IO UInt32 := do
  let status ← DoctypeProbe.Program.perform (args.map DoctypeProbe.Program.bytesOf)
  return status.toUInt32
