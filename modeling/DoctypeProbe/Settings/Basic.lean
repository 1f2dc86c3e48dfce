import DoctypeProbe.Detector
import DoctypeProbe.Loader
import DoctypeProbe.Log.Logger
import DoctypeProbe.Settings.Store

/-!
# Settings

The settings of the program, each of which may be unset. They are layered: what the command
line sets stays, what it leaves unset is taken from the settings file, and what that leaves
unset has a default.

## Main results

* `Settings.fill` — takes unset settings from a table.
* `Settings.detectorOptions` — how documents are read.
* `Settings.makeLoader` — how locations are resolved, or why they cannot be.
* `Settings.startLogging` — the logger that the settings ask for.
-/

namespace DoctypeProbe

/-- The settings of the program. -/
structure Settings where
  /-- The name of the least log level. -/
  logLevel : Option Bytes := none
  /-- The path of the log file. -/
  logFile : Option Bytes := none
  /-- The format of log records. -/
  logFormat : Option Bytes := none
  /-- The name of the charset of documents. -/
  charset : Option Bytes := none
  /-- The size of the blocks that documents are read in. -/
  bufferSize : Option Nat := none
  /-- The directory that relative locations are resolved against. -/
  baseDirectory : Option Bytes := none
  /-- The directories that are searched. -/
  searchPaths : Option (List Bytes) := none
  /-- The path of the settings file. -/
  configFile : Option Bytes := none
deriving DecidableEq, Repr

namespace Settings

/-! ### The keys of a settings file -/

/-- The key of the log level. -/
def logLevelKey : Bytes := ascii "xmlmode.log.level"
/-- The key of the log file. -/
def logFileKey : Bytes := ascii "xmlmode.log.file"
/-- The key of the log format. -/
def logFormatKey : Bytes := ascii "xmlmode.log.format"
/-- The key of the charset. -/
def charsetKey : Bytes := ascii "xmlmode.detector.charset"
/-- The key of the size of the read buffer. -/
def bufferSizeKey : Bytes := ascii "xmlmode.detector.readBufferSize"
/-- The key of the base directory. -/
def baseDirectoryKey : Bytes := ascii "xmlmode.resources.baseDirectory"
/-- The key of the search paths. -/
def searchPathsKey : Bytes := ascii "xmlmode.resources.searchPaths"

/-! ### Filling in -/

/-- The size of the read buffer in a table, which has to be positive. -/
def bufferSizeIn (t : Toml.Table) : Except SettingsError (Option Nat) :=
  match t.integer? bufferSizeKey with
  | none => .ok none
  | some n => if n ≤ 0 then .error .bufferSizeNotPositive else .ok (some n.toInt.toNat)

/-- Takes the texts that come before the buffer size from a table. -/
def fillTexts (s : Settings) (t : Toml.Table) : Settings :=
  { s with
    logLevel := s.logLevel <|> t.string? logLevelKey
    logFile := s.logFile <|> t.string? logFileKey
    logFormat := s.logFormat <|> t.string? logFormatKey
    charset := s.charset <|> t.string? charsetKey }

/-- Takes the buffer size from a table. -/
def fillBufferSize (s : Settings) (t : Toml.Table) : Except SettingsError Settings :=
  match s.bufferSize with
  | some _ => .ok s
  | none => (bufferSizeIn t).map fun n => { s with bufferSize := n }

/-- Takes the base directory from a table. -/
def fillBaseDirectory (s : Settings) (t : Toml.Table) : Settings :=
  { s with baseDirectory := s.baseDirectory <|> t.string? baseDirectoryKey }

/-- Takes the search paths from a table. -/
def fillSearchPaths (s : Settings) (t : Toml.Table) : Except SettingsError Settings :=
  match s.searchPaths with
  | some _ => .ok s
  | none => (t.strings? searchPathsKey).map fun paths => { s with searchPaths := paths }

/-- Takes every unset setting from a table. An error leaves the settings as far as they had
been filled in before it. -/
def fill (s : Settings) (t : Toml.Table) : Except SettingsError Unit × Settings :=
  let s := s.fillTexts t
  match s.fillBufferSize t with
  | .error e => (.error e, s)
  | .ok s =>
    let s := s.fillBaseDirectory t
    match s.fillSearchPaths t with
    | .error e => (.error e, s)
    | .ok s => (.ok (), s)

/-- Takes every unset setting from the settings file, if one is named. Answers what was
logged as well. -/
def fillFromFile (s : Settings) (files : FileSystem) :
    Except SettingsError Unit × List Log.Record × Settings :=
  match s.configFile with
  | none => (.ok (), [], s)
  | some path =>
    match ({ fileName := path } : Store).load files with
    | (.error e, log, _) => (.error e, log, s)
    | (.ok table, log, _) =>
      let (outcome, s) := s.fill table
      (outcome, log, s)

/-! ### What the settings ask for -/

/-- How documents are to be read. -/
def detectorOptions (s : Settings) : Except Misuse Detector.Options := do
  let charset ←
    match s.charset with
    | none => .ok .utf8
    | some name =>
      match Charset.parse? name with
      | some charset => .ok charset
      | none => .error (.unknownCharset name)
  match s.bufferSize with
  | none => return { charset }
  | some 0 => .error .zeroBufferSize
  | some bufferSize => return { charset, bufferSize }

/-- How locations are to be resolved, given that the working directory has a path if it is asked
for. The base directory is the working directory unless one is set. -/
def loader {σ : Type} (s : Settings) (files : FileSystem) : Loader σ :=
  { baseDirectory := (s.baseDirectory.map Path.ofText).getD files.workingPath
    searchPaths := (s.searchPaths.getD []).map Path.ofText }

/-- The message for a working directory that has been taken away, and has no path any more. -/
def noWorkingDirectory : Bytes :=
  ascii "filesystem error: cannot get current path: " ++ Errno.noEntry.text

/-- How locations are to be resolved, or why they cannot be. The path of the working directory is
asked for only if no base directory is set. -/
def makeLoader {σ : Type} (s : Settings) (files : FileSystem) : Except Bytes (Loader σ) :=
  if s.baseDirectory = none ∧ ¬files.HasWorkingDirectory then .error noWorkingDirectory
  else .ok (s.loader files)

/-- The name of the log level used when none is set. -/
def defaultLogLevel : Bytes := ascii "info"

/-- Starts the logger as the settings ask for it. Answers what the console shows, and the file
system with the log file. -/
def startLogging (s : Settings) (files : FileSystem) (logger : Log.Logger) :
    Except Misuse (Bytes × FileSystem × Log.Logger) :=
  let name := s.logLevel.getD defaultLogLevel
  match Log.Level.parse? name with
  | none => .error (.unknownLogLevel name)
  | some level =>
    let (notice, files, logger) :=
      logger.start files level (s.logFile.getD []) Log.Logger.defaultTimeFormat
    .ok (notice, files, logger.setFormat (s.logFormat.getD []))

end Settings

end DoctypeProbe
