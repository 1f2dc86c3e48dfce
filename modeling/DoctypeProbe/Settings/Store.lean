import DoctypeProbe.FileSystem
import DoctypeProbe.Log.Level
import DoctypeProbe.Settings.Lookup
import DoctypeProbe.Toml.Parser

/-!
# Settings Store

A settings store keeps the table of a settings file and answers lookups by dotted keys. The
file is read when it is asked for, not before; after a failed attempt the table is empty and
the reason has been logged.

A directory opens like a file and reads as an empty document.

## Main results

* `Store.reload` — an attempt to read the file.
* `Store.load` — the table, with an attempt only if there is none yet.
-/

namespace DoctypeProbe

namespace Settings

/-- A settings file and what was read from it. -/
structure Store where
  /-- The path of the file. -/
  fileName : Bytes
  /-- The table read last. -/
  table : Toml.Table := []
  /-- Whether the last attempt to read succeeded. -/
  isLoaded : Bool := false

namespace Store

/-- The name that stands for a document that is not in a file. -/
def inMemory : Bytes := ascii "<string>"

/-- A store over a document in memory. -/
def ofText (text : Bytes) : Except SettingsError Store :=
  match Toml.parse text with
  | .ok table => .ok { fileName := inMemory, table, isLoaded := true }
  | .error e => .error (.parse e)

/-- Reads the table of the file at a path. -/
def readTable (files : FileSystem) (path : Bytes) : Except SettingsError Toml.Table :=
  let parsed (text : Bytes) := (Toml.parse text).mapError SettingsError.parse
  match files.resolve path with
  | .ok (_, .file number) => parsed (files.content number)
  | .ok (_, .directory) => parsed []
  | .error _ => .error (.cannotOpen path)

/-- Reads the file again. A failed attempt empties the table and is logged. Answers whether
the attempt succeeded, and what was logged. -/
def reload (files : FileSystem) (store : Store) : Bool × List Log.Record × Store :=
  match readTable files store.fileName with
  | .ok table => (true, [], { store with table, isLoaded := true })
  | .error e =>
    (false, [⟨.warning, ascii "ConfigLoader: " ++ e.message.untilNul⟩],
      { store with table := [], isLoaded := false })

/-- Reads the file unless it has been read, and answers the table. -/
def load (files : FileSystem) (store : Store) :
    Except SettingsError Toml.Table × List Log.Record × Store :=
  if store.isLoaded then (.ok store.table, [], store)
  else
    match store.reload files with
    | (true, log, store) => (.ok store.table, log, store)
    | (false, log, store) => (.error (.notLoaded store.fileName), log, store)

end Store

end Settings

end DoctypeProbe
