import DoctypeProbe.Resource

/-!
# Resource Loader

A loader finds the resource that a location names. The resolvers registered with it are asked
first, in the order of their registration; the first one that does not pass decides. If all
pass, one rule decides, by the form of the location:

* a leading `/`: the file at this path, as it is written;
* `file:`: the file at the path behind it, where an authority may stand before the path if it
  names the local host;
* `search:`: the file of the name behind it in the first search path that has it, or in the
  very first search path if none has it;
* a `://` anywhere: a scheme that is not supported;
* anything else: the file at this path, seen from the base directory.

A resolver can ask for other locations on the way to its decision, and these are resolved by
the loader in turn. Nothing bounds how deep such requests nest, so resolving takes a bound on
the nesting and answers nothing if the requests go beyond it.

## Main results

* `Loader.rule` — what a location stands for when all resolvers pass.
* `Loader.resolve` — the resource that a location names, and what happened on the way.
* `Loader.locate` — the same without resolvers.
-/

namespace DoctypeProbe

/-! ### Resolvers -/

/-- What a resolver makes of a location. -/
inductive Verdict (σ : Type) where
  /-- The location is left to others. -/
  | pass
  /-- The location names a resource. -/
  | answer (resource : Resource σ)
  /-- The location fails to resolve. -/
  | fail (failure : Failure)
  /-- What another location resolves to is needed to decide. -/
  | ask (location : Bytes) (next : Except Failure (Resource σ) → Verdict σ)

/-- A location stands for whatever another location stands for. -/
def Verdict.redirect {σ : Type} (location : Bytes) : Verdict σ :=
  .ask location fun
    | .ok resource => .answer resource
    | .error failure => .fail failure

/-- A resolver judges a location. It also learns how many requests of resolvers are under
way. -/
abbrev Resolver (σ : Type) := Nat → Bytes → Verdict σ

/-! ### Loaders -/

/-- How locations are resolved. -/
structure Loader (σ : Type) where
  /-- The directory that relative paths are seen from; empty if there is none. -/
  baseDirectory : Path := {}
  /-- The directories that are searched, in order. -/
  searchPaths : List Path := []
  /-- The resolvers that are asked first, in order. -/
  resolvers : List (Resolver σ) := []

namespace Loader

variable {σ : Type}

/-- Adds a directory at the end of those that are searched. -/
def addSearchPath (loader : Loader σ) (directory : Path) : Loader σ :=
  { loader with searchPaths := loader.searchPaths ++ [directory] }

/-- Adds a resolver at the end of those that are asked. A missing one is refused. -/
def addResolver (loader : Loader σ) : Option (Resolver σ) → Except Misuse (Loader σ)
  | none => .error .emptyResolver
  | some resolver => .ok { loader with resolvers := loader.resolvers ++ [resolver] }

/-! ### The rules -/

/-- The form of a location, which decides about it when all resolvers pass. -/
inductive Form where
  /-- A path that starts at the root. -/
  | absolute (path : Bytes)
  /-- A path after `file:`. -/
  | file (path : Bytes)
  /-- An authority after `file:` that is not the local host. -/
  | remote
  /-- A name after `search:`. -/
  | search (name : Bytes)
  /-- A location with an unknown scheme. -/
  | scheme
  /-- A plain path. -/
  | plain (path : Bytes)
deriving DecidableEq, Repr

/-- Marks the path of a file. -/
def fileMark : Bytes := ascii "file:"

/-- Marks a name to be searched. -/
def searchMark : Bytes := ascii "search:"

/-- Separates a scheme from what is named in it. -/
def schemeMark : Bytes := ascii "://"

/-- The form of what stands after `file:`. After two slashes comes an authority up to the next
slash, and the path begins with that slash; without one the path is the root. -/
def fileForm (text : Bytes) : Form :=
  match text.afterOpening (ascii "//") with
  | none => .file text
  | some afterSlashes =>
    let host := afterSlashes.takeWhile (· != Ascii.slash)
    let path := afterSlashes.dropWhile (· != Ascii.slash)
    if host.isEmpty || host == ascii "localhost" then
      .file (if path.isEmpty then [Ascii.slash] else path)
    else .remote

/-- The form of a location. -/
def formOf (location : Bytes) : Form :=
  if location.head? = some Ascii.slash then .absolute location
  else
    match location.afterOpening fileMark with
    | some text => fileForm text
    | none =>
      match location.afterOpening searchMark with
      | some name => .search name
      | none => if location.contains schemeMark then .scheme else .plain location

/-- The file at a path seen from the base directory, with its path in normal form. -/
def atPath (loader : Loader σ) (path : Bytes) : Resource σ :=
  .file (loader.baseDirectory.join (Path.ofText path)).normal

/-- The path of a name in a directory that is searched. Slashes in front of the name do not
lead out of the directory. -/
def candidate (name : Bytes) (directory : Path) : Path :=
  (directory.join (Path.ofText (name.dropWhile (· == Ascii.slash)))).normal

/-- The record of a name that was found in a directory. -/
def foundIn (location : Bytes) (directory : Path) : Log.Record :=
  ⟨.debug, ascii "ResourceLoader: " ++ location ++ ascii " found in " ++ directory.text⟩

/-- The file of a name in the first directory that has it, or else in the very first one. -/
def search (loader : Loader σ) (files : FileSystem) (location name : Bytes) :
    Except Failure (Resource σ) × List Log.Record :=
  match loader.searchPaths.find? fun d => files.isRegularFile (candidate name d).text with
  | some directory => (.ok (.file (candidate name directory)), [foundIn location directory])
  | none =>
    match loader.searchPaths with
    | [] => (.error (.io (.notFound location)), [])
    | first :: _ => (.ok (.file (candidate name first)), [])

/-- What a location stands for when all resolvers pass, and what is logged. -/
def rule (loader : Loader σ) (files : FileSystem) (location : Bytes) :
    Except Failure (Resource σ) × List Log.Record :=
  match formOf location with
  | .absolute path => (.ok (.file (Path.ofText path)), [])
  | .file path | .plain path => (.ok (loader.atPath path), [])
  | .search name => loader.search files location name
  | .remote | .scheme => (.error (.unsupportedLocation location), [])

/-- The paths that a location can lead to when all resolvers pass. -/
def pathsFor (loader : Loader σ) (location : Bytes) : List Path :=
  match formOf location with
  | .absolute path => [Path.ofText path]
  | .file path | .plain path => (loader.atPath path).path?.toList
  | .search name => loader.searchPaths.map (candidate name)
  | .remote | .scheme => []

/-- What a location names to a loader that asks no resolvers, and what is logged. -/
def locate (loader : Loader σ) (files : FileSystem) (location : Bytes) :
    Except Failure (Resource σ) × List Log.Record :=
  if location.isEmpty then (.error (.misuse .emptyLocation), []) else loader.rule files location

/-! ### Resolution -/

/-- What happens while a location is resolved. -/
inductive Event where
  /-- The resolver at an index is asked about a location. -/
  | consulted (index : Nat) (location : Bytes)
  /-- Something is logged. -/
  | logged (record : Log.Record)
deriving DecidableEq, Repr

/-- What was logged in a sequence of events. -/
def Event.log (events : List Event) : List Log.Record :=
  events.filterMap fun
    | .logged record => some record
    | .consulted .. => none

/-- The end of a resolution, and what happened on the way. -/
structure Resolution (α : Type) where
  /-- What was found, or why nothing was. -/
  outcome : Except Failure α
  /-- What happened, in order. -/
  events : List Event := []

/-- Comes to the end of a verdict, given how the locations it asks for are resolved. Answers
the resource, or none if the resolver passes. -/
def settle (nested : Bytes → Option (Resolution (Resource σ))) :
    Verdict σ → Option (Resolution (Option (Resource σ)))
  | .pass => some { outcome := .ok none }
  | .answer resource => some { outcome := .ok (some resource) }
  | .fail failure => some { outcome := .error failure }
  | .ask location next =>
    match nested location with
    | none => none
    | some r =>
      (settle nested (next r.outcome)).map fun rest =>
        { rest with events := r.events ++ rest.events }

/-- The record of a location that a resolver decided. -/
def decidedByResolver (location : Bytes) : Log.Record :=
  ⟨.trace, ascii "ResourceLoader: " ++ location ++ ascii " resolved by protocol resolver"⟩

/-- Asks resolvers about a location until one does not pass; `index` is that of the first of
them, and `requests` the number of requests under way. -/
def consult (nested : Bytes → Option (Resolution (Resource σ))) (requests : Nat)
    (location : Bytes) (index : Nat) :
    List (Resolver σ) → Option (Resolution (Option (Resource σ)))
  | [] => some { outcome := .ok none }
  | resolver :: resolvers =>
    match settle nested (resolver requests location) with
    | none => none
    | some r =>
      let events := .consulted index location :: r.events
      match r.outcome with
      | .error failure => some { outcome := .error failure, events }
      | .ok (some resource) =>
        some
          { outcome := .ok (some resource)
            events := events ++ [.logged (decidedByResolver location)] }
      | .ok none =>
        (consult nested requests location (index + 1) resolvers).map fun rest =>
          { rest with events := events ++ rest.events }

/-- Resolves a location while `requests` requests of resolvers are under way, and at most
`nesting` more are allowed to nest. -/
def resolveFrom (loader : Loader σ) (files : FileSystem) :
    Nat → Nat → Bytes → Option (Resolution (Resource σ))
  | nesting, requests, location =>
    if location.isEmpty then some { outcome := .error (.misuse .emptyLocation) }
    else
      let nested (other : Bytes) :=
        match nesting with
        | 0 => none
        | nesting + 1 => resolveFrom loader files nesting (requests + 1) other
      (consult nested requests location 0 loader.resolvers).map fun r =>
        match r.outcome with
        | .error failure => { outcome := .error failure, events := r.events }
        | .ok (some resource) => { outcome := .ok resource, events := r.events }
        | .ok none =>
          let (outcome, log) := loader.rule files location
          { outcome, events := r.events ++ log.map .logged }

/-- Resolves a location; `none` if requests of resolvers nest deeper than `nesting`. -/
def resolve (loader : Loader σ) (files : FileSystem) (nesting : Nat) (location : Bytes) :
    Option (Resolution (Resource σ)) :=
  loader.resolveFrom files nesting 0 location

/-- Without resolvers, resolving a location is locating it. -/
theorem resolve_of_resolvers_eq_nil {loader : Loader σ} (h : loader.resolvers = [])
    (files : FileSystem) (nesting : Nat) (location : Bytes) :
    loader.resolve files nesting location =
      some
        { outcome := (loader.locate files location).1
          events := (loader.locate files location).2.map .logged } := by
  unfold resolve resolveFrom locate
  split
  · rfl
  · simp [h, consult]

end Loader

end DoctypeProbe
