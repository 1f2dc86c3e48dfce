import DoctypeProbe.Proofs.Toml.Writing
import DoctypeProbe.Settings.Store

/-!
# Attempts to Read Settings

The file of a settings store can come, change and go at any time, while the store is loaded,
reloaded and asked for settings. What the store is then depends on its last attempt to read the
file and on nothing else: it holds what that attempt found, and nothing if it failed. A store over
a document in memory begins as if an attempt had found the document; a later attempt looks for a
file by the name that stands for the document.

Which attempts are made is said apart from the store, by the actions and the files that each of
them meets: reloading makes one, and loading makes one unless the last one has found a table.

## Main results

* `Settings.Store.toOption_readTable`: what an attempt finds is what the text of the file denotes.
* `Settings.Store.World.run_shows`: the store after a run is what the last attempt has left.
* `Settings.Store.run_tracks_attempts`: the state, the log and the answers of a store in every run.
-/

namespace DoctypeProbe

namespace Settings

namespace Store

/-! ### One attempt -/

/-- The text that the file at a path gives when it is read. A directory reads as an empty text. -/
def textAt? (files : FileSystem) (path : Bytes) : Option Bytes :=
  match files.resolve path with
  | .ok (_, .file number) => some (files.content number)
  | .ok (_, .directory) => some []
  | .error _ => none

/-- The table that an attempt to read finds: the one that the text of the file denotes. -/
def tableAt? (files : FileSystem) (path : Bytes) : Option Toml.Table :=
  (textAt? files path).bind fun text => (Toml.parse text).toOption

/-- **What an attempt finds** is what the text of the file denotes. -/
theorem toOption_readTable (files : FileSystem) (path : Bytes) :
    (readTable files path).toOption = tableAt? files path := by
  have hparsed : ∀ text : Bytes, ((Toml.parse text).mapError SettingsError.parse).toOption =
      (Toml.parse text).toOption := by
    intro text
    cases Toml.parse text <;> rfl
  rw [readTable, tableAt?, textAt?]
  rcases files.resolve path with e | ⟨place, _ | number⟩
  · rfl
  · exact hparsed []
  · exact hparsed (files.content number)

/-- An attempt on a store ends with an answer, a log and the store it leaves: it finds a table and
logs nothing, or it empties the store and logs one warning. -/
def AttemptEnds (files : FileSystem) (store : Store) (ok : Bool) (log : List Log.Record)
    (store' : Store) : Prop :=
  match tableAt? files store.fileName with
  | some t => ok = true ∧ log = [] ∧ store' = { store with table := t, isLoaded := true }
  | none => ok = false ∧ (∃ text, log = [⟨.warning, text⟩]) ∧
      store' = { store with table := [], isLoaded := false }

/-- **Reloading makes an attempt**, whatever the store holds. -/
theorem attemptEnds_reload (files : FileSystem) (store : Store) :
    AttemptEnds files store (store.reload files).1 (store.reload files).2.1
      (store.reload files).2.2 := by
  rw [AttemptEnds, ← toOption_readTable, reload]
  cases readTable files store.fileName with
  | ok t => exact ⟨rfl, rfl, rfl⟩
  | error e => exact ⟨rfl, ⟨_, rfl⟩, rfl⟩

/-- A store that is loaded is not read again: loading answers its table, whatever the files. -/
theorem load_of_isLoaded {store : Store} (h : store.isLoaded = true) (files : FileSystem) :
    store.load files = (.ok store.table, [], store) := by
  rw [load, if_pos h]

/-- **Loading makes an attempt** on a store that is not loaded, and fails exactly if it does. -/
theorem load_of_not_isLoaded {store : Store} (h : store.isLoaded = false) (files : FileSystem) :
    store.load files =
      (if (store.reload files).1 then .ok (store.reload files).2.2.table
        else .error (.notLoaded store.fileName),
        (store.reload files).2.1, (store.reload files).2.2) := by
  rw [load, h, reload]
  cases readTable files store.fileName <;> rfl

/-! ### Actions -/

/-- The type that a setting is to have. -/
inductive Kind where
  /-- An integer. -/
  | integer
  /-- A truth value. -/
  | boolean
  /-- A text. -/
  | string
  /-- A floating-point number. -/
  | float
  /-- An array of texts. -/
  | strings
deriving DecidableEq, Repr

/-- What is done with a store, or happens to the files around it. -/
inductive Action where
  /-- The store is loaded. -/
  | load
  /-- The store is reloaded. -/
  | reload
  /-- A setting is looked up. -/
  | lookUp (kind : Kind) (key : Bytes)
  /-- The files change: any of them may come, be written to, or go. -/
  | change (files : FileSystem)

/-- What an action answers. -/
inductive Answer where
  /-- The table of a store that is loaded, or why there is none. -/
  | loaded (outcome : Except SettingsError Toml.Table)
  /-- Whether a store has been reloaded. -/
  | reloaded (ok : Bool)
  /-- The integer at a key. -/
  | integer (value : Option Int64)
  /-- The truth value at a key. -/
  | boolean (value : Option Bool)
  /-- The text at a key. -/
  | string (value : Option Bytes)
  /-- The floating-point number at a key. -/
  | float (value : Option Binary64)
  /-- The texts at a key, unless an item is something else. -/
  | strings (value : Except SettingsError (Option (List Bytes)))
  /-- Nothing was asked. -/
  | silent

/-- What a table answers to a lookup. -/
def answerOf (t : Toml.Table) (key : Bytes) : Kind → Answer
  | .integer => .integer (t.integer? key)
  | .boolean => .boolean (t.boolean? key)
  | .string => .string (t.string? key)
  | .float => .float (t.float? key)
  | .strings => .strings (t.strings? key)

/-- Whether an action is a lookup. -/
def Action.isLookUp : Action → Bool
  | lookUp .. => true
  | _ => false

/-- A store, and the files as they are. -/
structure World where
  /-- The files. -/
  files : FileSystem
  /-- The store. -/
  store : Store

namespace World

/-- Performs an action: what it answers, what is logged, and the world after it. -/
def act (w : World) : Action → Answer × List Log.Record × World
  | .load =>
    let (outcome, log, store) := w.store.load w.files
    (.loaded outcome, log, { w with store })
  | .reload =>
    let (ok, log, store) := w.store.reload w.files
    (.reloaded ok, log, { w with store })
  | .lookUp kind key => (answerOf w.store.table key kind, [], w)
  | .change files => (.silent, [], { w with files })

/-- Performs actions in order: everything that is logged, and the world after them. -/
def run (w : World) : List Action → List Log.Record × World
  | [] => ([], w)
  | action :: actions =>
    let (_, log, w) := w.act action
    let (logs, w) := run w actions
    (log ++ logs, w)

theorem run_cons (w : World) (action : Action) (actions : List Action) :
    w.run (action :: actions) =
      ((w.act action).2.1 ++ ((w.act action).2.2.run actions).1,
        ((w.act action).2.2.run actions).2) := rfl

/-- Lookups can be left out of a run: they log nothing and change nothing. -/
theorem run_filter_lookUps (w : World) (actions : List Action) :
    w.run (actions.filter (!·.isLookUp)) = w.run actions := by
  induction actions generalizing w with
  | nil => rfl
  | cons action actions ih =>
      cases action with
      | lookUp kind key => exact ih w
      | load | reload | change =>
          rw [List.filter_cons_of_pos rfl, run_cons, run_cons, ih]

end World

/-! ### The attempts of a run -/

/-- Whether an attempt to read the file at a path fails. -/
def fails (path : Bytes) (files : FileSystem) : Bool := (tableAt? files path).isNone

/-- The attempts that actions make to read the file at a path, each given by the files that it
meets. `loaded` says whether the attempt before them has found a table. -/
def attempts (path : Bytes) (loaded : Bool) (files : FileSystem) :
    List Action → List FileSystem
  | [] => []
  | .reload :: actions => files :: attempts path (!fails path files) files actions
  | .load :: actions =>
    if loaded then attempts path loaded files actions
    else files :: attempts path (!fails path files) files actions
  | .lookUp .. :: actions => attempts path loaded files actions
  | .change files :: actions => attempts path loaded files actions

/-- What the last of some attempts has found; without any, it is `before`. -/
def lastFound (path : Bytes) (before : Option Toml.Table) (tries : List FileSystem) :
    Option Toml.Table :=
  match tries.getLast? with
  | none => before
  | some files => tableAt? files path

/-- What has been found last counts until another attempt is made. -/
theorem lastFound_append (path : Bytes) (before : Option Toml.Table)
    (tries more : List FileSystem) :
    lastFound path before (tries ++ more) = lastFound path (lastFound path before tries) more := by
  rw [lastFound, List.getLast?_append]
  cases hlast : more.getLast? with
  | none => rw [lastFound, lastFound, hlast, Option.none_or]
  | some files => rw [lastFound, hlast, Option.some_or]

/-- A store holds what has been found last, and is loaded if anything has. -/
def Shows (store : Store) (found : Option Toml.Table) : Prop :=
  store.isLoaded = found.isSome ∧ store.table = found.getD []

/-- The end of an attempt shows what the attempt has found. -/
theorem AttemptEnds.shows {files : FileSystem} {store store' : Store} {ok : Bool}
    {log : List Log.Record} (h : AttemptEnds files store ok log store') :
    Shows store' (tableAt? files store.fileName) ∧ store'.fileName = store.fileName := by
  rw [AttemptEnds] at h
  cases hfound : tableAt? files store.fileName with
  | some t =>
      rw [hfound] at h
      obtain ⟨-, -, rfl⟩ := h
      exact ⟨⟨rfl, rfl⟩, rfl⟩
  | none =>
      rw [hfound] at h
      obtain ⟨-, -, rfl⟩ := h
      exact ⟨⟨rfl, rfl⟩, rfl⟩

/-- An attempt logs one warning if it fails, and nothing otherwise. -/
theorem AttemptEnds.levels {files : FileSystem} {store store' : Store} {ok : Bool}
    {log : List Log.Record} (h : AttemptEnds files store ok log store') :
    log.map (·.level) = List.replicate ([files].countP (fails store.fileName)) .warning := by
  rw [AttemptEnds] at h
  cases hfound : tableAt? files store.fileName with
  | some t =>
      rw [hfound] at h
      obtain ⟨-, rfl, -⟩ := h
      simp [fails, hfound]
  | none =>
      rw [hfound] at h
      obtain ⟨-, ⟨text, rfl⟩, -⟩ := h
      simp [fails, hfound]

/-! ### One action -/

/-- What an action does to a store that shows what has been found last: there is at most one
attempt, and afterwards the store shows what has been found last by then. -/
structure Acted (w : World) (found : Option Toml.Table) (action : Action) : Prop where
  /-- The store keeps its file. -/
  fileName : (w.act action).2.2.store.fileName = w.store.fileName
  /-- The store shows what has been found. -/
  shows : Shows (w.act action).2.2.store
    (lastFound w.store.fileName found (attempts w.store.fileName found.isSome w.files [action]))
  /-- One warning is logged for an attempt that fails, and nothing else. -/
  levels : (w.act action).2.1.map (·.level) = List.replicate
    ((attempts w.store.fileName found.isSome w.files [action]).countP (fails w.store.fileName))
    .warning

/-- The attempt of a store that is not loaded is that of a store that is reloaded. -/
theorem act_load_of_not_isLoaded {w : World} (h : w.store.isLoaded = false) :
    (w.act .load).2 = (w.act .reload).2 := by
  simp only [World.act, load_of_not_isLoaded h]

theorem acted_reload (w : World) (found : Option Toml.Table) : Acted w found .reload := by
  have hends := attemptEnds_reload w.files w.store
  exact ⟨hends.shows.2, hends.shows.1, hends.levels⟩

/-- **One action** keeps the store to what has been found last. -/
theorem acted {w : World} {found : Option Toml.Table} (h : Shows w.store found)
    (action : Action) : Acted w found action := by
  cases action with
  | reload => exact acted_reload w found
  | load =>
      cases found with
      | some t =>
          have hact : (w.act .load).2 = ([], w) := by
            simp only [World.act, load_of_isLoaded h.1]
          exact ⟨by rw [hact], by rw [hact]; exact h, by rw [hact]; rfl⟩
      | none =>
          -- the attempt is the one that reloading makes
          obtain ⟨hname, hshows, hlevels⟩ := acted_reload w none
          have hact := act_load_of_not_isLoaded h.1
          exact ⟨by rw [hact, hname], by rw [hact]; exact hshows, by rw [hact]; exact hlevels⟩
  | lookUp kind key => exact ⟨rfl, h, rfl⟩
  | change files => exact ⟨rfl, h, rfl⟩

/-! ### Whole runs -/

/-- The attempts of a run are those of its first action and those of the others, which know what
has been found by then. -/
theorem attempts_cons (w : World) (found : Option Toml.Table) (action : Action)
    (actions : List Action) :
    attempts w.store.fileName found.isSome w.files (action :: actions) =
      attempts w.store.fileName found.isSome w.files [action] ++
        attempts w.store.fileName
          (lastFound w.store.fileName found
            (attempts w.store.fileName found.isSome w.files [action])).isSome
          (w.act action).2.2.files actions := by
  have hfails : ∀ files : FileSystem,
      (!fails w.store.fileName files) = (tableAt? files w.store.fileName).isSome := by
    intro files
    rw [fails, Option.not_isNone]
  cases action with
  | reload => rw [attempts, hfails]; rfl
  | load =>
      cases found with
      | some t => rfl
      | none => rw [attempts, hfails]; rfl
  | lookUp kind key => rfl
  | change files => rfl

/-- **A run keeps the store to what has been found last**, and logs a warning for each attempt
that fails. -/
theorem World.run_shows {w : World} {found : Option Toml.Table} (h : Shows w.store found)
    (actions : List Action) :
    let tries := attempts w.store.fileName found.isSome w.files actions
    (w.run actions).2.store.fileName = w.store.fileName ∧
      Shows (w.run actions).2.store (lastFound w.store.fileName found tries) ∧
      (w.run actions).1.map (·.level) =
        List.replicate (tries.countP (fails w.store.fileName)) .warning := by
  induction actions generalizing w found with
  | nil => exact ⟨rfl, h, rfl⟩
  | cons action actions ih =>
      obtain ⟨hname, hshows, hlevels⟩ := acted h action
      obtain ⟨hname', hshows', hlevels'⟩ := ih hshows
      rw [hname] at hname' hshows' hlevels'
      intro tries
      have htries : tries = _ ++ _ := attempts_cons w found action actions
      rw [htries, run_cons, lastFound_append, List.countP_append, List.map_append, hlevels,
        hlevels', List.replicate_append_replicate]
      exact ⟨hname', hshows', rfl⟩

/-- How a store begins, and the table that is found in it before any attempt. -/
inductive Begins : Store → Option Toml.Table → Prop
  /-- A store over a file has not been read. -/
  | file (path : Bytes) : Begins { fileName := path } none
  /-- A store over a document in memory holds what the document denotes. -/
  | document {text : Bytes} {store : Store} {t : Toml.Table} (h : ofText text = .ok store)
      (ht : Toml.parse text = .ok t) : Begins store (some t)

theorem Begins.shows {store : Store} {found : Option Toml.Table} (h : Begins store found) :
    Shows store found := by
  cases h with
  | file path => exact ⟨rfl, rfl⟩
  | document h ht =>
      rw [ofText, ht] at h
      cases h
      exact ⟨rfl, rfl⟩

/-- **A store tracks its last attempt.** In every run of actions on a store over a file or over a
document in memory, with the files changing in any way:

* the store is loaded exactly if the last attempt has found a table, and holds that table;
* one warning is logged for each attempt that fails, and nothing else;
* loading answers the table and reads nothing if the store is loaded; otherwise it makes an
  attempt, and fails exactly if the attempt does;
* reloading makes an attempt;
* lookups are answered from the table, and the run is the same without them. -/
theorem run_tracks_attempts {store : Store} {before : Option Toml.Table} (h : Begins store before)
    (files : FileSystem) (actions : List Action) :
    let tries := attempts store.fileName before.isSome files actions
    let found := lastFound store.fileName before tries
    let log := (World.run ⟨files, store⟩ actions).1
    let w := (World.run ⟨files, store⟩ actions).2
    (w.store.fileName = store.fileName ∧ w.store.isLoaded = found.isSome ∧
      w.store.table = found.getD []) ∧
    log.map (·.level) = List.replicate (tries.countP (fails store.fileName)) .warning ∧
    (∀ t, found = some t → ∀ files', w.store.load files' = (.ok t, [], w.store)) ∧
    (found = none → ∀ files', ∃ ok log' store', AttemptEnds files' w.store ok log' store' ∧
      w.store.load files' =
        (if ok then .ok store'.table else .error (.notLoaded store.fileName), log', store')) ∧
    (∀ files', ∃ ok log' store', AttemptEnds files' w.store ok log' store' ∧
      w.store.reload files' = (ok, log', store')) ∧
    (∀ kind key, w.act (.lookUp kind key) = (answerOf (found.getD []) key kind, [], w)) ∧
    World.run ⟨files, store⟩ (actions.filter (!·.isLookUp)) = (log, w) := by
  intro tries found log w
  obtain ⟨hname, ⟨hloaded, htable⟩, hlevels⟩ :=
    World.run_shows (w := ⟨files, store⟩) h.shows actions
  refine ⟨⟨hname, hloaded, htable⟩, hlevels, ?_, ?_, ?_, ?_, ?_⟩
  · intro t ht files'
    have hfound : found.isSome = true := by rw [ht]; rfl
    rw [load_of_isLoaded (hloaded.trans hfound), htable]
    change (Except.ok (found.getD []), _, _) = _
    rw [ht]
    rfl
  · intro hnone files'
    have hfound : found.isSome = false := by rw [hnone]; rfl
    refine ⟨_, _, _, attemptEnds_reload files' w.store, ?_⟩
    rw [load_of_not_isLoaded (hloaded.trans hfound), hname]
  · intro files'
    exact ⟨_, _, _, attemptEnds_reload files' w.store, rfl⟩
  · intro kind key
    rw [World.act, htable]
  · exact World.run_filter_lookUps _ actions

/-! ### A sample -/

/-- The name of a settings file. -/
def sampleName : Bytes := ascii "a.toml"

/-- A settings document of one assignment. -/
def sampleText : Bytes := ascii "a = 1\n"

/-- The files while the settings file is there. -/
def sampleFiles : FileSystem :=
  { entries := [([sampleName], .file 0)], contents := [(0, sampleText)] }

/-- The file is missing at first, comes, is read, and goes again. -/
def sampleActions : List Action :=
  [.load, .change sampleFiles, .load, .change {}, .lookUp .integer (ascii "a"), .load]

theorem parse_sampleText : Toml.parse sampleText = .ok [(ascii "a", .integer 1)] := by
  have hscript : Toml.Script (Toml.afterBlank sampleText) [.assign (ascii "a") (.integer 1)] := by
    have htext : sampleText = Toml.writeAll [.assign (ascii "a") (.integer 1)] := by
      decide +kernel
    rw [htext]
    exact Toml.script_writeAll (List.forall_mem_singleton.mpr ⟨by decide, .integer 1⟩)
  exact Toml.parse_eq_ok_iff.mpr ⟨_, _, hscript, rfl, rfl⟩

theorem tableAt?_sampleFiles :
    tableAt? sampleFiles sampleName = some [(ascii "a", .integer 1)] := by
  have htext : textAt? sampleFiles sampleName = some sampleText := by decide
  rw [tableAt?, htext, Option.bind_some, parse_sampleText]
  rfl

/-- The second of two attempts finds the table, which the store keeps when the file is gone. -/
theorem run_sampleActions :
    Begins { fileName := sampleName } none ∧
      (World.run ⟨{}, { fileName := sampleName }⟩ sampleActions).2.store.isLoaded = true ∧
      (World.run ⟨{}, { fileName := sampleName }⟩ sampleActions).2.store.table =
        [(ascii "a", .integer 1)] ∧
      (World.run ⟨{}, { fileName := sampleName }⟩ sampleActions).1.map (·.level) =
        [.warning] := by
  have hbegins := Begins.file sampleName
  have hmissing : fails sampleName {} = true := by decide
  have hfound : fails sampleName sampleFiles = false := by rw [fails, tableAt?_sampleFiles]; rfl
  have htries : attempts sampleName false {} sampleActions = [{}, sampleFiles] := by
    simp [attempts, sampleActions, hmissing, hfound]
  obtain ⟨⟨-, hloaded, htable⟩, hlevels, -⟩ := run_tracks_attempts hbegins {} sampleActions
  simp only [Option.isSome_none, htries, lastFound, List.getLast?_cons_cons,
    List.getLast?_singleton, tableAt?_sampleFiles] at hloaded htable hlevels
  refine ⟨hbegins, hloaded, htable, ?_⟩
  rw [hlevels, List.countP_cons_of_pos hmissing, List.countP_cons_of_neg (by rw [hfound]; decide)]
  rfl

end Store

end Settings

end DoctypeProbe
