import DoctypeProbe.Proofs.Settings.Attempts
import DoctypeProbe.Proofs.Settings.Layering

/-!
# Settings of the Wrong Type

A table can hold a value at the key of a setting that is not of the type the setting needs. Filling
in settings should refuse such a table as it refuses a size of the read buffer that is not positive,
or a search path that is not a text. It does not: a typed lookup finds a value of another type as
little as none at all, so the setting is passed over and has its default.

The one exception is an array of search paths with an item that is not a text. Any other value of
the wrong type can be taken out of the table, and filling in ends in the same way with the same
settings. Where it fails, it fails for another value.

## Main results

* `Settings.isUnset_fill_of_mistyped`: a setting with a value of the wrong type stays unset.
* `Settings.fill_of_overlooked`: such a value has no part in what filling in comes to.
* `Settings.mistyped_reported_iff`: the tables for which a value of the wrong type is reported.
-/

namespace DoctypeProbe

namespace Settings

/-! ### Settings by key and type -/

/-- A setting that is taken from a table. -/
inductive Field where
  /-- The name of the least log level. -/
  | logLevel
  /-- The path of the log file. -/
  | logFile
  /-- The format of log records. -/
  | logFormat
  /-- The name of the charset. -/
  | charset
  /-- The size of the read buffer. -/
  | bufferSize
  /-- The base directory. -/
  | baseDirectory
  /-- The directories that are searched. -/
  | searchPaths
deriving DecidableEq, Repr

/-- The key that a setting is looked up by. -/
def Field.key : Field → Bytes
  | logLevel => logLevelKey
  | logFile => logFileKey
  | logFormat => logFormatKey
  | charset => charsetKey
  | bufferSize => bufferSizeKey
  | baseDirectory => baseDirectoryKey
  | searchPaths => searchPathsKey

/-- The type that a setting needs. -/
def Field.kind : Field → Store.Kind
  | bufferSize => .integer
  | searchPaths => .strings
  | _ => .string

/-- A setting has no value yet. -/
def Field.IsUnset (s : Settings) : Field → Prop
  | logLevel => s.logLevel = none
  | logFile => s.logFile = none
  | logFormat => s.logFormat = none
  | charset => s.charset = none
  | bufferSize => s.bufferSize = none
  | baseDirectory => s.baseDirectory = none
  | searchPaths => s.searchPaths = none

/-- A value is of a type. An integer is a floating-point number as well. -/
def Store.Kind.Accepts : Store.Kind → Toml.Node → Prop
  | integer, node => ∃ n, node = .integer n
  | boolean, node => ∃ v, node = .boolean v
  | string, node => ∃ text, node = .string text
  | float, node => (∃ x, node = .float x) ∨ ∃ n, node = .integer n
  | strings, node => ∃ texts : List Bytes, node = .array (texts.map .string)

/-- A setting is looked for in a table, and has a value of another type there. -/
def Mistyped (s : Settings) (t : Toml.Table) (field : Field) : Prop :=
  field.IsUnset s ∧ ∃ node, t.atPath field.key = some node ∧ ¬field.kind.Accepts node

/-! ### What typed lookups find -/

variable {s u : Settings} {t t' : Toml.Table} {field : Field} {key : Bytes} {node : Toml.Node}

theorem string?_eq_none (hat : t.atPath key = some node) (h : ¬Store.Kind.string.Accepts node) :
    t.string? key = none := by
  rw [Toml.Table.string?, hat]
  cases node with
  | string text => exact absurd ⟨text, rfl⟩ h
  | integer | float | boolean | array | table => rfl

theorem integer?_eq_none (hat : t.atPath key = some node) (h : ¬Store.Kind.integer.Accepts node) :
    t.integer? key = none := by
  rw [Toml.Table.integer?, hat]
  cases node with
  | integer n => exact absurd ⟨n, rfl⟩ h
  | string | float | boolean | array | table => rfl

/-- A list of texts is what its texts make it. -/
theorem eq_map_of_texts? {items : List Toml.Node} {texts : List Bytes}
    (h : Toml.Table.texts? items = some texts) : items = texts.map .string := by
  induction items generalizing texts with
  | nil =>
      cases h
      rfl
  | cons item items ih =>
      cases item with
      | string text =>
          rw [Toml.Table.texts?] at h
          obtain ⟨texts', htexts, rfl⟩ := Option.map_eq_some_iff.mp h
          rw [List.map_cons, ← ih htexts]
      | integer | float | boolean | array | table => cases h

/-- A value that is not an array is as little an array of texts as none at all. -/
theorem strings?_eq_ok_none (hat : t.atPath key = some node) (h : ∀ items, node ≠ .array items) :
    t.strings? key = .ok none := by
  rw [Toml.Table.strings?, hat]
  cases node with
  | array items => exact absurd rfl (h items)
  | string | integer | float | boolean | table => rfl

/-- No array of texts is found at a value of another type, whether or not that is an error. -/
theorem strings?_join_eq_none (hat : t.atPath key = some node)
    (h : ¬Store.Kind.strings.Accepts node) : (t.strings? key).toOption.join = none := by
  cases node with
  | array items =>
      cases htexts : Toml.Table.texts? items with
      | none =>
          have hitem := texts?_eq_none_iff.mp htexts
          rw [strings?_eq_error_iff.mpr ⟨rfl, items, hat, hitem⟩]
          rfl
      | some texts => exact absurd ⟨texts, congrArg _ (eq_map_of_texts? htexts)⟩ h
  | string | integer | float | boolean | table =>
      rw [strings?_eq_ok_none hat nofun]
      rfl

/-! ### Settings that stay unset -/

/-- A table gives no setting that it has a value of another type for. -/
theorem isUnset_given (hat : t.atPath field.key = some node) (h : ¬field.kind.Accepts node) :
    field.IsUnset (given t) := by
  cases field with
  | bufferSize => exact Option.map_eq_none_iff.mpr (integer?_eq_none hat h)
  | searchPaths => exact strings?_join_eq_none hat h
  | logLevel | logFile | logFormat | charset | baseDirectory => exact string?_eq_none hat h

/-- A setting is unset where both layers leave it so. -/
theorem isUnset_overlay (hs : field.IsUnset s) (hu : field.IsUnset u) :
    field.IsUnset (s.overlay u) := by
  cases field <;> exact Option.or_eq_none_iff.mpr ⟨hs, hu⟩

/-- Filling in lays settings over others that the table gives, up to the first value that cannot be
used. -/
theorem exists_fill_eq_overlay (s : Settings) (t : Toml.Table) :
    ∃ u, (s.fill t).2 = s.overlay u ∧
      ∀ field : Field, field.IsUnset (given t) → field.IsUnset u := by
  by_cases hsize : UnusableBufferSize s t
  · refine ⟨givenTexts t, by rw [fill_of_unusableBufferSize hsize], fun field h => ?_⟩
    cases field with
    | bufferSize | baseDirectory | searchPaths => rfl
    | logLevel | logFile | logFormat | charset => exact h
  · by_cases hpaths : UnusableSearchPaths s t
    · refine ⟨givenBeforePaths t, by rw [fill_of_unusableSearchPaths hsize hpaths],
        fun field h => ?_⟩
      cases field with
      | searchPaths => rfl
      | logLevel | logFile | logFormat | charset | bufferSize | baseDirectory => exact h
    · exact ⟨given t, by rw [fill_of_usable hsize hpaths], fun _ h => h⟩

/-- **A setting with a value of the wrong type stays unset.** -/
theorem isUnset_fill_of_mistyped (h : Mistyped s t field) : field.IsUnset (s.fill t).2 := by
  obtain ⟨hs, node, hat, hnot⟩ := h
  obtain ⟨u, hu, hkept⟩ := exists_fill_eq_overlay s t
  rw [hu]
  exact isUnset_overlay hs (hkept field (isUnset_given hat hnot))

/-! ### Values that are passed over -/

/-- A value of the wrong type that is not an array of search paths. -/
def Overlooked (t : Toml.Table) (field : Field) : Prop :=
  ∃ node, t.atPath field.key = some node ∧ ¬field.kind.Accepts node ∧
    (field = .searchPaths → ∀ items, node ≠ .array items)

/-- What has been overlooked is not there in a second table, and at all other keys of settings both
tables hold the same. -/
def TakesOut (t t' : Toml.Table) : Prop :=
  ∀ field : Field, t'.atPath field.key = t.atPath field.key ∨
    (Overlooked t field ∧ t'.atPath field.key = none)

theorem TakesOut.string? (h : TakesOut t t') (field : Field) (hkind : field.kind = .string) :
    t'.string? field.key = t.string? field.key := by
  rcases h field with hsame | ⟨⟨node, hat, hnot, -⟩, hnone⟩
  · rw [Toml.Table.string?, Toml.Table.string?, hsame]
  · rw [string?_eq_none hat (hkind ▸ hnot), Toml.Table.string?, hnone]

theorem TakesOut.integer? (h : TakesOut t t') :
    t'.integer? bufferSizeKey = t.integer? bufferSizeKey := by
  rcases h .bufferSize with hsame | ⟨⟨node, hat, hnot, -⟩, hnone⟩
  · have hat : t'.atPath bufferSizeKey = t.atPath bufferSizeKey := hsame
    rw [Toml.Table.integer?, Toml.Table.integer?, hat]
  · have hfound : t.integer? bufferSizeKey = none := integer?_eq_none hat hnot
    have hempty : t'.atPath bufferSizeKey = none := hnone
    rw [hfound, Toml.Table.integer?, hempty]

theorem TakesOut.strings? (h : TakesOut t t') :
    t'.strings? searchPathsKey = t.strings? searchPathsKey := by
  rcases h .searchPaths with hsame | ⟨⟨node, hat, -, harray⟩, hnone⟩
  · have hat : t'.atPath searchPathsKey = t.atPath searchPathsKey := hsame
    rw [Toml.Table.strings?, Toml.Table.strings?, hat]
  · have hfound : t.strings? searchPathsKey = .ok none := strings?_eq_ok_none hat (harray rfl)
    have hempty : t'.atPath searchPathsKey = none := hnone
    rw [hfound, Toml.Table.strings?, hempty]

/-- **Values of the wrong type have no part** in what filling in comes to, arrays of search paths
apart: it ends in the same way, with the same settings, if they are not there. -/
theorem fill_of_overlooked (h : TakesOut t t') (s : Settings) : s.fill t' = s.fill t := by
  have hlevel : t'.string? logLevelKey = t.string? logLevelKey := h.string? .logLevel rfl
  have hfile : t'.string? logFileKey = t.string? logFileKey := h.string? .logFile rfl
  have hformat : t'.string? logFormatKey = t.string? logFormatKey := h.string? .logFormat rfl
  have hcharset : t'.string? charsetKey = t.string? charsetKey := h.string? .charset rfl
  have hdirectory : t'.string? baseDirectoryKey = t.string? baseDirectoryKey :=
    h.string? .baseDirectory rfl
  simp only [fill, fillTexts, fillBufferSize, bufferSizeIn, fillBaseDirectory, fillSearchPaths,
    hlevel, hfile, hformat, hcharset, h.integer?, hdirectory, h.strings?]

/-! ### Which values are reported -/

/-- **Settings of the wrong type**, for all settings and tables.

* They stay unset, whatever filling in comes to.
* Filling in does not look at them, arrays of search paths apart: it comes to the same without them.
* So filling in fails for every table with a value of the wrong type for an unset setting exactly
  if there is no such value, or if one of the two values that are looked at cannot be used: an unset
  size of the read buffer that is an integer and not positive, or unset search paths that are an
  array with an item that is not a text. -/
theorem mistyped_reported_iff (s : Settings) (t : Toml.Table) :
    (∀ field, Mistyped s t field → field.IsUnset (s.fill t).2) ∧
    (∀ t', TakesOut t t' → s.fill t' = s.fill t) ∧
    (((∃ field, Mistyped s t field) → ∃ e, (s.fill t).1 = .error e) ↔
      (∀ field, ¬Mistyped s t field) ∨ UnusableBufferSize s t ∨ UnusableSearchPaths s t) := by
  refine ⟨fun _ => isUnset_fill_of_mistyped, fun _ h => fill_of_overlooked h s, ?_⟩
  rw [fill_fails_iff, imp_iff_not_or, not_exists]

/-- A settings file that gives the log level by a number. -/
def numberedSample : Bytes := ascii "[xmlmode.log]\nlevel = 3\n"

/-- The table of that file. -/
def numberedTable : Toml.Table :=
  [(ascii "xmlmode", .table [(ascii "log", .table [(ascii "level", .integer 3)])])]

/-- **A setting that is passed over**: the log level is a number, and filling in succeeds as if it
were not there. -/
theorem not_reported_numberedSample :
    Toml.parse numberedSample = .ok numberedTable ∧ Mistyped {} numberedTable .logLevel ∧
      ({} : Settings).fill numberedTable = (.ok (), {}) := by
  have hvalue : Toml.value? (ascii "3\n") = some (.integer 3, [Ascii.lf]) := Toml.value?_cons _ _
  have hkey : Toml.IsBareKey (ascii "level") := by decide
  have hassign : Toml.statement? (ascii "level = 3\n") =
      some (.assign (ascii "level") (.integer 3), [Ascii.lf]) :=
    Toml.statement?_of_value? hkey hvalue
  have hscript : Toml.Script (Toml.afterBlank numberedSample)
      [.header (ascii "xmlmode.log"), .assign (ascii "level") (.integer 3)] :=
    .cons rfl rfl (.cons hassign rfl .nil)
  refine ⟨Toml.parse_eq_ok_iff.mpr ⟨_, _, hscript, rfl, rfl⟩, ⟨rfl, .integer 3, rfl, nofun⟩, rfl⟩

end Settings

end DoctypeProbe
