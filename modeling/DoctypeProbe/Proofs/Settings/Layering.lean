import DoctypeProbe.Settings.Basic

/-!
# Layers of Settings

Settings are laid over one another: a layer shows through wherever the layers above it are unset.
Taking unset settings from a table lays the settings over the ones that the table gives, unless the
table has a value that cannot be used for one of them. In that case the settings before it in the
order of filling in have been taken, and still none that was set has changed.

## Main results

* `Settings.overlay_assoc`: layers can be put together in any grouping.
* `Settings.fill_of_usable`, `Settings.fill_of_unusableBufferSize`,
  `Settings.fill_of_unusableSearchPaths`: filling in is laying over, up to the first unusable value.
* `Settings.fill_layers`: what filling in keeps, takes and refuses.
-/

namespace DoctypeProbe

namespace Settings

/-! ### Layers -/

/-- Settings laid over others: what the first ones leave unset is as in the others. -/
def overlay (s u : Settings) : Settings where
  logLevel := s.logLevel.or u.logLevel
  logFile := s.logFile.or u.logFile
  logFormat := s.logFormat.or u.logFormat
  charset := s.charset.or u.charset
  bufferSize := s.bufferSize.or u.bufferSize
  baseDirectory := s.baseDirectory.or u.baseDirectory
  searchPaths := s.searchPaths.or u.searchPaths
  configFile := s.configFile.or u.configFile

/-- **Layers can be put together** in any grouping. -/
theorem overlay_assoc (s u v : Settings) : (s.overlay u).overlay v = s.overlay (u.overlay v) := by
  simp only [overlay, Option.or_assoc]

theorem overlay_self (s : Settings) : s.overlay s = s := by
  simp only [overlay, Option.or_self]

/-- A layer that shows already adds nothing below. -/
theorem overlay_overlay_self (s u : Settings) : (s.overlay u).overlay u = s.overlay u := by
  rw [overlay_assoc, overlay_self]

/-- Every setting that is set stays as it is. -/
structure Kept (s s' : Settings) : Prop where
  /-- The log level. -/
  logLevel : ∀ v, s.logLevel = some v → s'.logLevel = some v
  /-- The log file. -/
  logFile : ∀ v, s.logFile = some v → s'.logFile = some v
  /-- The log format. -/
  logFormat : ∀ v, s.logFormat = some v → s'.logFormat = some v
  /-- The charset. -/
  charset : ∀ v, s.charset = some v → s'.charset = some v
  /-- The size of the read buffer. -/
  bufferSize : ∀ v, s.bufferSize = some v → s'.bufferSize = some v
  /-- The base directory. -/
  baseDirectory : ∀ v, s.baseDirectory = some v → s'.baseDirectory = some v
  /-- The search paths. -/
  searchPaths : ∀ v, s.searchPaths = some v → s'.searchPaths = some v
  /-- The settings file. -/
  configFile : ∀ v, s.configFile = some v → s'.configFile = some v

/-- The upper layer is kept. -/
theorem kept_overlay (s u : Settings) : Kept s (s.overlay u) := by
  have hor : ∀ {α : Type} (a b : Option α) (v : α), a = some v → a.or b = some v := by
    rintro α _ b v rfl
    exact Option.some_or
  exact ⟨hor _ _, hor _ _, hor _ _, hor _ _, hor _ _, hor _ _, hor _ _, hor _ _⟩

/-! ### The settings in a table -/

/-- What the lookups of the keys of the settings in a table give, each with the type of its
setting. -/
def given (t : Toml.Table) : Settings where
  logLevel := t.string? logLevelKey
  logFile := t.string? logFileKey
  logFormat := t.string? logFormatKey
  charset := t.string? charsetKey
  bufferSize := (t.integer? bufferSizeKey).map fun n => n.toInt.toNat
  baseDirectory := t.string? baseDirectoryKey
  searchPaths := (t.strings? searchPathsKey).toOption.join

/-- The settings that are taken from a table before the size of the read buffer. -/
def givenTexts (t : Toml.Table) : Settings :=
  { given t with bufferSize := none, baseDirectory := none, searchPaths := none }

/-- The size of the read buffer is looked for in a table, and is not positive there. -/
def UnusableBufferSize (s : Settings) (t : Toml.Table) : Prop :=
  s.bufferSize = none ∧ ∃ n, t.integer? bufferSizeKey = some n ∧ n ≤ 0

/-- The search paths are looked for in a table, and are an array there with an item that is not a
text. -/
def UnusableSearchPaths (s : Settings) (t : Toml.Table) : Prop :=
  s.searchPaths = none ∧ ∃ items, t.atPath searchPathsKey = some (.array items) ∧
    ∃ item ∈ items, ∀ text, item ≠ .string text

/-- The texts of a list are missing exactly if an item is not a text. -/
theorem texts?_eq_none_iff {items : List Toml.Node} :
    Toml.Table.texts? items = none ↔ ∃ item ∈ items, ∀ text, item ≠ .string text := by
  induction items with
  | nil => simp [Toml.Table.texts?]
  | cons item items ih =>
      cases item with
      | string text =>
          rw [Toml.Table.texts?, Option.map_eq_none_iff, ih]
          simp
      | integer | float | boolean | array | table =>
          simp [Toml.Table.texts?]

/-- The lookup of an array of texts fails exactly at an array with an item that is not a text. -/
theorem strings?_eq_error_iff {t : Toml.Table} {key : Bytes} {e : SettingsError} :
    t.strings? key = .error e ↔ e = .itemNotString key ∧
      ∃ items, t.atPath key = some (.array items) ∧
        ∃ item ∈ items, ∀ text, item ≠ .string text := by
  rw [Toml.Table.strings?]
  constructor
  · intro h
    split at h
    · rename_i items hat
      cases htexts : Toml.Table.texts? items with
      | some texts => rw [htexts] at h; cases h
      | none =>
          rw [htexts] at h
          cases h
          exact ⟨rfl, items, hat, texts?_eq_none_iff.mp htexts⟩
    · cases h
  · rintro ⟨rfl, items, hat, hitems⟩
    rw [hat]
    simp only [texts?_eq_none_iff.mpr hitems]

/-! ### Filling in -/

/-- The texts before the size of the read buffer are laid under what is set. -/
theorem fillTexts_eq (s : Settings) (t : Toml.Table) :
    s.fillTexts t = s.overlay (givenTexts t) := by
  simp only [fillTexts, overlay, givenTexts, given, Option.orElse_eq_orElse, Option.orElse_eq_or,
    Option.or_none]

/-- A usable size of the read buffer is laid under what is set. -/
theorem fillBufferSize_of_usable {s : Settings} {t : Toml.Table}
    (h : ¬UnusableBufferSize s t) :
    s.fillBufferSize t = .ok { s with bufferSize := s.bufferSize.or (given t).bufferSize } := by
  rw [fillBufferSize]
  split
  next n hs => rw [hs, Option.some_or, ← hs]
  next hs =>
      rw [bufferSizeIn, given, hs, Option.none_or]
      cases hn : t.integer? bufferSizeKey with
      | none => rfl
      | some n =>
          have hpos : ¬n ≤ 0 := fun hle => h ⟨hs, n, hn, hle⟩
          simp only [if_neg hpos]
          rfl

theorem fillBufferSize_of_unusable {s : Settings} {t : Toml.Table} (h : UnusableBufferSize s t) :
    s.fillBufferSize t = .error .bufferSizeNotPositive := by
  obtain ⟨hs, n, hn, hle⟩ := h
  rw [fillBufferSize, hs, bufferSizeIn, hn]
  simp only [if_pos hle]
  rfl

/-- Usable search paths are laid under what is set. -/
theorem fillSearchPaths_of_usable {s : Settings} {t : Toml.Table}
    (h : ¬UnusableSearchPaths s t) :
    s.fillSearchPaths t = .ok { s with searchPaths := s.searchPaths.or (given t).searchPaths } := by
  rw [fillSearchPaths]
  split
  next paths hs => rw [hs, Option.some_or, ← hs]
  next hs =>
      rw [given, hs, Option.none_or]
      cases hpaths : t.strings? searchPathsKey with
      | ok paths => rfl
      | error e => exact absurd ⟨hs, (strings?_eq_error_iff.mp hpaths).2⟩ h

theorem fillSearchPaths_of_unusable {s : Settings} {t : Toml.Table}
    (h : UnusableSearchPaths s t) :
    s.fillSearchPaths t = .error (.itemNotString searchPathsKey) := by
  rw [fillSearchPaths, h.1, strings?_eq_error_iff.mpr ⟨rfl, h.2⟩]
  rfl

section

variable {s u : Settings} {t : Toml.Table}

/-- Settings without a size of the read buffer, laid under others, do not make it set. -/
theorem unusableBufferSize_overlay (hu : u.bufferSize = none) :
    UnusableBufferSize (s.overlay u) t ↔ UnusableBufferSize s t := by
  rw [UnusableBufferSize, UnusableBufferSize, overlay, hu, Option.or_none]

/-- Settings without search paths, laid under others, do not make them set. -/
theorem unusableSearchPaths_overlay (hu : u.searchPaths = none) :
    UnusableSearchPaths (s.overlay u) t ↔ UnusableSearchPaths s t := by
  rw [UnusableSearchPaths, UnusableSearchPaths, overlay, hu, Option.or_none]

/-- **Filling in stops** at a size of the read buffer that is not positive. -/
theorem fill_of_unusableBufferSize (h : UnusableBufferSize s t) :
    s.fill t = (.error .bufferSizeNotPositive, s.overlay (givenTexts t)) := by
  have hsize : UnusableBufferSize (s.overlay (givenTexts t)) t :=
    (unusableBufferSize_overlay rfl).mpr h
  rw [fill, fillTexts_eq]
  simp only [fillBufferSize_of_unusable hsize]

/-- The settings from a table that are taken before the search paths. -/
def givenBeforePaths (t : Toml.Table) : Settings := { given t with searchPaths := none }

/-- With a usable size of the read buffer, filling in gets to the search paths. -/
theorem fill_of_usableBufferSize (h : ¬UnusableBufferSize s t) :
    s.fill t =
      match (s.overlay (givenBeforePaths t)).fillSearchPaths t with
      | .error e => (.error e, s.overlay (givenBeforePaths t))
      | .ok s => (.ok (), s) := by
  have hsize : ¬UnusableBufferSize (s.overlay (givenTexts t)) t :=
    mt (unusableBufferSize_overlay rfl).mp h
  have hdirectory : fillBaseDirectory
      { s.overlay (givenTexts t) with
        bufferSize := (s.overlay (givenTexts t)).bufferSize.or (given t).bufferSize } t =
      s.overlay (givenBeforePaths t) := by
    simp only [fillBaseDirectory, overlay, givenTexts, givenBeforePaths, given,
      Option.orElse_eq_orElse, Option.orElse_eq_or, Option.or_none]
  rw [fill, fillTexts_eq]
  cases hpaths : (s.overlay (givenBeforePaths t)).fillSearchPaths t with
  | error e => simp only [fillBufferSize_of_usable hsize, hdirectory, hpaths]
  | ok s => simp only [fillBufferSize_of_usable hsize, hdirectory, hpaths]

/-- **Filling in stops** at search paths that are not texts, behind all other settings. -/
theorem fill_of_unusableSearchPaths (hsize : ¬UnusableBufferSize s t)
    (h : UnusableSearchPaths s t) :
    s.fill t = (.error (.itemNotString searchPathsKey), s.overlay (givenBeforePaths t)) := by
  have hpaths : UnusableSearchPaths (s.overlay (givenBeforePaths t)) t :=
    (unusableSearchPaths_overlay rfl).mpr h
  rw [fill_of_usableBufferSize hsize, fillSearchPaths_of_unusable hpaths]

/-- **Filling in lays the settings over** those that the table gives, if all of them can be
used. -/
theorem fill_of_usable (hsize : ¬UnusableBufferSize s t) (h : ¬UnusableSearchPaths s t) :
    s.fill t = (.ok (), s.overlay (given t)) := by
  have hpaths : ¬UnusableSearchPaths (s.overlay (givenBeforePaths t)) t :=
    mt (unusableSearchPaths_overlay rfl).mp h
  rw [fill_of_usableBufferSize hsize, fillSearchPaths_of_usable hpaths]
  simp only [overlay, givenBeforePaths, Option.or_none]

/-- What a setting is taken from can only be unusable while the setting is unset. -/
theorem UnusableBufferSize.of_overlay (h : UnusableBufferSize (s.overlay u) t) :
    UnusableBufferSize s t :=
  ⟨(Option.or_eq_none_iff.mp h.1).1, h.2⟩

theorem UnusableSearchPaths.of_overlay (h : UnusableSearchPaths (s.overlay u) t) :
    UnusableSearchPaths s t :=
  ⟨(Option.or_eq_none_iff.mp h.1).1, h.2⟩

/-- **Filling in fails** exactly at an unusable value for a setting that is unset. -/
theorem fill_fails_iff :
    (∃ e, (s.fill t).1 = .error e) ↔ UnusableBufferSize s t ∨ UnusableSearchPaths s t := by
  constructor
  · rintro ⟨e, he⟩
    refine Classical.byContradiction fun hneither => ?_
    obtain ⟨hsize, hpaths⟩ := not_or.mp hneither
    rw [fill_of_usable hsize hpaths] at he
    cases he
  · intro h
    by_cases hsize : UnusableBufferSize s t
    · exact ⟨_, by rw [fill_of_unusableBufferSize hsize]⟩
    · exact ⟨_, by rw [fill_of_unusableSearchPaths hsize (h.resolve_left hsize)]⟩

/-- Filling in succeeds exactly if all values for settings that are unset can be used. -/
theorem fill_succeeds_iff :
    (s.fill t).1 = .ok () ↔ ¬UnusableBufferSize s t ∧ ¬UnusableSearchPaths s t := by
  rw [← not_or, ← fill_fails_iff]
  cases (s.fill t).1 with
  | ok => exact iff_of_true rfl (fun ⟨e, he⟩ => nomatch he)
  | error e => exact iff_of_false nofun fun h => h ⟨e, rfl⟩

/-- Filling in that succeeds has laid the settings over those of the table. -/
theorem fill_eq_of_ok (h : (s.fill t).1 = .ok ()) : (s.fill t).2 = s.overlay (given t) := by
  obtain ⟨hsize, hpaths⟩ := fill_succeeds_iff.mp h
  rw [fill_of_usable hsize hpaths]

/-- **Filling in keeps** every setting that is set, also when it fails. -/
theorem kept_fill : Kept s (s.fill t).2 := by
  by_cases hsize : UnusableBufferSize s t
  · rw [fill_of_unusableBufferSize hsize]
    exact kept_overlay s _
  · by_cases hpaths : UnusableSearchPaths s t
    · rw [fill_of_unusableSearchPaths hsize hpaths]
      exact kept_overlay s _
    · rw [fill_of_usable hsize hpaths]
      exact kept_overlay s _

/-- **Filling in again** changes nothing more, and ends in the same way. -/
theorem fill_fill_self : (s.fill t).2.fill t = s.fill t := by
  by_cases hsize : UnusableBufferSize s t
  · have hsize' : UnusableBufferSize (s.overlay (givenTexts t)) t :=
      (unusableBufferSize_overlay rfl).mpr hsize
    rw [fill_of_unusableBufferSize hsize, fill_of_unusableBufferSize hsize', overlay_overlay_self]
  · by_cases hpaths : UnusableSearchPaths s t
    · have hpaths' : UnusableSearchPaths (s.overlay (givenBeforePaths t)) t :=
        (unusableSearchPaths_overlay rfl).mpr hpaths
      rw [fill_of_unusableSearchPaths hsize hpaths,
        fill_of_unusableSearchPaths (mt UnusableBufferSize.of_overlay hsize) hpaths',
        overlay_overlay_self]
    · rw [fill_of_usable hsize hpaths, fill_of_usable (mt UnusableBufferSize.of_overlay hsize)
        (mt UnusableSearchPaths.of_overlay hpaths), overlay_overlay_self]

end

/-- **Settings are layered.** Filling settings in from a table

* never changes a setting that is set, also when it fails;
* lays the settings over what the lookups in the table give, when it succeeds;
* ends in the same way when it is done again, and then changes nothing;
* gives each setting its own value, else that of the first table, else that of the second, when it
  is done with two tables and succeeds with both;
* fails exactly if the size of the read buffer is unset and not positive in the table, or the search
  paths are unset and an array with an item that is not a text in the table. -/
theorem fill_layers (s : Settings) (t : Toml.Table) :
    Kept s (s.fill t).2 ∧
    ((s.fill t).1 = .ok () → (s.fill t).2 = s.overlay (given t)) ∧
    (s.fill t).2.fill t = s.fill t ∧
    (∀ t', (s.fill t).1 = .ok () → ((s.fill t).2.fill t').1 = .ok () →
      ((s.fill t).2.fill t').2 = s.overlay ((given t).overlay (given t'))) ∧
    ((∃ e, (s.fill t).1 = .error e) ↔ UnusableBufferSize s t ∨ UnusableSearchPaths s t) := by
  refine ⟨kept_fill, fill_eq_of_ok, fill_fill_self, ?_, fill_fails_iff⟩
  intro t' h h'
  rw [fill_eq_of_ok h', fill_eq_of_ok h, overlay_assoc]

end Settings

end DoctypeProbe
