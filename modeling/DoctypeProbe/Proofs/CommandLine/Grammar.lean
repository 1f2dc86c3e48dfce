import DoctypeProbe.Proofs.CommandLine.Arguments
import Mathlib.Data.List.Induction

/-!
# The Grammar of Arguments

Every list of arguments can be read from the front, item by item, until nothing is left or until
what is left begins with something that is no item: an option without its value, a text that is not
the size of a buffer where one has to be, or an option that does not exist. In the first case the
arguments are accepted, in the second they are refused because of what comes next, and there is no
third one.

What is asked for depends on the items that have been read: on the last value of an option that has
one value, on all the values of an option that has many, and on the locations in their order.

## Main results

* `Arguments.Reads.unique`: arguments can be read in one way at most.
* `Arguments.foldl_apply`: what items ask for, option by option.
* `Arguments.parseFrom_iff`: which arguments are accepted, which are refused, and what they leave.
-/

namespace DoctypeProbe

namespace Arguments

/-! ### One reading -/

/-- The item that arguments begin with, and what is behind it. -/
def item? : List Bytes → Option (Item × List Bytes)
  | [] => none
  | arg :: args =>
    if isHelp arg then some (.help, args)
    else if isNumeric arg then some (.numeric, args)
    else
      match valueOptions.lookup arg with
      | some option =>
        match args with
        | [] => none
        | text :: args => if option.accepts text then some (.value option text, args) else none
      | none => if isLocation arg then some (.location arg, args) else none

/-- The words of an item give the item, whatever is behind them. -/
theorem item?_append {item : Item} {words : List Bytes} (h : Spelled item words)
    (args : List Bytes) : item? (words ++ args) = some (item, args) := by
  cases h with
  | help h => rw [List.singleton_append, item?, if_pos h]
  | @numeric arg h =>
      have hhelp : isHelp arg = false := by rw [isNumeric_iff.mp h]; rfl
      rw [List.singleton_append, item?, hhelp, if_neg Bool.false_ne_true, if_pos h]
  | value h ht =>
      obtain ⟨hhelp, hnumeric, -, hlookup⟩ := name_cases h
      rw [List.cons_append, List.singleton_append, item?, hhelp, hnumeric,
        if_neg Bool.false_ne_true, if_neg Bool.false_ne_true, hlookup]
      exact if_pos ht
  | location h =>
      obtain ⟨hhelp, hnumeric, hlookup⟩ := location_cases h
      rw [List.singleton_append, item?, hhelp, hnumeric, if_neg Bool.false_ne_true,
        if_neg Bool.false_ne_true, hlookup]
      exact if_pos h

/-- **Arguments can be read in one way** at most. -/
theorem Reads.unique {args : List Bytes} {items items' : List Item} (h : Reads args items)
    (h' : Reads args items') : items' = items := by
  induction h generalizing items' with
  | nil =>
      generalize hargs : [] = args at h'
      cases h' with
      | nil => rfl
      | @cons item words rest _ hspelled' =>
          have hfirst := item?_append hspelled' rest
          rw [← hargs] at hfirst
          cases hfirst
  | @cons item words rest _ hspelled _ ih =>
      have hfirst := item?_append hspelled rest
      generalize words ++ rest = args at h' hfirst
      cases h' with
      | nil => cases hfirst
      | cons hspelled' h' =>
          rw [item?_append hspelled'] at hfirst
          obtain ⟨rfl, rfl⟩ := Prod.mk.inj (Option.some.inj hfirst)
          rw [ih h']

/-! ### What items ask for, option by option -/

/-- The value that an item gives to an option. -/
def Item.value? (option : ValueOption) : Item → Option Bytes
  | value other text => if other = option then some text else none
  | _ => none

/-- The values that items give to an option, in order. -/
def valuesOf (option : ValueOption) (items : List Item) : List Bytes :=
  items.filterMap (Item.value? option)

/-- The settings behind items. An option that has one value has the last one that it is given. The
search paths are all those given, behind the ones that are there. -/
def settingsAfter (s : Settings) (items : List Item) : Settings :=
  let last option := (valuesOf option items).getLast?
  { s with
    logLevel := (last .logLevel).or s.logLevel
    logFile := (last .logFile).or s.logFile
    charset := (last .charset).or s.charset
    bufferSize := ((last .bufferSize).bind bufferSize?).or s.bufferSize
    baseDirectory := (last .baseDirectory).or s.baseDirectory
    configFile := (last .config).or s.configFile
    searchPaths :=
      if valuesOf .searchPath items = [] then s.searchPaths
      else some (s.searchPaths.getD [] ++ valuesOf .searchPath items) }

/-- What is asked for behind items. -/
def after (invocation : Invocation) (items : List Item) : Invocation where
  settings := settingsAfter invocation.settings items
  locations := invocation.locations ++ items.filterMap Item.location?
  numeric := invocation.numeric || items.contains .numeric
  help := invocation.help || items.contains .help

/-- An item with a value that is accepted for its option. -/
def Item.IsAccepted : Item → Prop
  | value option text => option.accepts text = true
  | _ => True

theorem Reads.isAccepted {args : List Bytes} {items : List Item} (h : Reads args items) :
    ∀ item ∈ items, item.IsAccepted := by
  induction h with
  | nil => exact fun _ => nofun
  | cons hspelled _ ih =>
      refine List.forall_mem_cons.mpr ⟨?_, ih⟩
      cases hspelled with
      | help | numeric | location => trivial
      | value _ ht => exact ht

theorem valuesOf_append_singleton (option : ValueOption) (items : List Item) (item : Item) :
    valuesOf option (items ++ [item]) = valuesOf option items ++ (item.value? option).toList := by
  rw [valuesOf, List.filterMap_append, ← valuesOf]
  cases h : item.value? option <;> simp [h]

/-- One more item is taken into account behind the others. -/
theorem after_append_singleton (invocation : Invocation) (items : List Item) {item : Item}
    (h : item.IsAccepted) :
    after invocation (items ++ [item]) = Item.apply (after invocation items) item := by
  cases item with
  | help | numeric | location =>
      simp [after, settingsAfter, valuesOf_append_singleton, Item.value?, Item.apply,
        Item.location?]
  | value option text =>
      cases option with
      | bufferSize =>
          obtain ⟨n, hn⟩ := Option.isSome_iff_exists.mp h
          simp [after, settingsAfter, valuesOf_append_singleton, Item.value?, Item.apply,
            Item.location?, ValueOption.set, hn]
      | searchPath =>
          by_cases hnone : valuesOf .searchPath items = [] <;>
            simp [after, settingsAfter, valuesOf_append_singleton, Item.value?, Item.apply,
              Item.location?, ValueOption.set, hnone]
      | config | logLevel | logFile | charset | baseDirectory =>
          simp [after, settingsAfter, valuesOf_append_singleton, Item.value?, Item.apply,
            Item.location?, ValueOption.set]

/-- **What accepted items ask for**, taken into account one after the other. -/
theorem foldl_apply (invocation : Invocation) {items : List Item}
    (h : ∀ item ∈ items, item.IsAccepted) :
    items.foldl Item.apply invocation = after invocation items := by
  induction items using List.reverseRecOn with
  | nil => simp [after, settingsAfter, valuesOf]
  | append_singleton items item ih =>
      obtain ⟨hitems, hitem⟩ := List.forall_mem_append.mp h
      rw [List.foldl_append, ih hitems, after_append_singleton _ _ (hitem _ List.mem_cons_self)]
      rfl

/-! ### What is refused -/

/-- What is left of arguments begins with something that is no item. -/
inductive NoItem : List Bytes → Misuse → Prop
  /-- The name of an option, and nothing behind it. -/
  | missingValue {arg : Bytes} {option : ValueOption} (h : (arg, option) ∈ valueOptions) :
      NoItem [arg] (.missingValue arg)
  /-- A text that is not the size of a buffer, where one has to be. -/
  | invalidBufferSize {arg text : Bytes} {args : List Bytes} (h : (arg, .bufferSize) ∈ valueOptions)
      (ht : bufferSize? text = none) : NoItem (arg :: text :: args) (.invalidBufferSize text)
  /-- An argument that looks like an option and is none. -/
  | unknownOption {arg : Bytes} {args : List Bytes} (hhelp : isHelp arg = false)
      (hnumeric : isNumeric arg = false) (hname : ∀ option, (arg, option) ∉ valueOptions)
      (hloc : isLocation arg = false) : NoItem (arg :: args) (.unknownOption arg)

/-- What is asked for where arguments are refused: the name of the option for search paths sets
them, even if no value is behind it. -/
def leftBehind (rest : List Bytes) (invocation : Invocation) : Invocation :=
  if rest = [ascii "--search-path"] then
    let searchPaths := some (invocation.settings.searchPaths.getD [])
    { invocation with settings := { invocation.settings with searchPaths } }
  else invocation

/-- The name of the option for search paths, and no other, is the one that sets them. -/
theorem name_searchPath {arg : Bytes} {option : ValueOption} (h : (arg, option) ∈ valueOptions) :
    arg = ascii "--search-path" ↔ option = .searchPath := by
  have hall : ∀ entry ∈ valueOptions,
      entry.1 = ascii "--search-path" ↔ entry.2 = .searchPath := by decide
  exact hall _ h

/-- An option without its value leaves what has been asked for, search paths apart. -/
theorem leftBehind_singleton {arg : Bytes} {option : ValueOption} (h : (arg, option) ∈ valueOptions)
    (invocation : Invocation) :
    leftBehind [arg] invocation =
      { invocation with settings := option.withoutValue invocation.settings } := by
  have hname : [arg] = [ascii "--search-path"] ↔ option = .searchPath := by
    rw [List.cons.injEq, and_iff_left rfl, name_searchPath h]
  rw [leftBehind]
  cases option with
  | searchPath => exact if_pos (hname.mpr rfl)
  | _ => exact if_neg fun heq => nomatch hname.mp heq

/-- Whatever begins with something that is no item is refused because of it. -/
theorem parseFrom_of_noItem {rest : List Bytes} {e : Misuse} (h : NoItem rest e)
    (invocation : Invocation) :
    parseFrom invocation rest = (.error e, leftBehind rest invocation) := by
  cases h with
  | missingValue h => rw [parseFrom_name_alone h, leftBehind_singleton h]
  | @invalidBufferSize arg text args h ht =>
      have hset : ValueOption.bufferSize.set text invocation.settings =
          .error (.invalidBufferSize text) := by simp only [ValueOption.set, ht]
      have hmore : arg :: text :: args ≠ [ascii "--search-path"] := by simp
      rw [parseFrom_name_refused h hset, leftBehind, if_neg hmore]
  | @unknownOption arg args hhelp hnumeric hname hloc =>
      have hlookup : valueOptions.lookup arg = none := by
        cases hlookup : valueOptions.lookup arg with
        | none => rfl
        | some option => exact absurd (mem_of_lookup hlookup) (hname option)
      have hne : arg :: args ≠ [ascii "--search-path"] := by
        intro heq
        refine hname .searchPath ?_
        rw [(List.cons.inj heq).1]
        decide
      rw [parseFrom, hhelp, hnumeric, if_neg Bool.false_ne_true, if_neg Bool.false_ne_true, hlookup,
        leftBehind, if_neg hne]
      simp only [hloc, Bool.false_eq_true, if_false]

/-! ### From the front -/

/-- The name of an option begins an item, or is refused. -/
theorem named_cases {arg : Bytes} {option : ValueOption} (h : (arg, option) ∈ valueOptions)
    (args : List Bytes) :
    (∃ item words rest, Spelled item words ∧ arg :: args = words ++ rest) ∨
      ∃ e, NoItem (arg :: args) e := by
  cases args with
  | nil => exact .inr ⟨_, .missingValue h⟩
  | cons text args =>
      cases ht : option.accepts text with
      | true => exact .inl ⟨_, _, args, .value h ht, rfl⟩
      | false =>
          cases option with
          | bufferSize =>
              have hsize := Option.not_isSome_iff_eq_none.mp (Bool.eq_false_iff.mp ht)
              exact .inr ⟨_, .invalidBufferSize h hsize⟩
          | _ => cases ht

/-- **One step**: arguments are at their end, or begin with an item, or with something that is
none. -/
theorem next_cases (args : List Bytes) :
    args = [] ∨ (∃ item words rest, Spelled item words ∧ args = words ++ rest) ∨
      ∃ e, NoItem args e := by
  cases args with
  | nil => exact .inl rfl
  | cons arg args =>
      refine .inr ?_
      by_cases hname : ∃ option, (arg, option) ∈ valueOptions
      · obtain ⟨option, hname⟩ := hname
        exact named_cases hname args
      · cases hhelp : isHelp arg with
        | true => exact .inl ⟨_, _, args, .help hhelp, rfl⟩
        | false =>
            cases hnumeric : isNumeric arg with
            | true => exact .inl ⟨_, _, args, .numeric hnumeric, rfl⟩
            | false =>
                cases hloc : isLocation arg with
                | true => exact .inl ⟨_, _, args, .location hloc, rfl⟩
                | false =>
                    exact .inr ⟨_, .unknownOption hhelp hnumeric (not_exists.mp hname) hloc⟩

/-- **Arguments are read from the front** until nothing is left, or something that is refused. -/
theorem exists_reads (args : List Bytes) :
    ∃ words items rest, args = words ++ rest ∧ Reads words items ∧
      (rest = [] ∨ ∃ e, NoItem rest e) := by
  induction hn : args.length using Nat.strongRecOn generalizing args with
  | ind n ih =>
      rcases next_cases args with rfl | ⟨item, words, rest, hspelled, rfl⟩ | ⟨e, he⟩
      · exact ⟨[], [], [], rfl, .nil, .inl rfl⟩
      · have hlt : rest.length < n := by
          have hpos : 0 < words.length := by cases hspelled <;> exact Nat.succ_pos _
          rw [← hn, List.length_append]
          omega
        obtain ⟨words', items, rest', rfl, hreads, hrest⟩ := ih _ hlt rest rfl
        exact ⟨words ++ words', item :: items, rest', (List.append_assoc _ _ _).symm,
          .cons hspelled hreads, hrest⟩
      · exact ⟨[], [], args, rfl, .nil, .inr ⟨e, he⟩⟩

/-- Behind arguments that have been read, what they ask for is there. -/
theorem parseFrom_reads {words : List Bytes} {items : List Item} (h : Reads words items)
    (invocation : Invocation) (rest : List Bytes) :
    parseFrom invocation (words ++ rest) = parseFrom (after invocation items) rest := by
  rw [← foldl_apply invocation h.isAccepted]
  induction h generalizing invocation with
  | nil => rfl
  | cons hspelled _ ih => rw [List.append_assoc, parseFrom_append hspelled, ih, List.foldl_cons]

/-- **Which arguments are accepted**, and what they leave, for all arguments and whatever has been
asked for before them.

* They are accepted exactly if they consist of items: flags, options each with its value, which is
  any text but for the size of a buffer, and locations. Then an option has the last value that it is
  given, or what it had before; search paths and locations are added in order.
* Otherwise they are refused because of what comes behind the items at the front: an option without
  its value, a text that is not the size of a buffer, or an option that does not exist. They leave
  what the items at the front ask for and nothing else, but for the option for search paths without
  its value: it leaves an empty list where search paths were unset. -/
theorem parseFrom_iff (invocation result : Invocation) (args : List Bytes) :
    (parseFrom invocation args = (.ok (), result) ↔
      ∃ items, Reads args items ∧ after invocation items = result) ∧
    ∀ e, parseFrom invocation args = (.error e, result) ↔
      ∃ words items rest, args = words ++ rest ∧ Reads words items ∧ NoItem rest e ∧
        leftBehind rest (after invocation items) = result := by
  have hok : ∀ {items}, Reads args items →
      parseFrom invocation args = (.ok (), after invocation items) := fun h => by
    rw [parseFrom_of_reads h, foldl_apply _ h.isAccepted]
  have herror : ∀ {words items rest e}, args = words ++ rest → Reads words items →
      NoItem rest e → parseFrom invocation args =
        (.error e, leftBehind rest (after invocation items)) := by
    rintro words items rest e rfl hreads hnone
    rw [parseFrom_reads hreads, parseFrom_of_noItem hnone]
  constructor
  · constructor
    · intro h
      obtain ⟨items, hreads⟩ := exists_reads_of_ok (congrArg Prod.fst h)
      rw [hok hreads] at h
      exact ⟨items, hreads, (Prod.mk.inj h).2⟩
    · rintro ⟨items, hreads, rfl⟩
      exact hok hreads
  · refine fun e => ⟨fun h => ?_, ?_⟩
    · obtain ⟨words, items, rest, hargs, hreads, rfl | ⟨e', hnone⟩⟩ := exists_reads args
      · obtain rfl : args = words := hargs.trans (List.append_nil _)
        rw [hok hreads] at h
        cases h
      · rw [herror hargs hreads hnone] at h
        obtain ⟨he, hresult⟩ := Prod.mk.inj h
        obtain rfl := Except.error.inj he
        exact ⟨words, items, rest, hargs, hreads, hnone, hresult⟩
    · rintro ⟨words, items, rest, hargs, hreads, hnone, rfl⟩
      exact herror hargs hreads hnone

/-- A value is taken as it is, the last one counts, and the search paths are set without one. -/
example :
    parse [ascii "-c", ascii "-h", ascii "-", ascii "--config", ascii "b", ascii "--search-path"] =
      (.error (.missingValue (ascii "--search-path")),
        { settings := { configFile := some (ascii "b"), searchPaths := some [] },
          locations := [ascii "-"] }) := by decide

end Arguments

end DoctypeProbe
