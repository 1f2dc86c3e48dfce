import DoctypeProbe.CommandLine.Arguments

/-!
# What Arguments Consist Of

A list of arguments that is accepted consists of items: flags, options with their values, and
locations, each written in one or two words. The words tell the items apart, so a list of
arguments has one reading at most. It is accepted exactly if it has one, and asks for what its
items ask for, one after the other.

The value of an option is the word behind it, whatever it looks like: `-c -h` names a settings
file and does not ask for help.

## Main results

* `Arguments.parse_eq_ok_iff`: which arguments are accepted, and what they ask for.
* `Arguments.requested_locations`, `Arguments.requested_help`: the locations among the items, and
  help.
* `Arguments.parse_alone`: the same options with one location.
-/

namespace DoctypeProbe

namespace Arguments

/-! ### Items -/

/-- A part of a list of arguments. -/
inductive Item where
  /-- Help is asked for. -/
  | help
  /-- Modes by number are asked for. -/
  | numeric
  /-- An option with its value. -/
  | value (option : ValueOption) (text : Bytes)
  /-- A location. -/
  | location (text : Bytes)
deriving DecidableEq, Repr

/-- Whether a text is accepted as the value of an option: only the size of a buffer is looked
at. -/
def ValueOption.accepts (option : ValueOption) (text : Bytes) : Bool :=
  match option with
  | bufferSize => (bufferSize? text).isSome
  | _ => true

/-- The words that an item is written in. -/
inductive Spelled : Item → List Bytes → Prop
  /-- Either word for help. -/
  | help {arg : Bytes} (h : isHelp arg = true) : Spelled .help [arg]
  /-- The word for modes by number. -/
  | numeric {arg : Bytes} (h : isNumeric arg = true) : Spelled .numeric [arg]
  /-- The name of an option, and its value behind it. -/
  | value {arg text : Bytes} {option : ValueOption} (h : (arg, option) ∈ valueOptions)
      (ht : option.accepts text = true) : Spelled (.value option text) [arg, text]
  /-- The location itself. -/
  | location {arg : Bytes} (h : isLocation arg = true) : Spelled (.location arg) [arg]

/-- Arguments consist of items. -/
inductive Reads : List Bytes → List Item → Prop
  | nil : Reads [] []
  | cons {item : Item} {words args : List Bytes} {items : List Item} (h : Spelled item words)
      (hs : Reads args items) : Reads (words ++ args) (item :: items)

theorem Reads.append {args args' : List Bytes} {items items' : List Item} (h : Reads args items)
    (h' : Reads args' items') : Reads (args ++ args') (items ++ items') := by
  induction h with
  | nil => exact h'
  | cons hspelled _ ih =>
      rw [List.append_assoc]
      exact .cons hspelled ih

/-! ### Telling items apart -/

/-- The names of options with a value are no flags and no locations, and each names one option. -/
theorem name_cases {arg : Bytes} {option : ValueOption} (h : (arg, option) ∈ valueOptions) :
    isHelp arg = false ∧ isNumeric arg = false ∧ isLocation arg = false ∧
      valueOptions.lookup arg = some option := by
  have hall : ∀ entry ∈ valueOptions, isHelp entry.1 = false ∧ isNumeric entry.1 = false ∧
      isLocation entry.1 = false ∧ valueOptions.lookup entry.1 = some entry.2 := by decide
  exact hall _ h

theorem mem_of_lookup {arg : Bytes} {option : ValueOption}
    (h : valueOptions.lookup arg = some option) : (arg, option) ∈ valueOptions := by
  obtain ⟨before, after, heq, -⟩ := List.lookup_eq_some_iff.mp h
  rw [heq]
  exact List.mem_append_right _ List.mem_cons_self

theorem isHelp_iff {arg : Bytes} : isHelp arg = true ↔ arg = ascii "-h" ∨ arg = ascii "--help" := by
  simp [isHelp]

theorem isNumeric_iff {arg : Bytes} : isNumeric arg = true ↔ arg = ascii "--numeric" := by
  simp [isNumeric]

/-- A location is neither a flag nor the name of an option. -/
theorem location_cases {arg : Bytes} (h : isLocation arg = true) :
    isHelp arg = false ∧ isNumeric arg = false ∧ valueOptions.lookup arg = none := by
  refine ⟨?_, ?_, ?_⟩
  · refine Bool.eq_false_iff.mpr fun hhelp => ?_
    rcases isHelp_iff.mp hhelp with rfl | rfl <;> cases h
  · refine Bool.eq_false_iff.mpr fun hnumeric => ?_
    obtain rfl := isNumeric_iff.mp hnumeric
    cases h
  · cases hlookup : valueOptions.lookup arg with
    | none => rfl
    | some option =>
        obtain ⟨-, -, hloc, -⟩ := name_cases (mem_of_lookup hlookup)
        rw [hloc] at h
        cases h

/-! ### What items ask for -/

/-- Takes an item into account. -/
def Item.apply (invocation : Invocation) : Item → Invocation
  | help => { invocation with help := true }
  | numeric => { invocation with numeric := true }
  | value option text =>
    match option.set text invocation.settings with
    | .ok settings => { invocation with settings }
    | .error _ => invocation
  | location text => { invocation with locations := invocation.locations ++ [text] }

/-- What items ask for, taken into account one after the other. -/
def requested (items : List Item) : Invocation := items.foldl Item.apply {}

/-- The location that an item is. -/
def Item.location? : Item → Option Bytes
  | location text => some text
  | _ => none

/-- A value that is accepted can be taken into account. -/
theorem exists_set_iff {option : ValueOption} {text : Bytes} {s : Settings} :
    (∃ s', option.set text s = .ok s') ↔ option.accepts text = true := by
  cases option with
  | bufferSize =>
      rw [ValueOption.set, ValueOption.accepts]
      cases bufferSize? text <;> simp
  | config | logLevel | logFile | charset | baseDirectory | searchPath =>
      simp [ValueOption.set, ValueOption.accepts]

section

variable {arg text : Bytes} {option : ValueOption} {invocation : Invocation}

/-- The name of an option is refused without a value behind it. -/
theorem parseFrom_name_alone (h : (arg, option) ∈ valueOptions) (invocation : Invocation) :
    parseFrom invocation [arg] =
      (.error (.missingValue arg),
        { invocation with settings := option.withoutValue invocation.settings }) := by
  obtain ⟨hhelp, hnumeric, -, hlookup⟩ := name_cases h
  simp only [parseFrom, hhelp, hnumeric, hlookup, Bool.false_eq_true, if_false]

/-- The name of an option takes the argument behind it as its value. -/
theorem parseFrom_name_value (h : (arg, option) ∈ valueOptions) {settings : Settings}
    (hset : option.set text invocation.settings = .ok settings) (args : List Bytes) :
    parseFrom invocation (arg :: text :: args) = parseFrom { invocation with settings } args := by
  obtain ⟨hhelp, hnumeric, -, hlookup⟩ := name_cases h
  simp only [parseFrom, hhelp, hnumeric, hlookup, hset, Bool.false_eq_true, if_false]

/-- A value that cannot be taken is refused. -/
theorem parseFrom_name_refused (h : (arg, option) ∈ valueOptions) {e : Misuse}
    (hset : option.set text invocation.settings = .error e) (args : List Bytes) :
    parseFrom invocation (arg :: text :: args) = (.error e, invocation) := by
  obtain ⟨hhelp, hnumeric, -, hlookup⟩ := name_cases h
  simp only [parseFrom, hhelp, hnumeric, hlookup, hset, Bool.false_eq_true, if_false]

end

/-- **One item** is taken into account, and the parsing goes on behind its words. -/
theorem parseFrom_append {item : Item} {words : List Bytes} (h : Spelled item words)
    (invocation : Invocation) (args : List Bytes) :
    parseFrom invocation (words ++ args) = parseFrom (item.apply invocation) args := by
  cases h with
  | help h => rw [List.singleton_append, parseFrom, if_pos h, Item.apply]
  | @numeric arg h =>
      have hhelp : isHelp arg = false := by rw [isNumeric_iff.mp h]; rfl
      rw [List.singleton_append, parseFrom, hhelp, if_neg Bool.false_ne_true, if_pos h, Item.apply]
  | @value arg text option h ht =>
      obtain ⟨settings, hset⟩ := exists_set_iff (s := invocation.settings).mpr ht
      rw [List.cons_append, List.singleton_append, parseFrom_name_value h hset]
      simp only [hset, Item.apply]
  | location h =>
      obtain ⟨hhelp, hnumeric, hlookup⟩ := location_cases h
      rw [List.singleton_append, parseFrom, hhelp, hnumeric, if_neg Bool.false_ne_true,
        if_neg Bool.false_ne_true, hlookup]
      simp only [h, if_true, Item.apply]

/-- Arguments that can be read are accepted. -/
theorem parseFrom_of_reads {args : List Bytes} {items : List Item} (h : Reads args items)
    (invocation : Invocation) :
    parseFrom invocation args = (.ok (), items.foldl Item.apply invocation) := by
  induction h generalizing invocation with
  | nil => rfl
  | cons hspelled _ ih => rw [parseFrom_append hspelled, ih, List.foldl_cons]

/-- Arguments that are accepted can be read. -/
theorem exists_reads_of_ok {invocation : Invocation} {args : List Bytes}
    (h : (parseFrom invocation args).1 = .ok ()) : ∃ items, Reads args items := by
  fun_induction parseFrom invocation args with
  | case1 => exact ⟨[], .nil⟩
  | case2 invocation arg args hhelp ih =>
      obtain ⟨items, hitems⟩ := ih h
      exact ⟨_, .cons (.help hhelp) hitems⟩
  | case3 invocation arg args _ hnumeric ih =>
      obtain ⟨items, hitems⟩ := ih h
      exact ⟨_, .cons (.numeric hnumeric) hitems⟩
  | case4 invocation arg _ _ option hlookup => cases h
  | case5 invocation arg _ _ option hlookup value args settings hset ih =>
      obtain ⟨items, hitems⟩ := ih h
      have hspelled := Spelled.value (mem_of_lookup hlookup) (exists_set_iff.mp ⟨_, hset⟩)
      exact ⟨_, .cons hspelled hitems⟩
  | case6 => cases h
  | case7 invocation arg args _ _ _ hloc ih =>
      obtain ⟨items, hitems⟩ := ih h
      exact ⟨_, .cons (.location hloc) hitems⟩
  | case8 => cases h

/-- **Which arguments are accepted**, and what they ask for. -/
theorem parse_eq_ok_iff {args : List Bytes} {invocation : Invocation} :
    parse args = (.ok (), invocation) ↔
      ∃ items, Reads args items ∧ requested items = invocation := by
  constructor
  · intro h
    have hok : (parse args).1 = .ok () := by rw [h]
    obtain ⟨items, hitems⟩ := exists_reads_of_ok hok
    rw [parse, parseFrom_of_reads hitems] at h
    exact ⟨items, hitems, (Prod.mk.inj h).2⟩
  · rintro ⟨items, hitems, rfl⟩
    exact parseFrom_of_reads hitems {}

/-- Arguments are refused exactly if they cannot be read. -/
theorem parse_eq_error_iff {args : List Bytes} :
    (∃ e, (parse args).1 = .error e) ↔ ¬∃ items, Reads args items := by
  constructor
  · rintro ⟨e, he⟩ ⟨items, hitems⟩
    rw [parse, parseFrom_of_reads hitems] at he
    cases he
  · intro hnone
    cases hparse : (parse args).1 with
    | ok => exact absurd (exists_reads_of_ok hparse) hnone
    | error e => exact ⟨e, rfl⟩

/-! ### Locations and help -/

/-- The locations among items come behind those that are there. -/
theorem locations_foldl (items : List Item) (invocation : Invocation) :
    (items.foldl Item.apply invocation).locations =
      invocation.locations ++ items.filterMap Item.location? := by
  induction items generalizing invocation with
  | nil => exact (List.append_nil _).symm
  | cons item items ih =>
      rw [List.foldl_cons, ih]
      cases item with
      | help | numeric => rfl
      | value option text =>
          rw [Item.apply]
          cases option.set text invocation.settings <;> rfl
      | location text => exact List.append_assoc _ _ _

/-- **The locations** asked for are those among the items, in order. -/
theorem requested_locations (items : List Item) :
    (requested items).locations = items.filterMap Item.location? :=
  locations_foldl items {}

/-- Help that is among items is asked for behind whatever is there. -/
theorem help_foldl (items : List Item) (invocation : Invocation) :
    (items.foldl Item.apply invocation).help = true ↔ invocation.help = true ∨ .help ∈ items := by
  induction items generalizing invocation with
  | nil => simp
  | cons item items ih =>
      rw [List.foldl_cons, ih]
      cases item with
      | help => simp [Item.apply]
      | numeric | location => simp [Item.apply]
      | value option text =>
          rw [Item.apply]
          cases option.set text invocation.settings <;> simp

/-- **Help** is asked for if it is among the items. -/
theorem requested_help {items : List Item} : (requested items).help = true ↔ .help ∈ items := by
  rw [requested, help_foldl]
  simp

/-! ### One location on its own -/

/-- The arguments without the locations among them. -/
def withoutLocations : List Bytes → List Bytes
  | [] => []
  | arg :: args =>
    if isLocation arg then withoutLocations args
    else
      match valueOptions.lookup arg with
      | none => arg :: withoutLocations args
      | some _ =>
        match args with
        | [] => [arg]
        | value :: args => arg :: value :: withoutLocations args

/-- The same options with one location. -/
def alone (args : List Bytes) (location : Bytes) : List Bytes :=
  withoutLocations args ++ [location]

theorem withoutLocations_cons (arg : Bytes) (args : List Bytes) :
    withoutLocations (arg :: args) =
      if isLocation arg then withoutLocations args
      else
        match valueOptions.lookup arg with
        | none => arg :: withoutLocations args
        | some _ =>
          match args with
          | [] => [arg]
          | value :: args => arg :: value :: withoutLocations args := by
  rw [withoutLocations.eq_def]

/-- Leaving locations out takes away the words of one item or keeps them. -/
theorem withoutLocations_append {item : Item} {words : List Bytes} (h : Spelled item words)
    (args : List Bytes) :
    withoutLocations (words ++ args) =
      (if item.location?.isSome then [] else words) ++ withoutLocations args := by
  cases h with
  | @help arg h =>
      have hloc : isLocation arg = false := by rcases isHelp_iff.mp h with rfl | rfl <;> rfl
      have hname : valueOptions.lookup arg = none := by
        rcases isHelp_iff.mp h with rfl | rfl <;> decide
      rw [List.singleton_append, withoutLocations_cons, hloc, if_neg Bool.false_ne_true, hname]
      rfl
  | @numeric arg h =>
      have hloc : isLocation arg = false := by rw [isNumeric_iff.mp h]; rfl
      have hname : valueOptions.lookup arg = none := by rw [isNumeric_iff.mp h]; decide
      rw [List.singleton_append, withoutLocations_cons, hloc, if_neg Bool.false_ne_true, hname]
      rfl
  | value h ht =>
      obtain ⟨-, -, hloc, hlookup⟩ := name_cases h
      rw [List.cons_append, List.singleton_append, withoutLocations_cons, hloc,
        if_neg Bool.false_ne_true, hlookup]
      rfl
  | location h =>
      rw [List.singleton_append, withoutLocations_cons, if_pos h]
      rfl

/-- Leaving locations out leaves the other items. -/
theorem Reads.withoutLocations {args : List Bytes} {items : List Item} (h : Reads args items) :
    Reads (withoutLocations args) (items.filter (!·.location?.isSome)) := by
  induction h with
  | nil => exact .nil
  | @cons item words args items hspelled _ ih =>
      rw [withoutLocations_append hspelled]
      cases hloc : item.location?.isSome with
      | true =>
          rw [List.filter_cons_of_neg (by simp [hloc])]
          exact ih
      | false =>
          rw [List.filter_cons_of_pos (by simp [hloc])]
          exact .cons hspelled ih

/-- Every location that arguments ask for can be an argument. -/
theorem isLocation_of_reads {args : List Bytes} {items : List Item} (h : Reads args items)
    {location : Bytes} (hmem : location ∈ items.filterMap Item.location?) :
    isLocation location = true := by
  induction h with
  | nil => cases hmem
  | cons hspelled _ ih =>
      cases hspelled with
      | help | numeric | value => exact ih hmem
      | location hloc =>
          rcases List.mem_cons.mp hmem with rfl | hmem
          · exact hloc
          · exact ih hmem

/-- The items besides the locations ask for everything but the locations. -/
theorem foldl_filter (items : List Item) (invocation : Invocation) (locations : List Bytes) :
    (items.filter (!·.location?.isSome)).foldl Item.apply { invocation with locations } =
      { items.foldl Item.apply invocation with locations } := by
  induction items generalizing invocation with
  | nil => rfl
  | cons item items ih =>
      cases item with
      | location text =>
          rw [List.filter_cons_of_neg (by simp [Item.location?])]
          exact ih (Item.apply invocation (.location text))
      | help =>
          rw [List.filter_cons_of_pos rfl]
          exact ih (Item.apply invocation .help)
      | numeric =>
          rw [List.filter_cons_of_pos rfl]
          exact ih (Item.apply invocation .numeric)
      | value option text =>
          have happly : Item.apply { invocation with locations } (.value option text) =
              { Item.apply invocation (.value option text) with locations } := by
            rw [Item.apply, Item.apply]
            cases option.set text invocation.settings <;> rfl
          rw [List.filter_cons_of_pos rfl, List.foldl_cons, happly]
          exact ih (Item.apply invocation (.value option text))

/-- **The same options with one location** ask for the same with this location. -/
theorem parse_alone {args : List Bytes} {invocation : Invocation}
    (h : parse args = (.ok (), invocation)) {location : Bytes}
    (hmem : location ∈ invocation.locations) :
    parse (alone args location) = (.ok (), { invocation with locations := [location] }) := by
  obtain ⟨items, hitems, rfl⟩ := parse_eq_ok_iff.mp h
  rw [requested_locations] at hmem
  have hloc : isLocation location = true := isLocation_of_reads hitems hmem
  have hreads := hitems.withoutLocations.append (.cons (.location hloc) .nil)
  refine parse_eq_ok_iff.mpr ⟨_, hreads, ?_⟩
  rw [requested, List.foldl_append]
  exact congrArg (Item.apply · (.location location)) (foldl_filter items {} [])

end Arguments

end DoctypeProbe
