import DoctypeProbe.Number.Numeral
import DoctypeProbe.Settings.Basic

/-!
# Arguments

The arguments of the program are flags, options with a value, and locations, in any order. A
value is taken as it is, also if it looks like an option. A location is anything that does
not begin with a hyphen, and the hyphen alone, which stands for standard input.

## Main results

* `Arguments.bufferSize?` — the texts that give the size of a buffer.
* `Arguments.parse` — what the arguments ask for, or the first one that is refused.
-/

namespace DoctypeProbe

/-- What the arguments ask for. -/
structure Invocation where
  /-- The settings. -/
  settings : Settings := {}
  /-- The locations of the documents, in order. -/
  locations : List Bytes := []
  /-- Whether modes are shown by number. -/
  numeric : Bool := false
  /-- Whether help is asked for. -/
  help : Bool := false
deriving DecidableEq, Repr

namespace Arguments

/-- An option with a value. -/
inductive ValueOption where
  /-- The settings file. -/
  | config
  /-- The log level. -/
  | logLevel
  /-- The log file. -/
  | logFile
  /-- The charset. -/
  | charset
  /-- The base directory. -/
  | baseDirectory
  /-- One more directory to search. -/
  | searchPath
  /-- The size of the read buffer. -/
  | bufferSize
deriving DecidableEq, Repr

/-- The spellings of the options with a value. -/
def valueOptions : List (Bytes × ValueOption) :=
  [(ascii "-c", .config), (ascii "--config", .config), (ascii "-l", .logLevel),
    (ascii "--log-level", .logLevel), (ascii "-f", .logFile), (ascii "--log-file", .logFile),
    (ascii "--charset", .charset), (ascii "--base-dir", .baseDirectory),
    (ascii "--search-path", .searchPath), (ascii "--buffer-size", .bufferSize)]

/-- Whether an argument asks for help. -/
def isHelp (arg : Bytes) : Bool := arg == ascii "-h" || arg == ascii "--help"

/-- Whether an argument asks for modes by number. -/
def isNumeric (arg : Bytes) : Bool := arg == ascii "--numeric"

/-- Whether an argument is a location. -/
def isLocation (arg : Bytes) : Bool := arg.length ≤ 1 || arg.head? != some Ascii.minus

/-- The size of a buffer: a text that is an integer throughout, positive, and fits into 64
bits. -/
def bufferSize? (text : Bytes) : Option Nat :=
  match Numeral.integer? text with
  | some (n, []) => if 0 < n && Numeral.fitsInt64 n then some n.toNat else none
  | _ => none

/-- Takes the value of an option into account. -/
def ValueOption.set (option : ValueOption) (value : Bytes) (s : Settings) :
    Except Misuse Settings :=
  match option with
  | config => .ok { s with configFile := some value }
  | logLevel => .ok { s with logLevel := some value }
  | logFile => .ok { s with logFile := some value }
  | charset => .ok { s with charset := some value }
  | baseDirectory => .ok { s with baseDirectory := some value }
  | searchPath => .ok { s with searchPaths := some (s.searchPaths.getD [] ++ [value]) }
  | bufferSize =>
    match bufferSize? value with
    | some n => .ok { s with bufferSize := some n }
    | none => .error (.invalidBufferSize value)

/-- The settings left by an option whose value is missing: the search paths count as set. -/
def ValueOption.withoutValue (option : ValueOption) (s : Settings) : Settings :=
  match option with
  | searchPath => { s with searchPaths := some (s.searchPaths.getD []) }
  | _ => s

/-- Takes further arguments into account. An argument that is refused leaves what the
arguments before it ask for. -/
def parseFrom (invocation : Invocation) : List Bytes → Except Misuse Unit × Invocation
  | [] => (.ok (), invocation)
  | arg :: args =>
    if isHelp arg then parseFrom { invocation with help := true } args
    else if isNumeric arg then parseFrom { invocation with numeric := true } args
    else
      match valueOptions.lookup arg with
      | some option =>
        match args with
        | [] =>
          (.error (.missingValue arg),
            { invocation with settings := option.withoutValue invocation.settings })
        | value :: args =>
          match option.set value invocation.settings with
          | .ok settings => parseFrom { invocation with settings } args
          | .error e => (.error e, invocation)
      | none =>
        if isLocation arg then
          parseFrom { invocation with locations := invocation.locations ++ [arg] } args
        else (.error (.unknownOption arg), invocation)

/-- What a list of arguments asks for. -/
def parse (args : List Bytes) : Except Misuse Unit × Invocation := parseFrom {} args

end Arguments

end DoctypeProbe
