import DoctypeProbe.Bytes

/-!
# Validation Modes

How the structure of an XML document is validated. The modes have stable numbers, shared
with callers that exchange them as integers, and names that are read in any case.

## Main results

* `Mode.ofCode?_code` — a mode is found again by its number.
-/

namespace DoctypeProbe

/-- How the structure of a document is validated. -/
inductive Mode where
  /-- Not at all. -/
  | off
  /-- Not determined: the caller decides. -/
  | auto
  /-- By the document type that it declares. -/
  | dtd
  /-- By a schema: no document type is declared before the first element. -/
  | xsd
deriving DecidableEq, Repr

namespace Mode

/-- The name of a mode. -/
def name : Mode → Bytes
  | off => ascii "NONE"
  | auto => ascii "AUTO"
  | dtd => ascii "DTD"
  | xsd => ascii "XSD"

/-- The number of a mode. -/
def code : Mode → Nat
  | off => 0
  | auto => 1
  | dtd => 2
  | xsd => 3

/-- The mode with a given number. -/
def ofCode? (code : Int) : Option Mode :=
  if code = 0 then some off
  else if code = 1 then some auto
  else if code = 2 then some dtd
  else if code = 3 then some xsd
  else none

/-- The name shown for a number, whether or not it is the number of a mode. -/
def nameOfCode (code : Int) : Bytes :=
  match ofCode? code with
  | some mode => mode.name
  | none => ascii "UNKNOWN"

/-- The names in small letters. -/
def spellings : List (Bytes × Mode) :=
  [(ascii "none", off), (ascii "auto", auto), (ascii "dtd", dtd), (ascii "xsd", xsd)]

/-- Finds a mode by its name, ignoring case. -/
def parse? (text : Bytes) : Option Mode := spellings.lookup text.lower

theorem ofCode?_code (mode : Mode) : ofCode? mode.code = some mode := by
  cases mode <;> rfl

end Mode

end DoctypeProbe
