import DoctypeProbe.Bytes

/-!
# Faults of Settings Documents

What can be wrong with a settings document, and the message that says so together with the
number of the line.
-/

namespace DoctypeProbe

namespace Toml

/-- What is wrong with a settings document. -/
inductive Fault where
  /-- A line begins with something that is not a key. -/
  | expectedKey
  /-- A key is not followed by an equals sign. -/
  | expectedEquals (key : Bytes)
  /-- Something follows a value or a section header on its line. -/
  | trailing
  /-- A section header is not closed on its line. -/
  | unterminatedSection
  /-- A section header names nothing. -/
  | emptySection
  /-- A section leads through something that is not a table. -/
  | notTable (key path : Bytes)
  /-- There is no value where one is expected. -/
  | invalidValue
  /-- A backslash in a string is followed by an unknown byte; NUL at the end of the text. -/
  | unknownEscape (byte : Byte)
  /-- A string is not closed on its line. -/
  | unterminatedString
  /-- The items of an array are not separated. -/
  | expectedComma
  /-- An array is not closed. -/
  | unterminatedArray
  /-- A word is neither of the truth values. -/
  | invalidBoolean (word : Bytes)
  /-- A numeral has no number in range. -/
  | invalidNumber (numeral : Bytes)
deriving DecidableEq, Repr

/-- The wording of a fault. -/
def Fault.what : Fault → Bytes
  | expectedKey => ascii "expected key"
  | expectedEquals key => ascii "expected '=' after key '" ++ key ++ ascii "'"
  | trailing => ascii "unexpected trailing characters"
  | unterminatedSection => ascii "unterminated section header"
  | emptySection => ascii "empty section header"
  | notTable key path => ascii "'" ++ key ++ ascii "' in [" ++ path ++ ascii "] is not a table"
  | invalidValue => ascii "invalid value"
  | unknownEscape byte => ascii "unknown escape sequence \\" ++ [byte]
  | unterminatedString => ascii "unterminated string"
  | expectedComma => ascii "expected ',' or ']' in array"
  | unterminatedArray => ascii "unterminated array"
  | invalidBoolean word => ascii "invalid boolean '" ++ word ++ ascii "'"
  | invalidNumber numeral => ascii "invalid number '" ++ numeral ++ ascii "'"

/-- A fault with the number of the line it was met on. -/
structure ParseError where
  /-- The number of the line, from one. -/
  line : Nat
  /-- What is wrong. -/
  fault : Fault
deriving DecidableEq, Repr

/-- The message of a fault. -/
def ParseError.message (e : ParseError) : Bytes :=
  ascii "TOML parse error at line " ++ Bytes.decimal e.line ++ ascii ": " ++ e.fault.what

end Toml

end DoctypeProbe
