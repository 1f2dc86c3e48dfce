import DoctypeProbe.Bytes

/-!
# Input Sources

An input source is a sequential byte stream with an explicit close. Reading and closing are
functions on the state of the source: each answers the outcome together with the state
afterwards, so a source that fails and works again later is as ordinary as one that does
not.

Every source comes with a bound on the bytes it can still deliver. The bound is what makes
every loop over a source end.

## Main results

* `InputSource.remaining_lt` — a read that delivers something leaves strictly less to read.
* `InputSource.drain` — reads a source to its end, in blocks of a given size.
-/

namespace DoctypeProbe

/-! ### System error numbers -/

/-- The number the operating system gives to a failed operation; zero stands for none. -/
abbrev Errno := Int

namespace Errno

/-- There is no such file. -/
def noEntry : Errno := 2
/-- The device failed. -/
def inputOutput : Errno := 5
/-- The descriptor is not open. -/
def badDescriptor : Errno := 9
/-- A path leads through something that is not a directory. -/
def notDirectory : Errno := 20
/-- A directory was read as a file. -/
def isDirectory : Errno := 21
/-- A path or one of its parts is too long. -/
def nameTooLong : Errno := 36

/-- The text that describes an error number. -/
def text (e : Errno) : Bytes :=
  if e = 2 then ascii "No such file or directory"
  else if e = 5 then ascii "Input/output error"
  else if e = 9 then ascii "Bad file descriptor"
  else if e = 13 then ascii "Permission denied"
  else if e = 20 then ascii "Not a directory"
  else if e = 21 then ascii "Is a directory"
  else if e = 36 then ascii "File name too long"
  else ascii "Unknown error " ++ Bytes.signedDecimal e

end Errno

/-! ### Failures of input and output -/

/-- Why an input operation failed. -/
inductive IoError where
  /-- The location does not name an existing file. -/
  | notFound (location : Bytes)
  /-- The file exists but cannot be opened. -/
  | openFailed (path : Bytes) (errno : Errno)
  /-- The source has been closed. -/
  | readClosed (description : Bytes)
  /-- The source failed while it was read. -/
  | readFailed (description : Bytes) (errno : Errno)
  /-- The source failed while it was closed. -/
  | closeFailed (description : Bytes) (errno : Errno)
  /-- The properties of a file cannot be asked for. -/
  | statFailed (path : Bytes) (errno : Errno)
  /-- A resource with no file behind it has no modification time. -/
  | noModificationTime (description : Bytes)
  /-- A resource with no location cannot be the start of a relative path. -/
  | noRelative (description path : Bytes)
  /-- Standard input is not there to be read. -/
  | noStandardInput (errno : Errno)
  /-- A device failed for a reason of its own. -/
  | device (what : Bytes) (errno : Errno)
deriving DecidableEq, Repr

namespace IoError

/-- The error number captured where the operation failed, or zero. -/
def errno : IoError → Errno
  | openFailed _ e | readFailed _ e | closeFailed _ e | statFailed _ e | noStandardInput e
  | device _ e => e
  | _ => 0

/-- What was attempted. -/
def what : IoError → Bytes
  | notFound location => ascii "resource not found: " ++ location
  | openFailed path _ => ascii "cannot open " ++ path
  | readClosed description => ascii "read from closed source " ++ description
  | readFailed description _ => ascii "cannot read " ++ description
  | closeFailed description _ => ascii "cannot close " ++ description
  | statFailed path _ => ascii "cannot stat " ++ path
  | noModificationTime description =>
    description ++ ascii " cannot be resolved to a file for last-modified check"
  | noRelative description path =>
    ascii "Cannot create a relative resource for " ++ description ++ ascii " and path " ++ path
  | noStandardInput _ => ascii "cannot duplicate standard input"
  | device what _ => what

/-- The message: what was attempted, and the text of the error number if there is one. -/
def message (e : IoError) : Bytes :=
  ascii "I/O Error: " ++ e.what ++
    (if e.errno = 0 then [] else ascii ": " ++ e.errno.text)

end IoError

/-! ### The interface -/

/-- A sequential byte stream whose states are the values of `σ`. -/
class InputSource (σ : Type) where
  /-- Delivers up to the given number of bytes; none at the end of the stream. Numbers of 2⁶³ and
  more are not meant, as no block is that large. -/
  read : σ → Nat → Except IoError Bytes × σ
  /-- Releases the stream. -/
  close : σ → Except IoError Unit × σ
  /-- Whether the stream has not been released. -/
  isOpen : σ → Bool
  /-- The name of the stream in messages. -/
  description : σ → Bytes
  /-- A bound on the bytes still to be delivered. -/
  remaining : σ → Nat
  /-- A read delivers no more than asked for, and what it delivers comes off the bound. -/
  read_bound : ∀ {s s' : σ} {n : Nat} {bs : Bytes}, read s n = (.ok bs, s') →
    bs.length ≤ n ∧ bs.length + remaining s' ≤ remaining s

namespace InputSource

variable {σ : Type} [InputSource σ]

/-- A read that delivers something leaves strictly less to read. -/
theorem remaining_lt {s s' : σ} {n : Nat} {b : Byte} {bs : Bytes}
    (h : read s n = (.ok (b :: bs), s')) : remaining s' < remaining s := by
  have hb := (read_bound h).2
  simp only [List.length_cons] at hb
  omega

/-- Reads a source to its end in blocks of up to `block` bytes and answers all the bytes
delivered, or the first failure. -/
def drain (block : Nat) (s : σ) : Except IoError Bytes × σ :=
  match _h : read s block with
  | (.error e, s') => (.error e, s')
  | (.ok [], s') => (.ok [], s')
  | (.ok (b :: bs), s') =>
    match drain block s' with
    | (.error e, s'') => (.error e, s'')
    | (.ok more, s'') => (.ok (b :: bs ++ more), s'')
termination_by remaining s
decreasing_by exact remaining_lt ‹_›

end InputSource

end DoctypeProbe
