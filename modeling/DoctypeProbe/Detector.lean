import DoctypeProbe.Comment
import DoctypeProbe.Failure
import DoctypeProbe.Log.Level
import DoctypeProbe.Mode
import DoctypeProbe.Text.Letter
import DoctypeProbe.Text.LineReader

/-!
# Detection

Detection reads a document line by line, without its comments, until a line decides: a line
that declares a document type makes it `dtd`, a line whose first `<` opens an element makes
it `xsd`. A document that ends before is `xsd`, and one that does not decode is left to the
caller as `auto`.

A detection owns its source. It closes it after the last read, except when a read failed:
then the failure is passed on and the source is left as it is.

## Main results

* `Detector.finding?` — what one line decides.
* `Detector.detect` — the outcome of a detection, what it logs, and the source it leaves.
* `Detector.modeOf` — the mode of a document as a function of its bytes and charset alone.
-/

namespace DoctypeProbe

namespace Detector

variable [Alphabet]

/-! ### What a line decides -/

/-- Declares a document type. -/
def doctype : Bytes := ascii "DOCTYPE"

/-- Whether a text declares a document type. -/
def hasDoctype (content : Bytes) : Bool := content.contains doctype

/-- Whether the first `<` of a text is directly followed by a letter. -/
def hasOpeningTag (content : Bytes) : Bool :=
  match content.cutAt [Ascii.less] with
  | some (_, tag) => Letter.startsWith (tag.drop 1)
  | none => false

/-- The bytes that count as white space in a line: space, the controls from tab to carriage
return, and the four separators before space. -/
def isBlank (b : Byte) : Bool :=
  b == Ascii.space || (Ascii.tab ≤ b && b ≤ Ascii.cr) || (0x1C ≤ b && b ≤ 0x1F)

/-- Whether a text holds anything besides white space. -/
def hasText (content : Bytes) : Bool := content.any (!isBlank ·)

/-- What decides about a document. -/
inductive Finding where
  /-- A declared document type. -/
  | doctype
  /-- The first element. -/
  | element
deriving DecidableEq, Repr

/-- The mode of a document that a finding decides. -/
def Finding.mode : Finding → Mode
  | doctype => .dtd
  | element => .xsd

/-- What a text outside comments decides; a document type wins over an element. -/
def findingIn (content : Bytes) : Option Finding :=
  if !hasText content then none
  else if hasDoctype content then some .doctype
  else if hasOpeningTag content then some .element
  else none

/-- What a decoded line decides, and whether it ends inside a comment. A line that ends
inside a comment decides nothing. -/
def finding? (inside : Bool) (line : Bytes) : Option Finding × Bool :=
  match Comment.strip inside line with
  | (some content, false) => (findingIn content, false)
  | (_, inside') => (none, inside')

/-! ### Detection over a source -/

/-- How a document is read. -/
structure Options where
  /-- The charset of the document. -/
  charset : Charset := .utf8
  /-- The size of the blocks read. -/
  bufferSize : Nat := LineReader.defaultBufferSize
deriving DecidableEq, Repr

variable {σ : Type} [InputSource σ]

/-- Reads lines until one decides, and answers what it decides and its number. -/
def scan (inside : Bool) (reader : LineReader σ) :
    Except ReadError (Option (Finding × Nat)) × LineReader σ :=
  match _h : reader.readLine with
  | (.error e, reader') => (.error e, reader')
  | (.ok none, reader') => (.ok none, reader')
  | (.ok (some line), reader') =>
    match finding? inside line with
    | (some finding, _) => (.ok (some (finding, reader'.lineNumber)), reader')
    | (none, inside') => scan inside' reader'
termination_by reader.pending
decreasing_by exact LineReader.pending_lt ‹_›

/-- The end of a detection. -/
structure Detection (σ : Type) where
  /-- The mode, or the failure of the source. -/
  outcome : Except IoError Mode
  /-- What was logged, in order. -/
  log : List Log.Record
  /-- The source as it was left. -/
  source : σ

/-- Closes the source after a decision; a failure to close it takes the place of the mode. -/
def conclude (source : σ) (mode : Mode) (log : List Log.Record) : Detection σ :=
  let (closed, source') := InputSource.close source
  { outcome := closed.map fun _ => mode, log, source := source' }

/-- The record of a finding in a named source. -/
def Finding.record (description : Bytes) (line : Nat) : Finding → Log.Record
  | doctype =>
    ⟨.debug, ascii "DOCTYPE found in " ++ description ++ ascii " at line " ++ Bytes.decimal line⟩
  | element =>
    ⟨.debug, ascii "First element of " ++ description ++ ascii " at line " ++
      Bytes.decimal line ++ ascii " without DOCTYPE"⟩

/-- The record of a source that does not decode. -/
def undecodable (description : Bytes) (charset : Charset) (e : DecodingError) : Log.Record :=
  ⟨.warning, ascii "Cannot decode " ++ description ++ ascii " as " ++ charset.name ++
    ascii ": " ++ e.message.untilNul⟩

/-- Detects the mode of the document in a source. -/
def detect (options : Options) (source : σ) : Detection σ :=
  match scan false (LineReader.over source options.charset options.bufferSize) with
  | (.error (.io e), reader) => { outcome := .error e, log := [], source := reader.source }
  | (.error (.decoding e), reader) =>
    conclude reader.source .auto
      [undecodable (InputSource.description reader.source) options.charset e]
  | (.ok none, reader) => conclude reader.source .xsd []
  | (.ok (some (finding, line)), reader) =>
    conclude reader.source finding.mode
      [finding.record (InputSource.description reader.source) line]

/-- Detects the mode of the document in a source that may be missing. A missing source is
refused before anything is read or logged. -/
def detectGiven (options : Options) : Option σ → Except Misuse (Detection σ)
  | none => .error .noSource
  | some source => .ok (detect options source)

/-! ### The mode of a document -/

/-- The mode decided by the raw lines of a document, from the left. -/
def modeOfLines (charset : Charset) (inside : Bool) : List Bytes → Mode
  | [] => .xsd
  | raw :: lines =>
    match charset.decode raw with
    | .error _ => .auto
    | .ok line =>
      match finding? inside line with
      | (some finding, _) => finding.mode
      | (none, inside') => modeOfLines charset inside' lines

/-- The mode of a document, as a function of its bytes and its charset. -/
def modeOf (charset : Charset) (document : Bytes) : Mode :=
  modeOfLines charset false (Lines.ofText document)

end Detector

end DoctypeProbe
