import DoctypeProbe.Source
import DoctypeProbe.Text.Utf8
import DoctypeProbe.Toml.Error

/-!
# Failures

Every way in which an operation of the library can fail, by its cause: input and output,
decoding, locations that nothing resolves, arguments that are refused, a stream that has been
handed out before, and settings that cannot be used. The wording of each is a function of its
cause.
-/

namespace DoctypeProbe

/-- An argument that is refused before anything is done. -/
inductive Misuse where
  /-- There is no source to detect. -/
  | noSource
  /-- There is no source to wrap. -/
  | noWrappedSource
  /-- There is no location to resolve. -/
  | emptyLocation
  /-- There is no resolver to register. -/
  | emptyResolver
  /-- An option is not followed by its value. -/
  | missingValue (option : Bytes)
  /-- A text is not the size of a buffer. -/
  | invalidBufferSize (text : Bytes)
  /-- There is no such option. -/
  | unknownOption (text : Bytes)
  /-- There is no log level of this name. -/
  | unknownLogLevel (name : Bytes)
  /-- There is no charset of this name. -/
  | unknownCharset (name : Bytes)
  /-- A buffer of no size is asked for. -/
  | zeroBufferSize
deriving DecidableEq, Repr

/-- The message of a refused argument. -/
def Misuse.message : Misuse → Bytes
  | noSource => ascii "ValidationModeDetector: input source must not be null"
  | noWrappedSource => ascii "InputSourceResource: source must not be null"
  | emptyLocation => ascii "ResourceLoader: location must not be empty"
  | emptyResolver => ascii "ResourceLoader: protocol resolver must not be empty"
  | missingValue option => ascii "Missing value for option " ++ option
  | invalidBufferSize text => ascii "Invalid buffer size: " ++ text
  | unknownOption text => ascii "Unknown option: " ++ text
  | unknownLogLevel name => ascii "Unknown log level: " ++ name
  | unknownCharset name => ascii "Unknown charset: " ++ name
  | zeroBufferSize => ascii "Read buffer size must be positive"

/-- What is wrong with settings. -/
inductive SettingsError where
  /-- The document has a fault. -/
  | parse (error : Toml.ParseError)
  /-- The file cannot be opened. -/
  | cannotOpen (path : Bytes)
  /-- The file could not be loaded. -/
  | notLoaded (fileName : Bytes)
  /-- The size of the read buffer is not positive. -/
  | bufferSizeNotPositive
  /-- An item of an array of texts is not a text. -/
  | itemNotString (key : Bytes)
deriving DecidableEq, Repr

/-- The message of a settings error. -/
def SettingsError.message : SettingsError → Bytes
  | parse e => e.message
  | cannotOpen path => ascii "Cannot open file: " ++ path
  | notLoaded fileName => ascii "Failed to load configuration file: " ++ fileName
  | bufferSizeNotPositive => ascii "xmlmode.detector.readBufferSize must be positive"
  | itemNotString key =>
    ascii "ConfigLoader: Array element at '" ++ key ++ ascii "' is not a string"

/-- Any failure of the library. -/
inductive Failure where
  /-- Input or output failed. -/
  | io (error : IoError)
  /-- Bytes cannot be decoded. -/
  | decoding (error : DecodingError)
  /-- Nothing resolves the scheme of a location. -/
  | unsupportedLocation (location : Bytes)
  /-- An argument was refused. -/
  | misuse (misuse : Misuse)
  /-- A stream that can be handed out once has been handed out before. -/
  | alreadyRead
  /-- Settings cannot be used. -/
  | settings (error : SettingsError)
  /-- A failure described by its own text. -/
  | other (text : Bytes)
deriving DecidableEq, Repr

/-- The message of a failure. -/
def Failure.message : Failure → Bytes
  | io e => e.message
  | decoding e => e.message
  | unsupportedLocation location => ascii "Unsupported resource location: " ++ location
  | misuse m => m.message
  | alreadyRead =>
    ascii "InputSource has already been read - do not use InputSourceResource if a stream " ++
      ascii "needs to be read multiple times"
  | settings e => e.message
  | other text => text

end DoctypeProbe
