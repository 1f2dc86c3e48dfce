import DoctypeProbe.Bytes

/-!
# Help

The help text of the program: its usage, what a location can be, and the options.
-/

namespace DoctypeProbe

/-- The lines of the help text. -/
def helpLines : List String :=
  ["Usage: xmlmode [options] <location>...",
    "Reports whether each XML document declares DTD validation or uses XSD.",
    "A location is a path, file:<path>, search:<name>, or '-' for stdin.",
    "",
    "Options:",
    "  -h, --help                 Show this help message",
    "  -c, --config <file>        Configuration file path (TOML)",
    "  -l, --log-level <level>    Log level (trace, debug, info, warning, error, fatal)",
    "  -f, --log-file <file>      Log file path (default: stderr)",
    "      --charset <name>       Input charset (utf-8, iso-8859-1, us-ascii)",
    "      --base-dir <dir>       Directory relative locations resolve against",
    "      --search-path <dir>    Directory searched for search: locations (repeatable)",
    "      --buffer-size <n>      Read buffer size in bytes (default: 8192)",
    "      --numeric              Print numeric mode codes (0-3)"]

/-- The help text. -/
def helpText : Bytes := helpLines.flatMap fun line => ascii line ++ [Ascii.lf]

end DoctypeProbe
