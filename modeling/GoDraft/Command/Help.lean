import GoDraft.Batch.Report
import GoDraft.Command.Arguments
import GoDraft.Command.ExitCode

/-!
# GoDraft — help

What is printed when the arguments make no command: the version or the help, which were asked for, or
what is wrong.

* `UsageError.exit` — the exit code;
* `UsageError.stdout`, `UsageError.stderr` — the texts.
-/

namespace GoDraft

/-- The name and the version of the program. -/
def versionLine : Text := line (programName ++ " " ++ programVersion)

/-- The commands and their options. -/
def helpText : Text :=
  line "Translate Java source into approximate Go source"
    ++ "\n" ++ line "Usage: java2go [-v]... <COMMAND>"
    ++ "\n" ++ line "Commands:"
    ++ line "  translate <PATH>   Translate a Java file or directory to Go"
    ++ line "      -o, --output <PATH>    Output .go file (single input) or directory"
    ++ line "          --stdout           Print generated Go instead of writing files"
    ++ line "      -f, --format <FORMAT>  Report format: pretty or json"
    ++ line "          --reindent         Re-indent generated code from its brace structure"
    ++ line "          --exclude <GLOB>   Glob patterns for paths to skip (repeatable)"
    ++ line "      -c, --config <PATH>    Path to config YAML file"
    ++ line "          --no-capitalize    Keep Java field names as they are"
    ++ line "          --value-receivers  Use value receivers instead of pointer receivers"
    ++ line "          --strip-comments   Drop comments from the output"
    ++ line "          --library-calls    Rewrite common Java library calls"
    ++ line "  fmt <PATH>         Re-indent a Go file from its brace structure"
    ++ line "      -w, --write            Rewrite the file in place instead of printing"
    ++ line "  template [NAME]    Write one of the built-in Java samples"
    ++ line "      -o, --output <PATH>    Output file path"
    ++ line "      -l, --list             List available templates"
    ++ line "  help               Print this message"
    ++ "\n" ++ line "Options:"
    ++ line "  -v, --verbose      Increase log verbosity (-v, -vv, -vvv)"
    ++ line "  -h, --help         Print help"
    ++ line "  -V, --version      Print version"

namespace UsageError

/-- The exit code. What was asked for is no error. -/
def exit : UsageError → ExitCode
  | .help | .version => .success
  | _ => .error

/-- What goes to the standard output. -/
def stdout : UsageError → Text
  | .help => helpText
  | .version => versionLine
  | _ => []

/-- What is wrong. -/
def message : UsageError → Text
  | .help | .version | .helpForNothing => []
  | .missingCommand => "a subcommand is required"
  | .unknownCommand => "unrecognized subcommand"
  | .unknownArgument => "unexpected argument"
  | .missingArgument => "a required argument was not provided"
  | .conflict => "an argument cannot be used here again or with another one"
  | .invalidValue => "a value is missing or invalid"
  | .tooManyValues => "a value was attached to an option that takes none"

/-- What goes to the error output. -/
def stderr : UsageError → Text
  | .help | .version => []
  | .helpForNothing => helpText
  | e => line ("error: " ++ e.message) ++ "\n" ++ line "For more information, try '--help'."

end UsageError

end GoDraft
