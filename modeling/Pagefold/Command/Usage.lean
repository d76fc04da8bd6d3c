import Pagefold.Command.Line

/-! # Usage

What a reader is told of a command line that says nothing that can be done, or that asks how it is
to be written. -/

namespace Pagefold.Command

/-- The version of the program. -/
def version : String := "0.4.1"

/-- How a command line is written. -/
def usage : String :=
  "\n".intercalate [
    "Usage: inlay [OPTIONS] inline [OPTIONS] DIR",
    "       inlay [OPTIONS] link [OPTIONS] DIR ENTRY",
    "",
    "Options:",
    "  -v, --verbose   tell of every step",
    "  -q, --quiet     tell of errors only",
    "      --no-color  tell without colours",
    "  -h, --help      show this text",
    "  -V, --version   show the version",
    "",
    "Options of inline:",
    "  -o, --out-dir DIR            write the result there",
    "  -c, --config FILE            read the configuration from a file",
    "  -p, --profile NAME           use a profile of the configuration",
    "      --pattern GLOB           fold in matching files only",
    "      --keep-inlined           keep the files that were folded in",
    "      --remove-module-loader   cut preload code out of entry scripts",
    "      --cdata                  wrap scripts in CDATA sections",
    "      --no-strip-css-comments  keep the comments of stylesheets",
    "      --json                   print the report as JSON",
    "",
    "Options of link:",
    "  -o, --output FILE              write the script to a file",
    "      --namespace-prefix PREFIX  begin the names of wrapped chunks with a text"]

def UsageError.message : UsageError → String
  | unknownArgument => "unexpected argument"
  | unknownCommand => "unrecognized command"
  | conflict => "an option is given twice, or beside one that excludes it"
  | noValue => "a value is missing"
  | badValue => "a value is not valid"
  | surplusValue => "an option has a value that takes none"
  | missingOperand => "a required argument is missing"
  | missingCommand => "a command is missing"
  | nothingGiven => "nothing is asked for"
  | helpAsked => usage
  | versionAsked => version

end Pagefold.Command
