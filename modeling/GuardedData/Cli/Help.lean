/-!
# Help texts

What the program says about itself: its version, and the use of the program and
of each command.
-/

namespace GuardedData

def versionText : String := "shapeguard 0.1.0"

/-- What help can be asked for about. -/
inductive Topic where
  | program
  | check
  | describe
  | help
  deriving DecidableEq, Repr

namespace Topic

def ofCommand? : String → Option Topic
  | "check" => some check
  | "describe" => some describe
  | "help" => some help
  | _ => none

def summary : Topic → String
  | program => "Runtime schema validation with guarded, self-validating views"
  | check => "Validate a JSON document against a schema file"
  | describe => "Print the expected shape described by a schema file"
  | help => "Print this message or the help of the given subcommand(s)"

def usage : Topic → String
  | program => "Usage: shapeguard <COMMAND>"
  | check => "Usage: shapeguard check [OPTIONS] --schema <SCHEMA>"
  | describe => "Usage: shapeguard describe --schema <SCHEMA>"
  | help => "Usage: shapeguard help [COMMAND]..."

def arguments : Topic → List String
  | program => [
      "Commands:",
      "  check     " ++ check.summary,
      "  describe  " ++ describe.summary,
      "  help      " ++ help.summary,
      "",
      "Options:",
      "  -h, --help     Print help",
      "  -V, --version  Print version"]
  | check => [
      "Options:",
      "      --schema <SCHEMA>  Path to the schema document",
      "      --value <VALUE>    Path to the value document (reads stdin when omitted)",
      "      --config <CONFIG>  Path to configuration file",
      "  -h, --help             Print help"]
  | describe => [
      "Options:",
      "      --schema <SCHEMA>  Path to the schema document",
      "  -h, --help             Print help"]
  | help => [
      "Arguments:",
      "  [COMMAND]...  Print help for the subcommand(s)"]

def lines (t : Topic) : List String := [t.summary, "", t.usage, ""] ++ t.arguments

end Topic

end GuardedData
