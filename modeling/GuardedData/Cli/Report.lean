import GuardedData.Check
import GuardedData.Cli.Arguments
import GuardedData.Cli.Config
import GuardedData.Event
import GuardedData.Heap.Json
import GuardedData.Schema.Reading
import GuardedData.Text.Blank

/-!
# What a command reports

A command reads its files in a fixed order: configuration, log filter, schema,
value; the first one that fails decides the error and nothing is printed. Then
it prints one line with a JSON object. An invalid document makes the command
fail unless the configuration is quiet. Which texts are log filters is up to
the logger, and so a parameter.
-/

namespace GuardedData

/-- Why a text could not be read. -/
inductive InputError where
  | notFound
  | notText
  /-- There is nothing but white space. -/
  | blank
  | other (message : String)
  deriving DecidableEq, Repr

def InputError.message : InputError → String
  | notFound => "No such file or directory (os error 2)"
  | notText => "stream did not contain valid UTF-8"
  | blank => "Empty input"
  | other message => message

inductive CliError where
  | configUnreadable (path : String) (cause : InputError)
  | configInvalid (path : String)
  | filterInvalid (filter : String)
  | schemaInvalid (path : String)
  | input (cause : InputError)
  | notJson
  | invalidDocument (m : Mismatch)
  deriving DecidableEq, Repr

namespace CliError

def code : CliError → String
  | configUnreadable .. => "SHAPEGUARD_CLI_CONFIG_ERROR"
  | configInvalid _ => "SHAPEGUARD_CLI_CONFIG_ERROR"
  | filterInvalid _ => "SHAPEGUARD_CLI_CONFIG_ERROR"
  | schemaInvalid _ => "SHAPEGUARD_CLI_SCHEMA_ERROR"
  | input _ => "SHAPEGUARD_CLI_IO_ERROR"
  | notJson => "SHAPEGUARD_CLI_JSON_ERROR"
  | invalidDocument _ => "SHAPEGUARD_CLI_INVALID_DOCUMENT"

def detail : CliError → String
  | configUnreadable path cause => path ++ ": " ++ cause.message
  | configInvalid path => path ++ ": not a configuration"
  | filterInvalid filter => "log_level '" ++ filter ++ "': not a log filter"
  | schemaInvalid path => path ++ ": not a schema document"
  | input cause => cause.message
  | notJson => "not a JSON document"
  | invalidDocument m => m.message

def message (e : CliError) : String := e.code ++ ": " ++ e.detail

end CliError

/-- What a command can read. -/
structure Inputs where
  file : String → Except InputError ByteArray
  stdin : ByteArray
  /-- A log filter that takes the place of the configured one. -/
  logFilter : Option String

structure Report where
  /-- The lines on standard output. -/
  lines : List String
  events : List Event
  result : Except CliError Unit

def Report.exitCode (r : Report) : Nat := if r.result.isOk then 0 else 1

/-- Nothing was printed. -/
def Report.failed (e : CliError) : Report := ⟨[], [], .error e⟩

namespace Inputs

def decode (bytes : ByteArray) : Except InputError String :=
  match String.fromUTF8? bytes with
  | some text => .ok text
  | none => .error .notText

def text (i : Inputs) (path : String) : Except InputError String :=
  (i.file path).bind decode

/-- The configuration in a file, or the usual one. -/
def config (i : Inputs) : Option String → Except CliError Config
  | none => .ok {}
  | some path =>
    match i.text path with
    | .error e => .error (.configUnreadable path e)
    | .ok text =>
      match Config.ofText? text with
      | none => .error (.configInvalid path)
      | some config => .ok config

/-- Installs a logger for the first text that is a log filter, given or configured. Where one is
installed already it stays. -/
def installLogger (isFilter : String → Bool) (i : Inputs) (installed : Bool) (config : Config) :
    Except CliError (List Event) :=
  if i.logFilter.any isFilter || isFilter config.logLevel then
    .ok (if installed then [.loggerPresent] else [])
  else .error (.filterInvalid config.logLevel)

def schema (i : Inputs) (path : String) : Except CliError Schema :=
  match i.text path with
  | .error e => .error (.input e)
  | .ok text =>
    match Schema.ofText text with
    | .error _ => .error (.schemaInvalid path)
    | .ok s => .ok s

/-- The generic document in a file, or on standard input. -/
def document (i : Inputs) (path : Option String) : Except CliError Json :=
  let content := match path with
    | some path => i.text path
    | none => decode i.stdin
  match content with
  | .error e => .error (.input e)
  | .ok text =>
    if text.toList.all Text.isBlank then .error (.input .blank)
    else
      match Json.read text with
      | none => .error .notJson
      | some j => .ok j

end Inputs

def validLine : String := (Json.object [("status", .string "ok")]).render

def invalidLine (m : Mismatch) : String :=
  (Json.object [("status", .string "error"), ("code", .string m.code),
    ("message", .string m.message), ("path", .string m.location)]).render

def checkCommand (i : Inputs) (schemaPath : String) (valuePath : Option String) (quiet : Bool) :
    Report :=
  match i.schema schemaPath with
  | .error e => .failed e
  | .ok schema =>
    match i.document valuePath with
    | .error e => .failed e
    | .ok document =>
      let (value, heap) := Heap.ofJson .empty document
      let begun := Event.checkBegun schemaPath schema.describe
      match check Catalogue.builtin heap schema value with
      | .ok () => ⟨[validLine], [begun, .documentValid], .ok ()⟩
      | .error m =>
        ⟨[invalidLine m], [begun, .documentInvalid m],
          if quiet then .ok () else .error (.invalidDocument m)⟩

/-- Prints the expected shape of a schema file. -/
def describeCommand (i : Inputs) (schemaPath : String) : Report :=
  match i.schema schemaPath with
  | .error e => .failed e
  | .ok schema =>
    ⟨[(Json.object [("expected", .string schema.describe)]).render], [], .ok ()⟩

/-- The report of a command, where `isFilter` says which texts are log filters. -/
def Command.report (isFilter : String → Bool) (i : Inputs) : Command → Report
  | .describe schemaPath => describeCommand i schemaPath
  | .check schemaPath valuePath configPath =>
    match i.config configPath with
    | .error e => .failed e
    | .ok config =>
      match i.installLogger isFilter false config with
      | .error e => .failed e
      | .ok _ => checkCommand i schemaPath valuePath config.quiet

end GuardedData
