import GuardedData.Json.Printer
import GuardedData.Json.Skipping

/-!
# Configuration

A configuration file is a JSON object of three settings that may be left out;
other names are skipped. An array of the settings in order is read as well.
-/

namespace GuardedData

structure Config where
  /-- Report an invalid document without failing. -/
  quiet : Bool := false
  logLevel : String := "warn"
  logJson : Bool := false
  deriving DecidableEq, Repr

namespace Config

inductive Entry where
  | quiet (b : Bool)
  | logLevel (s : String)
  | logJson (b : Bool)
  | other

def readBool : Reader Bool := fun cs =>
  match Json.scalar (Json.skipSpace cs) with
  | some (.bool b, rest) => some (b, rest)
  | _ => none

def readText : Reader String := fun cs =>
  match Json.scalar (Json.skipSpace cs) with
  | some (.string s, rest) => some (s, rest)
  | _ => none

/-- A member, whose name says what its value has to be. -/
def readEntry : Reader Entry := fun cs => do
  let (name, rest) ← Json.memberName cs
  let rest ← Json.skipColon rest
  match name with
  | "quiet" => (readBool rest).map fun (b, rest) => (.quiet b, rest)
  | "log_level" => (readText rest).map fun (s, rest) => (.logLevel s, rest)
  | "log_json" => (readBool rest).map fun (b, rest) => (.logJson b, rest)
  | _ => (Json.skip rest).map fun (_, rest) => (.other, rest)

/-- The value of a setting that is given at most once. -/
def once? {α : Type} (default : α) : List α → Option α
  | [] => some default
  | [a] => some a
  | _ => none

/-- The configuration of the members; no setting may be repeated. -/
def ofEntries? (entries : List Entry) : Option Config := do
  let quiet ← once? false (entries.filterMap fun | .quiet b => some b | _ => none)
  let logLevel ← once? "warn" (entries.filterMap fun | .logLevel s => some s | _ => none)
  let logJson ← once? false (entries.filterMap fun | .logJson b => some b | _ => none)
  some { quiet, logLevel, logJson }

/-- The configuration of an array; settings at the end may be left out. -/
def ofItems? : List Json → Option Config
  | [] => some {}
  | [.bool quiet] => some { quiet }
  | [.bool quiet, .string logLevel] => some { quiet, logLevel }
  | [.bool quiet, .string logLevel, .bool logJson] => some { quiet, logLevel, logJson }
  | _ => none

def ofText? (text : String) : Option Config := do
  let (config, rest) ← match Json.skipSpace text.toList with
    | '{' :: rest => do
      let (entries, rest) ← Json.separated readEntry '}' rest
      let config ← ofEntries? entries
      some (config, rest)
    | '[' :: rest => do
      let (items, rest) ← Json.separated (Json.value (Json.maxDepth - 1)) ']' rest
      let config ← ofItems? items
      some (config, rest)
    | _ => none
  if (Json.skipSpace rest).isEmpty then some config else none

def toJson (c : Config) : Json :=
  .object [("quiet", .bool c.quiet), ("log_level", .string c.logLevel),
    ("log_json", .bool c.logJson)]

end Config

end GuardedData
