import GuardedData.Cli.Help
import GuardedData.Keyed

/-!
# Command line arguments

There are two commands, `check` and `describe`, whose options take one value
each. An option that waits for its value takes the next argument that does not
look like an option itself; its value is settled when the next option or the
end is reached, and only then can it be found empty or repeated.
-/

namespace GuardedData

/-- What the program is asked to do. -/
inductive Command where
  /-- Check a document, from standard input if no file is given. -/
  | check (schema : String) (value : Option String) (config : Option String)
  | describe (schema : String)
  deriving DecidableEq, Repr

/-- Why the arguments name no command to run. -/
inductive UsageError where
  | noArguments
  | unknownCommand
  | unknownArgument
  | missingOption
  /-- An option without a value, or with an empty one. -/
  | invalidValue
  | repeatedOption
  /-- A value after an option that takes none. -/
  | unneededValue
  /-- Not an error: help is asked for. -/
  | helpRequested (topic : Topic)
  | versionRequested
  deriving DecidableEq, Repr

namespace UsageError

def exitCode : UsageError → Nat
  | helpRequested _ => 0
  | versionRequested => 0
  | _ => 2

/-- The lines on standard output: what has been asked for. -/
def lines : UsageError → List String
  | helpRequested topic => topic.lines
  | versionRequested => [versionText]
  | _ => []

end UsageError

namespace Arguments

inductive Form where
  | endOfOptions
  | long (name : String) (value : Option String)
  | short (flags : List Char)
  | plain
  deriving DecidableEq, Repr

/-- The form of an argument, as its dashes show it. -/
def formOf (arg : String) : Form :=
  match arg.toList with
  | ['-', '-'] => .endOfOptions
  | '-' :: '-' :: rest =>
    let value := match rest.dropWhile (· ≠ '=') with
      | _ :: value => some (String.ofList value)
      | [] => none
    .long (String.ofList (rest.takeWhile (· ≠ '='))) value
  | '-' :: c :: rest => .short (c :: rest)
  | _ => .plain

/-- The options read so far. -/
structure Scan where
  settled : Keyed String
  /-- The last option and its value, unless that is still to come. -/
  pending : Option (String × Option String)

namespace Scan

def settle (s : Scan) (option : String) (value : Option String) : Except UsageError Scan :=
  match value with
  | none => .error .invalidValue
  | some value =>
    if (Keyed.get? option s.settled).isSome then .error .repeatedOption
    else if value.isEmpty then .error .invalidValue
    else .ok ⟨Keyed.insert option value s.settled, none⟩

def settlePending (s : Scan) : Except UsageError Scan :=
  match s.pending with
  | none => .ok s
  | some (option, value) => s.settle option value

end Scan

def readOptions (topic : Topic) (known : List String) :
    Scan → List String → Except UsageError (Keyed String)
  | s, [] => s.settlePending.map Scan.settled
  | s, arg :: rest =>
    match formOf arg with
    | .endOfOptions =>
      if rest.isEmpty then s.settlePending.map Scan.settled else .error .unknownArgument
    | .long name value =>
      if name = "help" then
        match value with
        | some _ => .error .unneededValue
        | none => s.settlePending.bind fun _ => .error (.helpRequested topic)
      else if known.contains name then
        match s.settlePending with
        | .error e => .error e
        | .ok s =>
          match value with
          | none => readOptions topic known { s with pending := some (name, none) } rest
          | some value =>
            match s.settle name (some value) with
            | .error e => .error e
            | .ok s => readOptions topic known s rest
      else .error .unknownArgument
    | .short flags =>
      if flags.head? = some 'h' then s.settlePending.bind fun _ => .error (.helpRequested topic)
      else .error .unknownArgument
    | .plain =>
      match s.pending with
      | some (option, none) =>
        readOptions topic known { s with pending := some (option, some arg) } rest
      | _ => .error .unknownArgument

def readCheck (args : List String) : Except UsageError Command := do
  let options ← readOptions .check ["schema", "value", "config"] ⟨[], none⟩ args
  match Keyed.get? "schema" options with
  | none => throw .missingOption
  | some schema =>
    return .check schema (Keyed.get? "value" options) (Keyed.get? "config" options)

def readDescribe (args : List String) : Except UsageError Command := do
  let options ← readOptions .describe ["schema"] ⟨[], none⟩ args
  match Keyed.get? "schema" options with
  | none => throw .missingOption
  | some schema => return .describe schema

def read : List String → Except UsageError Command
  | [] => .error .noArguments
  | "check" :: rest => readCheck rest
  | "describe" :: rest => readDescribe rest
  | "help" :: rest =>
    match rest with
    | [] => .error (.helpRequested .program)
    | [name] => .error (((Topic.ofCommand? name).map .helpRequested).getD .unknownCommand)
    | _ => .error .unknownCommand
  | arg :: rest =>
    match formOf arg with
    | .endOfOptions =>
      match rest with
      | [] => .error .noArguments
      | name :: _ =>
        .error (if (Topic.ofCommand? name).isSome then .unknownArgument else .unknownCommand)
    | .long name value =>
      if name = "help" || name = "version" then
        if value.isSome then .error .unneededValue
        else if name = "help" then .error (.helpRequested .program)
        else .error .versionRequested
      else .error .unknownArgument
    | .short flags =>
      match flags.head? with
      | some 'h' => .error (.helpRequested .program)
      | some 'V' => .error .versionRequested
      | _ => .error .unknownArgument
    | .plain => .error .unknownCommand

end Arguments

end GuardedData
