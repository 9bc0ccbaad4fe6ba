import GuardedData.Cli.Run

/-!
# The program

Reads the arguments and the files that they name, runs the command, and prints
its lines; an error goes to standard error.
-/

namespace GuardedData.Program

def readFile (path : String) : IO (Except InputError ByteArray) := do
  try
    return .ok (← IO.FS.readBinFile path)
  catch
    | .noFileOrDirectory .. => return .error .notFound
    | e => return .error (.other (toString e))

partial def readStream (stream : IO.FS.Stream) (bytes : ByteArray) : IO ByteArray := do
  let more ← stream.read 65536
  if more.isEmpty then return bytes else readStream stream (bytes ++ more)

def filesOf : Command → List String
  | .check schema value config => schema :: (value.toList ++ config.toList)
  | .describe schema => [schema]

def run (args : List String) : IO UInt32 := do
  match Arguments.read args with
  | .error e =>
    e.lines.forM IO.println
    if e.exitCode ≠ 0 then Topic.program.lines.forM IO.eprintln
    return UInt32.ofNat e.exitCode
  | .ok command =>
    let files ← (filesOf command).mapM fun path => return (path, ← readFile path)
    let stdin ← match command with
      | .check _ none _ => readStream (← IO.getStdin) .empty
      | _ => pure ByteArray.empty
    let inputs : Inputs :=
      { file := fun path => (Keyed.get? path files).getD (.error .notFound)
        stdin
        logFilter := ← IO.getEnv "SHAPEGUARD_LOG" }
    let report := command.run inputs
    report.lines.forM IO.println
    match report.result with
    | .ok () => pure ()
    | .error e => IO.eprintln e.message
    return UInt32.ofNat report.exitCode

end GuardedData.Program

def main (args : List String) : IO UInt32 := GuardedData.Program.run args
