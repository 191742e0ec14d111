import Scriptlet.CommandLine

/-!
# The program

Reads the arguments, the environment and the file, and writes what the command says.
-/

namespace Scriptlet.CommandLine

/-- The system's code for reading a directory as a file. -/
def directoryCode : UInt32 := 21

/-- The content of a file of the system. -/
def readFile (path : Path) : IO (Except ReadFailure (List Nat)) := do
  try
    let bytes ← IO.FS.readBinFile path.text
    return .ok (bytes.toList.map (·.toNat))
  catch e =>
    match e with
    | .noFileOrDirectory .. => return .error .missing
    | .inappropriateType _ code _ =>
      return .error (if code = directoryCode then .directory else .notDirectory)
    | e => return .error (.other e.toString)

/-- The settings in the environment of the system. -/
def readEnvironment : IO Environment := do
  let mut env := []
  for name in [Settings.limitName, Settings.levelName] do
    if let some text ← IO.getEnv name then env := (name, text) :: env
  return env

end Scriptlet.CommandLine

open Scriptlet.CommandLine

/-- Runs the command. -/
def main (argv : List String) : IO UInt32 := do
  let asked := request argv
  let content ← match asked with
    | .run _ file _ => readFile (Path.ofText file)
    | _ => pure (.error .missing)
  let outcome := respond (← readEnvironment) (fun _ => content) asked
  (← IO.getStdout).putStr outcome.output
  let stderr ← IO.getStderr
  stderr.putStr outcome.report
  match outcome.ending with
  | .exit status => return status.toUInt32
  | .escaped reason =>
    stderr.putStrLn reason.message
    return 1
