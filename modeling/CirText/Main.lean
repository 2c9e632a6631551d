import CirText.Command.Run

/-!
# The program

Reads the files that a command line names, carries it out and prints what comes of it.
-/

namespace CirText.Command

/-- Whether an error of the system has a number; some calls report its negation. -/
def hasNumber (code number : UInt32) : Bool :=
  code == number || code == 0 - number

/-- The error of the system as an error of reading. -/
def ReadError.ofSystem (error : IO.Error) : ReadError :=
  match error with
  | .noFileOrDirectory .. => .notFound
  | .inappropriateType _ code _ => if hasNumber code 20 then .notDirectory else .isDirectory
  | .invalidArgument _ code _ =>
    if hasNumber code 36 then .nameTooLong else .other error.toString
  | error => .other error.toString

/-- Reads a text file. -/
def readFile (path : String) : IO (Except ReadError String) := do
  try
    return decodeText (← IO.FS.readBinFile path)
  catch error =>
    return .error (.ofSystem error)

/-- The files that a task reads. -/
def Task.files : Task → List String
  | check files _ => files
  | print file => [file]

/-- How the program is called. -/
def usage : String :=
  "Usage: cirtext [--format human|json] [--max-depth N] [--no-deprecations]\n" ++
    "         check [-j N] FILE... | print FILE"

/-- Carries out a command line on the files of the system. -/
def perform (invocation : Invocation) : IO UInt32 := do
  let contents ← invocation.task.files.mapM fun path => do return (path, ← readFile path)
  let outcome := run (fun path => (contents.lookup path).getD (.error .notFound)) invocation
  for message in outcome.messages do
    IO.eprintln message
  IO.print outcome.output
  return outcome.exitStatus.toUInt32

end CirText.Command

/-- The program. -/
def main (args : List String) : IO UInt32 :=
  match CirText.Command.parseArguments args with
  | .ok invocation => CirText.Command.perform invocation
  | .error .displayHelp => do
    IO.println CirText.Command.usage
    return 0
  | .error error => do
    IO.eprintln CirText.Command.usage
    return error.exitStatus.toUInt32
