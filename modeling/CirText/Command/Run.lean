import CirText.Command.Arguments
import CirText.Command.Files
import CirText.Command.Workers
import CirText.Printer
import CirText.Report

/-!
# Carrying out a command line

Checking reads all files, several at a time, and reports on those that can be read, in the order in
which they are given.
Printing shows a file only if it has no errors. Both fail if a file cannot be read or has an error.
-/

namespace CirText.Command

/-- What a command line leads to. -/
structure Outcome where
  /-- Whether it failed. -/
  failed : Bool
  /-- What is printed. -/
  output : String
  /-- The lines of messages. -/
  messages : List String
deriving DecidableEq, Repr

/-- The exit status: one for a failure. -/
def Outcome.exitStatus (outcome : Outcome) : Nat :=
  if outcome.failed then 1 else 0

/-- The options for reading a file. -/
def Invocation.options (invocation : Invocation) (path : String) : Options where
  sourceId := path
  maxDepth := invocation.maxDepth
  deprecations := invocation.deprecations

/-- Reads and parses a file. -/
def readAndParse (read : FileReader) (invocation : Invocation) (path : String) :
    Except ReadError ParsedFile := do
  let source ← read path
  return { path, source, parsed := parse source (invocation.options path) }

/-- The headings of the diagnostics of a file. -/
def headings (file : ParsedFile) : List String :=
  file.parsed.diagnostics.map Diagnostic.heading

/-- The last line about files that have been checked. -/
def summary (files : List ParsedFile) : String :=
  let errors := (files.flatMap fun file => file.parsed.errors).length
  let warnings := (files.flatMap fun file => file.parsed.warnings).length
  "checked " ++ toString files.length ++ " file(s): " ++ toString errors ++ " error(s), " ++
    toString warnings ++ " warning(s)"

/-- Checks files that have been read. -/
def report (format : Format) (outcomes : List (String × Except ReadError ParsedFile)) : Outcome :=
  let parsed := outcomes.filterMap fun (_, outcome) => outcome.toOption
  let unreadable := outcomes.filterMap fun
    | (path, .error error) => some ("Error reading " ++ path ++ ": " ++ error.message)
    | (_, .ok _) => none
  let failed := !unreadable.isEmpty || parsed.any (·.parsed.hasErrors)
  match format with
  | .human =>
    { failed, output := ""
      messages := unreadable ++ parsed.flatMap headings ++ [summary parsed] }
  | .json => { failed, output := ParsedFile.jsonText parsed ++ "\n", messages := unreadable }

/-- Prints a file that has been read. -/
def printFile (format : Format) (file : ParsedFile) : Outcome :=
  let messages := match format with
    | .human => headings file
    | .json => (ParsedFile.jsonText [file]).splitOn "\n"
  if file.parsed.hasErrors then { failed := true, output := "", messages }
  else { failed := false, output := file.parsed.unit.print, messages }

/-- Checks files, which are read by workers who take the given turns. -/
def check {workers : Nat} (read : FileReader) (invocation : Invocation) (files : List String)
    (turns : List (Fin workers)) : Outcome :=
  report invocation.format (files.zip (performAll (readAndParse read invocation) files turns))

/-- Carries out a command line. Unless the number of workers is given, each file has its own. -/
def run (read : FileReader) (invocation : Invocation) : Outcome :=
  match invocation.task with
  | .check files jobs =>
    let workers := workerCount (jobs.getD files.length) files.length
    check read invocation files (rotation workers files.length)
  | .print file =>
    match readAndParse read invocation file with
    | .ok file => printFile invocation.format file
    | .error error =>
      { failed := true, output := "", messages := ["Error reading file: " ++ error.message] }

end CirText.Command
