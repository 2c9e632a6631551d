import CirText.Options

/-!
# The command line

There are two commands, one that checks files and one that prints a file. Options are written as
`--name value` or `--name=value`, those of one letter as `-j value` or `-jvalue`, and after `--`
nothing is an option. Options for all commands may stand before or after the name of the command; if
one is given at both places, the one behind counts.

Arguments are taken from left to right. An option whose value comes next, and the files given in a
row, are kept until the next option or file, and only then checked. So of two mistakes the one that
is reported first need not be the one that comes first.
-/

namespace CirText.Command

/-- How diagnostics are shown. -/
inductive Format where
  | human
  | json
deriving DecidableEq, Repr

/-- The format with the given name. -/
def Format.ofName? (name : String) : Option Format :=
  if name = "human" then some .human else if name = "json" then some .json else none

/-- What is to be done. -/
inductive Task where
  /-- Parse files and report what is wrong with them, several at a time if wanted. -/
  | check (files : List String) (jobs : Option Nat)
  /-- Parse a file and print it. -/
  | print (file : String)
deriving DecidableEq, Repr

/-- A command line. -/
structure Invocation where
  /-- What is to be done. -/
  task : Task
  /-- How diagnostics are shown. -/
  format : Format
  /-- The number of regions that may nest. -/
  maxDepth : Nat
  /-- Whether deprecated forms are warned about. -/
  deprecations : Bool
deriving DecidableEq, Repr

/-- Why a command line is not carried out. -/
inductive UsageError where
  /-- There is no such option or no place for a further argument. -/
  | unknownArgument
  /-- There is no such command. -/
  | invalidSubcommand
  /-- There is no command, but something else. -/
  | missingSubcommand
  /-- A file is missing. -/
  | missingRequiredArgument
  /-- An option has no value, or a name that it does not know. -/
  | invalidValue
  /-- The value of an option is not a number that fits. -/
  | valueValidation
  /-- An option is given twice. -/
  | argumentConflict
  /-- An option without a value is given one. -/
  | tooManyValues
  /-- Help is asked for. -/
  | displayHelp
  /-- There is nothing on the command line. -/
  | displayHelpOnMissingArgumentOrSubcommand
deriving DecidableEq, Repr

/-- The exit status of a command line that is not carried out. Asking for help is no failure. -/
def UsageError.exitStatus : UsageError → Nat
  | displayHelp => 0
  | _ => 2

/-! ## Options -/

/-- The options. -/
inductive Flag where
  | help
  | noDeprecations
  | maxDepth
  | format
  | jobs
deriving DecidableEq, Repr

/-- Whether an option has a value. -/
def Flag.takesValue : Flag → Bool
  | help | noDeprecations => false
  | maxDepth | format | jobs => true

/-- The parts of a command line in which different arguments are understood. -/
inductive Level where
  /-- Before the name of the command. -/
  | general
  /-- After the name of the command that checks. -/
  | check
  /-- After the name of the command that prints. -/
  | print
deriving DecidableEq, Repr

/-- The option with a long name. -/
def Level.long? (level : Level) (name : String) : Option Flag :=
  if name = "help" then some .help
  else if name = "no-deprecations" then some .noDeprecations
  else if name = "max-depth" then some .maxDepth
  else if name = "format" then some .format
  else if name = "jobs" ∧ level = .check then some .jobs
  else none

/-- The option with a name of one letter. -/
def Level.short? (level : Level) (letter : Char) : Option Flag :=
  if letter = 'h' then some .help
  else if letter = 'j' ∧ level = .check then some .jobs
  else none

/-- The level that the name of a command leads to. -/
def Level.ofCommand? (name : String) : Option Level :=
  if name = "check" then some .check
  else if name = "print" then some .print
  else none

/-- What has been given on a level. -/
structure Given where
  noDeprecations : Bool := false
  maxDepth : Option Nat := none
  format : Option Format := none
  jobs : Option Nat := none
  files : List String := []
deriving DecidableEq, Repr

/-- The greatest number of 64 bits. -/
def maxNumber : Nat := 18446744073709551615

/-- A number of 64 bits in decimal digits, perhaps with a plus sign. -/
def number? (text : String) : Option Nat :=
  let digits := match text.toList with
    | '+' :: digits => digits
    | digits => digits
  if !digits.isEmpty && digits.all Char.isDigit then
    let value := digits.foldl (fun value digit => 10 * value + (digit.toNat - '0'.toNat)) 0
    if value ≤ maxNumber then some value else none
  else
    none

namespace Given

/-- Sets an option without a value. -/
def setFlag (given : Given) : Flag → Except UsageError Given
  | .help => .error .displayHelp
  | _ =>
    if given.noDeprecations then .error .argumentConflict
    else .ok { given with noDeprecations := true }

/-- The number that is the value of an option. -/
def numberOf (text : String) : Except UsageError Nat :=
  match number? text with
  | some value => .ok value
  | none => .error .valueValidation

/-- Sets an option to the value that a text stands for. -/
def setValue (given : Given) (flag : Flag) (text : String) : Except UsageError Given :=
  match flag with
  | .help | .noDeprecations => .error .tooManyValues
  | .maxDepth => do
    if given.maxDepth.isSome then throw .argumentConflict
    return { given with maxDepth := some (← numberOf text) }
  | .jobs => do
    if given.jobs.isSome then throw .argumentConflict
    return { given with jobs := some (← numberOf text) }
  | .format =>
    if given.format.isSome then .error .argumentConflict
    else
      match Format.ofName? text with
      | some format => .ok { given with format := some format }
      | none => .error .invalidValue

/-- Adds files. -/
def addFiles (given : Given) (files : List String) : Except UsageError Given :=
  if files.contains "" then .error .invalidValue
  else .ok { given with files := given.files ++ files }

/-- Whether an option has been given. -/
def hasOption (given : Given) : Bool :=
  given.noDeprecations || given.maxDepth.isSome || given.format.isSome || given.jobs.isSome

end Given

/-! ## Going through the arguments -/

/-- What has been taken but not checked yet. -/
inductive Pending where
  /-- Nothing. -/
  | nothing
  /-- An option whose value comes next. -/
  | awaiting (flag : Flag)
  /-- An option with its value. -/
  | value (flag : Flag) (text : String)
  /-- Files in a row. -/
  | files (files : List String)

/-- The state of going through the arguments on a level. -/
structure Scan where
  /-- What has been checked. -/
  given : Given := {}
  /-- What has not been checked yet. -/
  pending : Pending := .nothing
  /-- Whether nothing is an option any more. -/
  optionsEnded : Bool := false

namespace Scan

/-- Checks what has not been checked yet. -/
def settle (scan : Scan) : Except UsageError Scan :=
  match scan.pending with
  | .nothing => .ok scan
  | .awaiting _ => .error .invalidValue
  | .value flag text => do
    return { scan with given := ← scan.given.setValue flag text, pending := .nothing }
  | .files files => do
    return { scan with given := ← scan.given.addFiles files, pending := .nothing }

/-- Takes an option with the value attached to it, if there is one. -/
def option (scan : Scan) (flag : Flag) (attached : Option String) : Except UsageError Scan :=
  match flag.takesValue, attached with
  | false, some _ => .error .tooManyValues
  | false, none => do
    let scan ← scan.settle
    return { scan with given := ← scan.given.setFlag flag }
  | true, none => do
    let scan ← scan.settle
    return { scan with pending := .awaiting flag }
  | true, some text => do
    let scan ← scan.settle
    return { scan with given := ← scan.given.setValue flag text }

/-- Takes an option with a long name. -/
def long (level : Level) (scan : Scan) (text : List Char) : Except UsageError Scan :=
  let name := String.ofList (text.takeWhile (· != '='))
  let attached := match text.dropWhile (· != '=') with
    | [] => none
    | _ :: value => some (String.ofList value)
  match level.long? name with
  | some flag => scan.option flag attached
  | none => .error .unknownArgument

/-- Takes options with names of one letter. What follows the letter of an option with a value is its
value. -/
def short (level : Level) (scan : Scan) : List Char → Except UsageError Scan
  | [] => .ok scan
  | letter :: rest =>
    match level.short? letter with
    | none => .error .unknownArgument
    | some flag =>
      if flag.takesValue then
        match rest with
        | [] => scan.option flag none
        | '=' :: value => scan.option flag (some (String.ofList value))
        | value => scan.option flag (some (String.ofList value))
      else
        match scan.option flag none with
        | .ok scan => scan.short level rest
        | .error error => .error error

/-- Takes an argument that is no option: the value of an option or a file. -/
def plain (level : Level) (scan : Scan) (arg : String) : Except UsageError Scan :=
  match scan.optionsEnded, scan.pending with
  | false, .awaiting flag => .ok { scan with pending := .value flag arg }
  | ended, pending =>
    match level with
    | .general =>
      if ended && ((Level.ofCommand? arg).isSome || arg = "help") then .error .unknownArgument
      else .error .invalidSubcommand
    | .check =>
      match pending with
      | .files files => .ok { scan with pending := .files (files ++ [arg]) }
      | _ => do
        let scan ← scan.settle
        return { scan with pending := .files [arg] }
    | .print =>
      let isTaken := match pending with
        | .files _ => true
        | _ => !scan.given.files.isEmpty
      if isTaken then .error .unknownArgument
      else do
        let scan ← scan.settle
        return { scan with pending := .files [arg] }

/-- Takes an argument. -/
def take (level : Level) (scan : Scan) (arg : String) : Except UsageError Scan :=
  if scan.optionsEnded then scan.plain level arg
  else
    match arg.toList with
    | ['-', '-'] => .ok { scan with optionsEnded := true }
    | '-' :: '-' :: text => scan.long level text
    | '-' :: letter :: rest => scan.short level (letter :: rest)
    | _ => scan.plain level arg

/-- Whether the next argument can be the name of a command. -/
def atCommand (scan : Scan) : Bool :=
  !scan.optionsEnded && match scan.pending with
    | .awaiting _ => false
    | _ => true

end Scan

/-! ## Commands -/

/-- The arguments after the name of a command, of which a file is required. -/
def parseCommand (level : Level) (args : List String) : Except UsageError Given := do
  let scan ← args.foldlM (Scan.take level) {}
  let scan ← scan.settle
  if scan.given.files.isEmpty then
    throw .missingRequiredArgument
  return scan.given

/-- The outcome of asking for help on the named commands. The command for help has none below it. -/
def parseHelp : List String → UsageError
  | [] => .displayHelp
  | [name] =>
    if (Level.ofCommand? name).isSome || name = "help" then .displayHelp else .invalidSubcommand
  | _ => .invalidSubcommand

/-- The task of a command. -/
def taskOf (level : Level) (given : Given) : Task :=
  match level with
  | .print => .print (given.files.headD "")
  | .general | .check => .check given.files given.jobs

/-- The command line as it is understood in the end. -/
def combine (general : Given) (level : Level) (special : Given) : Invocation where
  task := taskOf level special
  format := (special.format <|> general.format).getD .human
  maxDepth := (special.maxDepth <|> general.maxDepth).getD defaultMaxDepth
  deprecations := !(special.noDeprecations || general.noDeprecations)

/-- Goes through the arguments up to the name of a command, and then through those after it. -/
def parseFrom (scan : Scan) : List String → Except UsageError Invocation
  | [] => do
    let scan ← scan.settle
    if scan.given.hasOption then .error .missingSubcommand
    else .error .displayHelpOnMissingArgumentOrSubcommand
  | arg :: rest =>
    if scan.atCommand && arg = "help" then .error (parseHelp rest)
    else
      match if scan.atCommand then Level.ofCommand? arg else none with
      | some level => do
        let special ← parseCommand level rest
        let scan ← scan.settle
        return combine scan.given level special
      | none => do
        parseFrom (← scan.take .general arg) rest

/-- Understands a command line. -/
def parseArguments (args : List String) : Except UsageError Invocation :=
  parseFrom {} args

end CirText.Command
