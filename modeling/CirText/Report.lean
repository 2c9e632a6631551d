import CirText.Parser.Module
import CirText.Text.Json
import CirText.Text.Lines

/-!
# Reports

Diagnostics are reported to people as one line each, and to programs as a JSON document that lists
the diagnostics of each file with their offsets and their lines and columns.
-/

namespace CirText

/-- The colours in which kinds of diagnostics are shown. -/
inductive Color where
  | red
  | yellow
  | magenta
  | cyan
  | blue
  | white
deriving DecidableEq, Repr

/-- The name of a colour. -/
def Color.name : Color → String
  | red => "Red"
  | yellow => "Yellow"
  | magenta => "Magenta"
  | cyan => "Cyan"
  | blue => "Blue"
  | white => "White"

/-- The colour of a kind of diagnostic. -/
def DiagnosticKind.color : DiagnosticKind → Color
  | lex _ | unknownOpcode _ | ambiguousForm .. | malformed .. => .red
  | duplicate .. | unresolved .. => .yellow
  | unterminatedRegion _ => .magenta
  | sublanguage _ => .cyan
  | deprecated .. => .blue
  | cancelled => .white

/-- The severity as a heading. -/
def Severity.heading : Severity → String
  | error => "Error"
  | warning => "Warning"

namespace Diagnostic

/-- The place at which the diagnostic starts, from zero. One beyond the end counts as the end. -/
def place (source : List Char) (diagnostic : Diagnostic) : Text.Place :=
  Text.placeOf source (min diagnostic.span.start (Text.byteSize source))

/-- The line of the diagnostic, from one. -/
def line (source : List Char) (diagnostic : Diagnostic) : Nat :=
  (diagnostic.place source).line + 1

/-- The column of the diagnostic in characters, from one. -/
def column (source : List Char) (diagnostic : Diagnostic) : Nat :=
  (diagnostic.place source).column + 1

/-- The first line of what people are shown. -/
def heading (diagnostic : Diagnostic) : String :=
  let text :=
    "[" ++ diagnostic.code ++ "] " ++ diagnostic.severity.heading ++ ": " ++ diagnostic.message
  String.ofList (text.toList.takeWhile (· != '\n'))

/-- The diagnostic as a JSON document. -/
def toJson (source : List Char) (diagnostic : Diagnostic) : Text.Json :=
  .object
    [("severity", .string diagnostic.severity.name),
      ("code", .string diagnostic.code),
      ("message", .string diagnostic.message),
      ("start", .number diagnostic.span.start),
      ("end", .number diagnostic.span.stop),
      ("line", .number (diagnostic.line source)),
      ("column", .number (diagnostic.column source))]

end Diagnostic

/-- A file that has been parsed. -/
structure ParsedFile where
  /-- The path. -/
  path : String
  /-- The text of the file. -/
  source : String
  /-- What was found in it. -/
  parsed : Parsed

namespace ParsedFile

/-- The file and its diagnostics as a JSON document. -/
def toJson (file : ParsedFile) : Text.Json :=
  .object
    [("file", .string file.path),
      ("diagnostics", .array (file.parsed.diagnostics.map (·.toJson file.source.toList)))]

/-- The JSON text of several files. -/
def jsonText (files : List ParsedFile) : String :=
  (Text.Json.array (files.map toJson)).pretty

end ParsedFile

end CirText
