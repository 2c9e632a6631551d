import CirText.Opcode
import CirText.Scope.Tracker
import CirText.Sublanguage.Basic

/-!
# Diagnostics

What is wrong with a source unit is collected while it is read and never stops the reading. Each
diagnostic has a cause with a stable code and a message, the span of the offending text, and, where
there is an obvious one, the span that a fix would touch. In the end the diagnostics are put into
the order of the text; those for the same span keep the order in which they were found.
-/

namespace CirText

/-- How serious a diagnostic is; errors come before warnings. -/
inductive Severity where
  | error
  | warning
deriving DecidableEq, Repr

/-- The severity in one word. -/
def Severity.name : Severity → String
  | error => "error"
  | warning => "warning"

/-- The causes of diagnostics. -/
inductive DiagnosticKind where
  /-- A piece of text is no token. -/
  | lex (error : LexFault)
  /-- A keyword names no operation. -/
  | unknownOpcode (keyword : String)
  /-- An operation does not go on in any of its forms. -/
  | ambiguousForm (opcode : Opcode) (expected found : String)
  /-- A construct does not go on as it has to. -/
  | malformed (construct expected found : String)
  /-- A name is defined a second time. -/
  | duplicate (name : String) (previous : Span)
  /-- A name is used that refers to nothing. -/
  | unresolved (name : String) (reason : UnresolvedReason)
  /-- A region or block does not end as it has to. -/
  | unterminatedRegion (message : String)
  /-- A type or attribute is not in its language. -/
  | sublanguage (error : SublanguageError)
  /-- A form of an operation is accepted but should not be used. -/
  | deprecated (opcode : Opcode) (message : String)
  /-- Reading was cancelled. -/
  | cancelled
deriving DecidableEq, Repr

namespace DiagnosticKind

/-- The stable name of the class of causes. -/
def code : DiagnosticKind → String
  | lex _ => "LexError"
  | unknownOpcode _ => "UnknownOpcodeError"
  | ambiguousForm _ _ _ => "AmbiguousFormError"
  | malformed _ _ _ => "MalformedOperationError"
  | duplicate _ _ => "DuplicateDefinitionError"
  | unresolved _ _ => "UnresolvedReferenceError"
  | unterminatedRegion _ => "UnterminatedRegionError"
  | sublanguage _ => "ExternalSubLanguageError"
  | deprecated _ _ => "DeprecatedForm"
  | cancelled => "Cancelled"

/-- The cause in words. -/
def message : DiagnosticKind → String
  | lex error => error.message
  | unknownOpcode keyword => "unknown opcode `" ++ keyword ++ "`"
  | ambiguousForm opcode expected found =>
    "cannot select a form of `" ++ opcode.keyword ++ "`: expected " ++ expected ++ ", found " ++
      found
  | malformed construct expected found =>
    "malformed " ++ construct ++ ": expected " ++ expected ++ ", found " ++ found
  | duplicate name _ => "duplicate definition of `" ++ name ++ "`"
  | unresolved name reason => "unresolved reference `" ++ name ++ "`: " ++ reason.message
  | unterminatedRegion message => message
  | sublanguage error => error.describe
  | deprecated opcode message => "deprecated form of `" ++ opcode.keyword ++ "`: " ++ message
  | cancelled => "parse cancelled"

end DiagnosticKind

/-- A remark on a piece of a source unit. -/
structure Diagnostic where
  /-- How serious it is. -/
  severity : Severity
  /-- What it is about. -/
  kind : DiagnosticKind
  /-- The offending text. -/
  span : Span
  /-- The text that a fix would touch. -/
  fix : Option Span := none
deriving DecidableEq, Repr

namespace Diagnostic

/-- An error without a place for a fix. -/
def error (kind : DiagnosticKind) (span : Span) : Diagnostic :=
  { severity := .error, kind, span }

/-- An error with a place for a fix. -/
def errorWithFix (kind : DiagnosticKind) (span fix : Span) : Diagnostic :=
  { severity := .error, kind, span, fix := some fix }

/-- A warning. -/
def warning (kind : DiagnosticKind) (span : Span) : Diagnostic :=
  { severity := .warning, kind, span }

/-- The error for a piece of text that is no token. -/
def ofLexError (lexError : LexError) : Diagnostic :=
  error (.lex lexError.kind) lexError.span

/-- The error for a reference that points nowhere. -/
def ofUnresolved (unresolved : Unresolved) : Diagnostic :=
  error (.unresolved unresolved.reference.spelling unresolved.reason) unresolved.reference.span

/-- The error for a definition that clashes with an earlier one. -/
def ofDuplicate (definition earlier : Definition) : Diagnostic :=
  errorWithFix (.duplicate definition.spelling earlier.span) definition.span definition.span

/-- The stable name of its class. -/
def code (diagnostic : Diagnostic) : String :=
  diagnostic.kind.code

/-- The diagnostic in words. -/
def message (diagnostic : Diagnostic) : String :=
  diagnostic.kind.message

/-- Whether it is an error. -/
def isError (diagnostic : Diagnostic) : Bool :=
  diagnostic.severity == .error

/-- The diagnostic on one line, with its class and place. -/
def describe (diagnostic : Diagnostic) : String :=
  diagnostic.severity.name ++ " [" ++ diagnostic.code ++ "] at " ++
    toString diagnostic.span.start ++ ".." ++ toString diagnostic.span.stop ++ ": " ++
    diagnostic.message

end Diagnostic

/-- The diagnostics found so far, in the order in which they were found. -/
structure Diagnostics where
  /-- The diagnostics. -/
  items : Array Diagnostic := #[]

namespace Diagnostics

/-- Adds a diagnostic. -/
def push (diagnostics : Diagnostics) (diagnostic : Diagnostic) : Diagnostics :=
  ⟨diagnostics.items.push diagnostic⟩

/-- Adds several diagnostics in order. -/
def append (diagnostics : Diagnostics) (more : List Diagnostic) : Diagnostics :=
  ⟨diagnostics.items ++ more⟩

/-- The number of diagnostics. -/
def size (diagnostics : Diagnostics) : Nat :=
  diagnostics.items.size

/-- Whether there are none. -/
def isEmpty (diagnostics : Diagnostics) : Bool :=
  diagnostics.items.isEmpty

/-- Whether one of them is an error. -/
def hasErrors (diagnostics : Diagnostics) : Bool :=
  diagnostics.items.any Diagnostic.isError

/-- The diagnostics in the order of the text. -/
def sorted (diagnostics : Diagnostics) : List Diagnostic :=
  diagnostics.items.toList.mergeSort fun a b => a.span.notAfter b.span

end Diagnostics

end CirText
