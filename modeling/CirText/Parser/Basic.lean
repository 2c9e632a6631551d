import CirText.Diagnostic
import CirText.Operation.Parts
import CirText.Options
import CirText.Sublanguage.Adapters

/-!
# Parsers

A parser goes through the tokens of a source unit, follows the scopes of names and collects
diagnostics. A parser that fails has already reported why, and all that it did before stays done: it
has moved on, and the names it has met are known. Nothing is ever read a second time.

Loops are built from `iterate`, which repeats a step only as long as each repetition consumes a
token, so that parsing ends on every input.
-/

namespace CirText

namespace Parser

/-- What a parser is given. -/
structure Input where
  /-- The source text. -/
  source : List Char
  /-- How it is read. -/
  options : Options
  /-- What reads the types and attributes in it. -/
  adapters : Adapters

/-- A type or an attribute that was to be read. -/
structure Reading where
  /-- Which of the two. -/
  language : Sublanguage
  /-- The number of tokens before it. -/
  position : Nat
deriving DecidableEq, Repr

/-- What changes while a source unit is parsed. -/
structure State where
  /-- The position in the tokens. -/
  cursor : Cursor
  /-- The scopes. -/
  tracker : Tracker := .start
  /-- The diagnostics so far. -/
  diagnostics : Diagnostics := {}
  /-- The number for the next operation. -/
  nextId : Nat := 0
  /-- Whether parsing has come to an early end. -/
  halted : Bool := false
  /-- What messages name as malformed. -/
  construct : String := "module"
  /-- The types and attributes that were to be read, the last one first. -/
  readings : List Reading := []

end Parser

/-- A parser of values of the type `α`. It either gives a value or fails. -/
def Parser (α : Type) : Type :=
  Parser.Input → Parser.State → Option α × Parser.State

namespace Parser

variable {α β σ : Type}

instance : Monad Parser where
  pure a := fun _ state => (some a, state)
  bind parser next := fun input state =>
    match parser input state with
    | (some a, state) => next a input state
    | (none, state) => (none, state)

/-! ## State -/

/-- Fails, with the reason already reported. -/
def fail : Parser α :=
  fun _ state => (none, state)

/-- Runs a parser and goes on in any case. -/
def attempt (parser : Parser α) : Parser (Option α) :=
  fun input state =>
    let (result, state) := parser input state
    (some result, state)

/-- Reads something off the state. -/
def look (read : State → α) : Parser α :=
  fun _ state => (some (read state), state)

/-- Changes the state. -/
def change (update : State → State) : Parser Unit :=
  fun _ state => (some (), update state)

/-- The position in the tokens. -/
def cursor : Parser Cursor :=
  look (·.cursor)

/-- The next token. -/
def peek : Parser Token :=
  look (·.cursor.peek)

/-- How the source unit is read. -/
def options : Parser Options :=
  fun input state => (some input.options, state)

/-- Moves past the next token. -/
def skip : Parser Unit :=
  change fun state => { state with cursor := state.cursor.next }

/-- Comes to an early end, after which nothing is parsed any more. -/
def halt : Parser Unit :=
  change fun state => { state with halted := true }

/-! ## Diagnostics -/

/-- Reports a diagnostic. -/
def report (diagnostic : Diagnostic) : Parser Unit :=
  change fun state => { state with diagnostics := state.diagnostics.push diagnostic }

/-- Reports that something else was expected at the next token. -/
def reportExpected (what : String) : Parser Unit :=
  change fun state =>
    let token := state.cursor.peek
    { state with
      diagnostics := state.diagnostics.push <|
        .errorWithFix (.malformed state.construct what token.describe) token.span
          (.emptyAt state.cursor.lastStop) }

/-- Fails because something else was expected at the next token. -/
def expected (what : String) : Parser α := do
  reportExpected what
  fail

/-- Runs a parser with another construct to be named in messages. -/
def naming (construct : String) (parser : Parser α) : Parser α :=
  fun input state =>
    let (result, final) := parser input { state with construct }
    (result, { final with construct := state.construct })

/-- Warns of a deprecated form, unless that is not wanted. -/
def warnDeprecated (opcode : Opcode) (message : String) (span : Span) : Parser Unit := do
  if (← options).deprecations then
    report (.warning (.deprecated opcode message) span)

/-! ## Tokens -/

/-- Consumes a token that satisfies a condition. -/
def satisfying (condition : Token → Bool) (what : String) : Parser Token := do
  let token ← peek
  if condition token then
    skip
    pure token
  else
    expected what

/-- Consumes a punctuation mark. -/
def punct (mark : Punct) : Parser Token :=
  satisfying (·.isPunct mark) ("`" ++ mark.text ++ "`")

/-- Consumes a bare word. -/
def word (text : String) : Parser Token :=
  satisfying (·.isWord text) ("`" ++ text ++ "`")

/-- Consumes a token of a class. -/
def token (kind : TokenKind) (what : String) : Parser Token :=
  satisfying (·.kind == kind) what

/-- Consumes a punctuation mark if it comes next, and tells whether it did. -/
def eat (mark : Punct) : Parser Bool := do
  if (← cursor).atPunct mark then
    skip
    pure true
  else
    pure false

/-! ## Names -/

/-- What a parser is to call a name of a kind that is missing. -/
def missingName : NameKind → String
  | .value => "a value"
  | .label => "a block label"
  | .symbol => "a symbol"

/-- The class of tokens that names of a kind are. -/
def nameToken : NameKind → TokenKind
  | .value => .value
  | .label => .label
  | .symbol => .symbol

/-- Notes a use of the name of a token. -/
def noteUse (kind : NameKind) (found : Token) : Parser Reference :=
  fun _ state =>
    let (reference, tracker) := state.tracker.refer kind found.name found.span
    (some reference, { state with tracker })

/-- Uses the name that comes next. -/
def refer (kind : NameKind) : Parser Reference := do
  let found ← token (nameToken kind) (missingName kind)
  noteUse kind found

/-- Defines the name of a token. -/
def define (kind : NameKind) (found : Token) : Parser Definition :=
  fun _ state =>
    let (definition, earlier, tracker) := state.tracker.define kind found.name found.span
    let diagnostics := match earlier with
      | none => state.diagnostics
      | some earlier => state.diagnostics.push (.ofDuplicate definition earlier)
    (some definition, { state with tracker, diagnostics })

/-- Runs a parser in a new scope, which is closed again even if the parser fails. -/
def inScope (parser : Parser α) : Parser α :=
  fun input state =>
    let (result, state) := parser input { state with tracker := state.tracker.push }
    let (tracker, unresolved) := state.tracker.pop
    (result,
      { state with
        tracker, diagnostics := state.diagnostics.append (unresolved.map .ofUnresolved) })

/-! ## Types and attributes -/

/-- Takes over what an adapter has read, or reports its error. -/
def embed (language : Sublanguage) (adapter : Adapters → Adapter α) : Parser α :=
  fun input state =>
    let readings := ⟨language, state.cursor.position⟩ :: state.readings
    match (adapter input.adapters).read input.source state.cursor with
    | .ok (value, cursor) => (some value, { state with cursor, readings })
    | .error error =>
      (none,
        { state with
          readings
          diagnostics := state.diagnostics.push (.error (.sublanguage error) error.span) })

/-- Reads a type. -/
def type : Parser TypeText :=
  embed .type (·.types)

/-- Reads an attribute of a form. -/
def attributeOf (form : AttributeForm) : Parser AttributeText :=
  embed .attribute (·.attributes form)

/-! ## Cancellation -/

/-- The number of readings in a language. -/
def countReadings (language : Sublanguage) (readings : List Reading) : Nat :=
  readings.countP fun reading => reading.language == language

/-- Tells whether parsing has come to an early end. If it has been cancelled, it does so here. -/
def checkHalted : Parser Bool :=
  fun input state =>
    if state.halted then (some true, state)
    else if input.options.cancellation.isSet (countReadings .type state.readings)
        (countReadings .attribute state.readings) then
      (some true,
        { state with
          halted := true
          diagnostics := state.diagnostics.push <|
            .error .cancelled (.emptyAt state.cursor.peek.span.start) })
    else (some false, state)

/-! ## Loops -/

/-- What a step of a loop ends with. -/
inductive Step (σ β : Type) where
  /-- The loop goes on. -/
  | again (accumulated : σ)
  /-- The loop ends. -/
  | done (result : β)

/-- Repeats a step until it is done. A step that wants to go on must have consumed a token. -/
def iterate (step : σ → Parser (Step σ β)) (accumulated : σ) : Parser β :=
  fun input state => loop input accumulated state
where
  /-- The loop from a state on. -/
  loop (input : Input) (accumulated : σ) (state : State) : Option β × State :=
    match step accumulated input state with
    | (none, final) => (none, final)
    | (some (.done result), final) => (some result, final)
    | (some (.again accumulated), next) =>
      if next.cursor.rest.length < state.cursor.rest.length then loop input accumulated next
      else (none, next)
  termination_by state.cursor.rest.length

/-- Collects items: each step gives another item or, at the end, none, and says whether to go on. -/
def collect (step : Parser (Option α × Bool)) : Parser (List α) :=
  List.reverse <$> iterate (fun (items : List α) => do
    let (item, goesOn) ← step
    let items := item.toList ++ items
    pure (if goesOn then .again items else .done items)) []

end Parser

end CirText
