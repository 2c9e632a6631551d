import CirText.Module
import CirText.Parser.Operation

/-!
# Parsing source units

A source unit is a run of functions and globals, either by itself or in the braces of a module.
`parse` always gives a module, made of what could be read, and the diagnostics in the order of the
text.
-/

namespace CirText

namespace Parser

/-! ## Items -/

/-- Whether a token starts a function or a global. An unknown operation might be one. -/
def startsDeclaration (token : Token) : Bool :=
  token.kind == .keyword &&
    match Opcode.ofKeyword? token.text with
    | none => true
    | some opcode => opcode.isDeclaration

/-- A function or a global. -/
def declaration (region : RegionKind → Bool → Parser (Region Operation)) : Parser Operation := do
  if startsDeclaration (← peek) then
    operation region
  else
    expected "`cir.func` or `cir.global`"

/-- The functions and globals up to the end of input, or up to a closing brace if the module has
braces. -/
def items (region : RegionKind → Bool → Parser (Region Operation)) (braced : Bool) :
    Parser (List Operation) :=
  collect do
    let halted ← checkHalted
    let start ← cursor
    if halted || start.atEnd || braced && start.atPunct .rightBrace then
      pure (none, false)
    else
      match ← attempt (declaration region) with
      | some op => pure (some op, true)
      | none =>
        resynchronize start
        pure (none, !(← look (·.halted)))

/-! ## Modules with braces -/

/-- The name and the attributes after the word that starts a module. Attributes that cannot be read
are left out. -/
def unitHeader (start : Cursor) : Parser ModuleHeader := do
  let here ← cursor
  let name ←
    if here.atKind .symbol then do
      skip
      pure (some ⟨here.peek.text, here.peek.span⟩)
    else
      pure none
  let attributes ←
    if (← cursor).atWord "attributes" then do
      skip
      attempt (attributeOf .dictionary)
    else
      pure none
  pure { name, attributes, span := start.spanBetween (← cursor) }

/-- The closing brace of a module, after which nothing may come. -/
def moduleEnd (opening : Token) : Parser Unit := do
  let here ← cursor
  if here.atPunct .rightBrace then
    skip
    if !(← cursor).atEnd then
      reportExpected "end of input after the module"
  else
    report <|
      .errorWithFix (.unterminatedRegion "module body is missing its closing `\x7d`") opening.span
        (.emptyAt here.size)

/-- A source unit. -/
def sourceUnit (region : RegionKind → Bool → Parser (Region Operation)) :
    Parser (Option ModuleHeader × List Operation) := do
  let start ← cursor
  if start.atWord "module" then
    skip
    let header ← unitHeader start
    let opening ← attempt (punct .leftBrace)
    let ops ← items region opening.isSome
    match opening with
    | some brace =>
      if !(← look (·.halted)) then
        moduleEnd brace
    | none => pure ()
    pure (some header, ops)
  else
    pure (none, ← items region false)

/-- The state in which parsing starts: errors of the lexer come before all others. -/
def initial (lexed : Tokenized) : State where
  cursor := .ofTokenized lexed 0
  diagnostics := Diagnostics.append {} (lexed.errors.map .ofLexError)

/-- Reads a source unit, with the adapters by default if no others are given. -/
def run (source : String) (options : Options) (adapters : Adapters := .structural) :
    Option (Option ModuleHeader × List Operation) × State :=
  sourceUnit (regionWithin options.maxDepth) ⟨source.toList, options, adapters⟩
    (initial (tokenize source))

end Parser

/-- What is left of a source unit after parsing. -/
structure Parsed where
  /-- The module. -/
  unit : Module
  /-- The diagnostics in the order of the text. -/
  diagnostics : List Diagnostic

namespace Parsed

/-- The errors. -/
def errors (parsed : Parsed) : List Diagnostic :=
  parsed.diagnostics.filter (·.isError)

/-- The warnings. -/
def warnings (parsed : Parsed) : List Diagnostic :=
  parsed.diagnostics.filter (!·.isError)

/-- Whether there is an error. -/
def hasErrors (parsed : Parsed) : Bool :=
  parsed.diagnostics.any (·.isError)

end Parsed

/-- Parses a source unit, with the adapters by default if no others are given. -/
def parse (source : String) (options : Options) (adapters : Adapters := .structural) : Parsed :=
  let (result, state) := Parser.run source options adapters
  let (header, items) := result.getD (none, [])
  let (symbols, unresolved) := state.tracker.finish
  { unit := { sourceId := options.sourceId, header, items, symbols }
    diagnostics := (state.diagnostics.append (unresolved.map .ofUnresolved)).sorted }

end CirText
