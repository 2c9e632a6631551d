import CirText.Grammar.Operation
import CirText.Grammar.Parse
import CirText.Grammar.Selection
import CirText.Parser.Recovery

/-!
# Parsing operations and regions

An operation names its results, then comes its keyword, and then what the grammar of the keyword
describes. A region is a run of blocks; each block is a run of operations that ends with a
terminator. A malformed operation or block header is skipped, and the region goes on after it.
Regions nest only as deep as the options allow.
-/

namespace CirText.Parser

/-! ## Operations -/

/-- The names before an equals sign, if there are any. -/
def resultNames : Parser (List Token) := do
  if (← cursor).atKind .value then
    let (head, tail) ← separated (token .value "a result name")
    let _ ← punct .equal
    pure (head :: tail)
  else
    pure []

/-- Takes the next number for an operation. -/
def takeId : Parser Nat :=
  fun _ state => (some state.nextId, { state with nextId := state.nextId + 1 })

/-- The form of an operation whose keyword has just been read. -/
def chooseForm (opcode : Opcode) : Parser Form := do
  match Form.choose opcode (← cursor) with
  | .ok form => pure form
  | .error what =>
    let found ← peek
    report (.error (.ambiguousForm opcode what found.describe) found.span)
    fail

/-- An operation from its keyword on, with its number and its form. -/
def fromKeyword (region : RegionKind → Bool → Parser (Region Operation)) :
    Parser (Nat × Form × Body (Region Operation)) := do
  let start ← cursor
  let keyword := start.peek
  if keyword.kind == .keyword then
    match Opcode.ofKeyword? keyword.text with
    | none =>
      report (.error (.unknownOpcode keyword.text) keyword.span)
      fail
    | some opcode =>
      skip
      let id ← takeId
      naming opcode.keyword do
        let form ← chooseForm opcode
        let body ← (Grammar.body opcode form).parse start region
        pure (id, body.form form, body)
  else
    expected "an operation"

/-- An operation. Its results are defined even if the rest of it is malformed. -/
def operation (region : RegionKind → Bool → Parser (Region Operation)) : Parser Operation := do
  let start ← cursor
  let names ← resultNames
  let read ← attempt (fromKeyword region)
  let results ← names.mapM (define .value)
  match read with
  | none => fail
  | some (id, form, body) =>
    pure <| .of
      { id, results, payload := body.payload, form, extra := body.extra,
        span := start.spanBetween (← cursor) }

/-! ## Blocks -/

/-- A block that is being read. -/
structure BlockDraft where
  /-- The label. -/
  label : Option Definition := none
  /-- The arguments. -/
  args : List BlockArgument := []
  /-- The operations so far, the last one first. -/
  ops : List Operation := []
  /-- The offset at which the block starts. -/
  start : Nat
  /-- The offset at which its header ends. -/
  headerStop : Nat

namespace BlockDraft

/-- A block without a label. -/
def startingAt (start : Nat) : BlockDraft where
  start
  headerStop := start

/-- Whether nothing has been read of the block. -/
def isEmpty (block : BlockDraft) : Bool :=
  block.label.isNone && block.ops.isEmpty

/-- Whether the last operation so far is a terminator. -/
def isTerminated (block : BlockDraft) : Bool :=
  block.ops.head?.any Operation.isTerminator

/-- Adds an operation. -/
def push (block : BlockDraft) (op : Operation) : BlockDraft :=
  { block with ops := op :: block.ops }

/-- The block when nothing more is added. -/
def close (block : BlockDraft) : Block Operation where
  label := block.label
  args := block.args
  ops := block.ops.reverse
  span := ⟨block.start, (block.ops.head?.map (·.span.stop)).getD block.headerStop⟩

end BlockDraft

/-- The header of a block. -/
def blockHeader (region : RegionKind → Bool → Parser (Region Operation)) : Parser BlockDraft := do
  let start ← cursor
  let (label, args) ← Grammar.blockHeader.parse start region
  pure
    { label := some label, args, start := start.peek.span.start
      headerStop := (← cursor).lastStop }

/-- Reports an operation that follows a terminator without a label in between. -/
def reportAfterTerminator (kind : RegionKind) (op : Operation) : Parser Unit :=
  report <|
    .error
      (.malformed kind.describe "a block label after the terminator"
        ("`" ++ op.opcode.keyword ++ "`"))
      op.span

/-- Reports a terminator that cannot end a block of the region. -/
def reportTerminator (kind : RegionKind) (op : Operation) : Parser Unit :=
  report <|
    .error
      (.unterminatedRegion <|
        "`" ++ op.opcode.keyword ++ "` cannot terminate a " ++ kind.describe ++
          "; expected one of " ++ kind.terminatorNames)
      op.span

/-- The error for a block that does not end with a terminator. A block without any text is reported
at the closing brace. -/
def unterminatedBlock (kind : RegionKind) (closing : Span) (block : Block Operation) : Diagnostic :=
  .errorWithFix
    (.unterminatedRegion <|
      "block in " ++ kind.describe ++ " does not end with a terminator; expected one of " ++
        kind.terminatorNames)
    (if block.ops.isEmpty && block.label.isNone then closing else block.span)
    (.emptyAt block.span.stop)

/-- Reports the blocks that do not end with a terminator. A single block may be allowed to. -/
def reportUnterminated (kind : RegionKind) (implicitTerminator : Bool)
    (blocks : List (Block Operation)) (closing : Span) : Parser Unit :=
  if implicitTerminator && blocks.length == 1 then pure ()
  else
    change fun state =>
      { state with
        diagnostics := state.diagnostics.append <|
          (blocks.filter (·.terminator.isNone)).map (unterminatedBlock kind closing) }

/-- The blocks of a region that have been read, and the one that is being read. -/
structure Progress where
  /-- The blocks before the current one, the last one first. -/
  closed : List (Block Operation) := []
  /-- The current block. -/
  current : BlockDraft

namespace Progress

/-- All blocks when nothing more is added. -/
def blocks (progress : Progress) : List (Block Operation) :=
  (progress.current.close :: progress.closed).reverse

/-- Starts another block. -/
def next (progress : Progress) (block : BlockDraft) : Progress :=
  ⟨progress.current.close :: progress.closed, block⟩

/-- Starts a block with a label. A current block of which nothing has been read is dropped. -/
def nextLabeled (progress : Progress) (block : BlockDraft) : Progress :=
  if progress.current.isEmpty then { progress with current := block } else progress.next block

/-- Adds an operation to the current block, or to a new one if the current one is terminated. -/
def push (progress : Progress) (op : Operation) : Progress :=
  let progress :=
    if progress.current.isTerminated then progress.next (.startingAt op.span.start) else progress
  { progress with current := progress.current.push op }

end Progress

/-- Adds an operation to a region and reports if it must not stand there. -/
def place (kind : RegionKind) (progress : Progress) (op : Operation) : Parser Progress := do
  if progress.current.isTerminated then
    reportAfterTerminator kind op
  if op.isTerminator && !kind.accepts op then
    reportTerminator kind op
  pure (progress.push op)

/-- Reports a region that is not closed before the end of input, where parsing ends. -/
def reportUnclosed (kind : RegionKind) (opening : Span) : Parser Unit := do
  report <|
    .errorWithFix (.unterminatedRegion (kind.describe ++ " is missing its closing `\x7d`")) opening
      (.emptyAt (← peek).span.start)
  halt

/-- One step through the blocks of a region: a block header, an operation, or the closing brace,
whose span is the result together with the blocks. -/
def blockStep (region : RegionKind → Bool → Parser (Region Operation)) (kind : RegionKind)
    (opening : Span) (progress : Progress) :
    Parser (Step Progress (List (Block Operation) × Span)) := do
  let start ← cursor
  if ← look (·.halted) then
    fail
  else if start.atPunct .rightBrace then
    skip
    pure (.done (progress.blocks, start.peek.span))
  else if start.atEnd then
    reportUnclosed kind opening
    fail
  else if Cursor.startsBlock start.rest then
    match ← attempt (blockHeader region) with
    | some block => pure (.again (progress.nextLabeled block))
    | none =>
      resynchronize start
      pure (.again progress)
  else
    match ← attempt (operation region) with
    | some op => .again <$> place kind progress op
    | none =>
      resynchronize start
      pure (.again progress)

/-- The blocks of a region after its opening brace, and its closing brace. -/
def blocks (region : RegionKind → Bool → Parser (Region Operation)) (kind : RegionKind)
    (implicitTerminator : Bool) (opening : Span) : Parser (Region Operation) := do
  let scope ← look (·.tracker.scope)
  let start := (← peek).span.start
  let (blocks, closing) ←
    iterate (blockStep region kind opening) { current := .startingAt start }
  reportUnterminated kind implicitTerminator blocks closing
  pure { kind, blocks, scope, span := opening.cover closing }

/-! ## Regions -/

/-- Ends parsing because regions nest too deep. -/
def tooDeep : Parser (Region Operation) := do
  let limit := (← options).maxDepth
  reportExpected ("at most " ++ toString limit ++ " nested regions")
  halt
  fail

/-- A region of the current scope, in which regions may nest to the given number of levels, itself
included. -/
def regionWithin : Nat → RegionKind → Bool → Parser (Region Operation)
  | 0, _, _ => do
    if ← checkHalted then
      fail
    else
      tooDeep
  | levels + 1, kind, implicitTerminator => do
    if ← checkHalted then
      fail
    else
      let opening ← punct .leftBrace
      blocks (regionWithin levels) kind implicitTerminator opening.span

end CirText.Parser
