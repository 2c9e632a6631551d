import CirText.Parser.Module

/-!
# How parsers are put together

The parser of source units is put together from parsers that do one thing, from loops, and from the
readers of types and attributes. `Assembles` says what it takes to do so with parts of another kind.
Each definition here is put together as the parser of the same name, and with the parsers themselves
as parts it is that parser: `Assembly.sourceUnit_eq` says so for source units.
-/

namespace CirText

/-- What it takes to put parsers together from parts of another kind. -/
class Assembles (m : Type → Type) [Monad m] where
  /-- A parser that neither repeats a step nor reads types or attributes. -/
  part {α : Type} (parser : Parser α) : m α
  /-- Runs a parser and goes on in any case. -/
  attempt {α : Type} (parser : m α) : m (Option α)
  /-- Runs a parser with another construct to be named in messages. -/
  naming {α : Type} (construct : String) (parser : m α) : m α
  /-- Runs a parser in a new scope. -/
  inScope {α : Type} (parser : m α) : m α
  /-- Repeats a step until it is done. -/
  iterate {σ β : Type} (step : σ → m (Parser.Step σ β)) (accumulated : σ) : m β
  /-- Reads a type. -/
  type : m TypeText
  /-- Reads an attribute of a form. -/
  attributeOf (form : AttributeForm) : m AttributeText

instance : Assembles Parser where
  part parser := parser
  attempt := Parser.attempt
  naming := Parser.naming
  inScope := Parser.inScope
  iterate := Parser.iterate
  type := Parser.type
  attributeOf := Parser.attributeOf

namespace Assembly

open Assembles

variable {m : Type → Type} [Monad m] [Assembles m] {α R : Type}

/-! ## Lists -/

/-- Collects items: each step gives another item or none, and says whether to go on. -/
def collect (step : m (Option α × Bool)) : m (List α) :=
  List.reverse <$> iterate (fun (items : List α) => do
    let (item, goesOn) ← step
    let items := item.toList ++ items
    pure (if goesOn then .again items else .done items)) []

/-- At least one item, separated by commas. -/
def separated (item : m α) : m (α × List α) := do
  let head ← item
  let tail ← collect do
    if ← part (Parser.eat .comma) then
      pure (some (← item), true)
    else
      pure (none, false)
  pure (head, tail)

/-- Items separated by commas before a closing parenthesis. -/
def listed (item : m α) : m (List α) := do
  if (← part Parser.cursor).atPunct .rightParen then
    pure []
  else
    let (head, tail) ← separated item
    pure (head :: tail)

/-- Items separated by commas before a closing parenthesis, with an ellipsis as the last perhaps. -/
def listedWithEllipsis (item : m α) : m (List α × Bool) := do
  if (← part Parser.cursor).atPunct .rightParen then
    pure ([], false)
  else
    iterate (fun (items : List α) => do
      if ← part (Parser.eat .ellipsis) then
        pure (.done (items.reverse, true))
      else
        let items := (← item) :: items
        if ← part (Parser.eat .comma) then
          pure (.again items)
        else
          pure (.done (items.reverse, false))) []

/-- Items between square brackets. -/
def bracketed (separator : Separator) (item : m α) : m (List α) := do
  let _ ← part (Parser.punct .leftBracket)
  collect do
    if ← part (Parser.eat .rightBracket) then
      pure (none, false)
    else if (← part Parser.cursor).atEnd then
      part (Parser.expected "`]`")
    else
      let found ← item
      if separator = .comma then
        let _ ← part (Parser.eat .comma)
      pure (some found, true)

/-- Items as long as a condition is satisfied, with commas that may be left out. -/
def repeated (next : Guard) (item : m α) : m (List α) :=
  collect do
    if next.holds (← part Parser.cursor) then
      let found ← item
      let _ ← part (Parser.eat .comma)
      pure (some found, true)
    else
      pure (none, false)

/-! ## Attributes and modifiers -/

/-- An attribute alias or an attribute of a dialect. -/
def namedAttribute : m AttributeText := do
  let here ← part Parser.cursor
  if here.atAttributeAlias then
    attributeOf .aliasName
  else if here.atKind .attributeName then
    attributeOf .dialect
  else
    part (Parser.expected "an attribute")

/-- An attribute alias, a dictionary or nothing. -/
def trailingAttribute : m (Option AttributeText) := do
  let here ← part Parser.cursor
  if here.atAttributeAlias then
    some <$> attributeOf .aliasName
  else if here.atPunct .leftBrace then
    some <$> attributeOf .dictionary
  else
    pure none

/-- The argument of a modifier without its brackets. -/
def argumentOf : ArgumentKind → m Argument
  | .attribute => .attribute <$> namedAttribute
  | other => part (Parser.argumentOf other)

/-- The argument of a modifier. -/
def modifierArgument : Option ArgumentSyntax → m (Option Argument)
  | none => pure none
  | some form => do
    if form.optional && !(← part Parser.cursor).atPunct form.opening then
      pure none
    else
      let _ ← part (Parser.punct form.opening)
      let argument ← argumentOf form.kind
      let _ ← part (Parser.punct form.closing)
      pure (some argument)

/-- A run of modifiers from a table. -/
def modifierRun (rules : List ModifierRule) : m (List Modifier) :=
  iterate (fun (modifiers : List Modifier) => do
    let start ← part Parser.cursor
    match rules.find? fun rule => start.atWord rule.keyword with
    | none => pure (.done modifiers)
    | some rule =>
      part Parser.skip
      let argument ← modifierArgument rule.argument
      match ModifierTable.filling? modifiers rule.slot with
      | some earlier =>
        part (Parser.reportRepeated rule earlier.rule (start.spanBetween (← part Parser.cursor)))
        pure (.again modifiers)
      | none => pure (.again (modifiers ++ [{ rule, argument : Modifier }]))) []

/-! ## Grammars -/

/-- The parser of what a grammar describes. -/
def parse (start : Cursor) (region : RegionKind → Bool → m R) : {α : Type} → Grammar R α → m α
  | _, .blank => pure ()
  | _, .punct mark => do
    let _ ← part (Parser.punct mark)
  | _, .word text => do
    let _ ← part (Parser.word text)
  | _, .lexeme kind what => do
    let found ← part (Parser.token kind what)
    pure ⟨found.text, found.span⟩
  | _, .oneOf words what => do
    let found ← part (Parser.satisfying (fun token => words.any token.isWord) what)
    pure ⟨found.text, found.span⟩
  | _, .name kind => part (Parser.refer kind)
  | _, .definition kind => do
    let found ← part (Parser.token (Parser.nameToken kind) (Grammar.missingDefinition kind))
    part (Parser.define kind found)
  | _, .type => type
  | _, .attributeOf form => attributeOf form
  | _, .namedAttribute => namedAttribute
  | _, .trailingAttribute => trailingAttribute
  | _, .seq first second => do
    let a ← parse start region first
    let b ← parse start region second
    pure (a, b)
  | _, .view as inner => as.build <$> parse start region inner
  | _, .optional present inner => do
    if present.holds (← part Parser.cursor) then
      some <$> parse start region inner
    else
      pure none
  | _, .choice isFirst first second => do
    if isFirst.holds (← part Parser.cursor) then
      .inl <$> parse start region first
    else
      .inr <$> parse start region second
  | _, .separated item => separated (parse start region item)
  | _, .listed item => listed (parse start region item)
  | _, .listedWithEllipsis item => listedWithEllipsis (parse start region item)
  | _, .bracketed separator item => bracketed separator (parse start region item)
  | _, .repeated next item => repeated next (parse start region item)
  | _, .modifierRun table => table.collect <$> modifierRun table.rules
  | _, .spanned inner => do
    let before ← part Parser.cursor
    let a ← parse start region inner
    pure (a, before.spanBetween (← part Parser.cursor))
  | _, .binder what inner => do
    let found ← part (Parser.token .value what)
    let a ← parse start region inner
    pure (← part (Parser.define .value found), a)
  | _, .inScope inner => inScope (parse start region inner)
  | _, .region kind implicitTerminator => region kind implicitTerminator
  | _, .recommended opcode warning inner => do
    let found ← parse start region inner
    if found.isNone then
      part (Parser.warnDeprecated opcode warning (start.spanBetween (← part Parser.cursor)))
    pure found

/-! ## Operations -/

/-- The names before an equals sign, if there are any. -/
def resultNames : m (List Token) := do
  if (← part Parser.cursor).atKind .value then
    let (head, tail) ← separated (part (Parser.token .value "a result name"))
    let _ ← part (Parser.punct .equal)
    pure (head :: tail)
  else
    pure []

section Operations

variable (region : RegionKind → Bool → m (Region Operation))

/-- An operation from its keyword on, with its number and its form. -/
def fromKeyword : m (Nat × Form × Body (Region Operation)) := do
  let start ← part Parser.cursor
  let keyword := start.peek
  if keyword.kind == .keyword then
    match Opcode.ofKeyword? keyword.text with
    | none =>
      part (Parser.report (.error (.unknownOpcode keyword.text) keyword.span))
      part Parser.fail
    | some opcode =>
      part Parser.skip
      let id ← part Parser.takeId
      naming opcode.keyword do
        let form ← part (Parser.chooseForm opcode)
        let body ← parse start region (Grammar.body opcode form)
        pure (id, body.form form, body)
  else
    part (Parser.expected "an operation")

/-- An operation. Its results are defined even if the rest of it is malformed. -/
def operation : m Operation := do
  let start ← part Parser.cursor
  let names ← resultNames
  let read ← attempt (fromKeyword region)
  let results ← part (names.mapM (Parser.define .value))
  match read with
  | none => part Parser.fail
  | some (id, form, body) =>
    pure <| .of
      { id, results, payload := body.payload, form, extra := body.extra,
        span := start.spanBetween (← part Parser.cursor) }

/-! ## Regions -/

/-- The header of a block. -/
def blockHeader : m Parser.BlockDraft := do
  let start ← part Parser.cursor
  let (label, args) ← parse start region Grammar.blockHeader
  pure
    { label := some label, args, start := start.peek.span.start
      headerStop := (← part Parser.cursor).lastStop }

/-- One step through the blocks of a region. -/
def blockStep (kind : RegionKind) (opening : Span) (progress : Parser.Progress) :
    m (Parser.Step Parser.Progress (List (Block Operation) × Span)) := do
  let start ← part Parser.cursor
  if ← part (Parser.look (·.halted)) then
    part Parser.fail
  else if start.atPunct .rightBrace then
    part Parser.skip
    pure (.done (progress.blocks, start.peek.span))
  else if start.atEnd then
    part (Parser.reportUnclosed kind opening)
    part Parser.fail
  else if Cursor.startsBlock start.rest then
    match ← attempt (blockHeader region) with
    | some block => pure (.again (progress.nextLabeled block))
    | none =>
      part (Parser.resynchronize start)
      pure (.again progress)
  else
    match ← attempt (operation region) with
    | some op => .again <$> part (Parser.place kind progress op)
    | none =>
      part (Parser.resynchronize start)
      pure (.again progress)

/-- The blocks of a region after its opening brace, and its closing brace. -/
def blocks (kind : RegionKind) (implicitTerminator : Bool) (opening : Span) :
    m (Region Operation) := do
  let scope ← part (Parser.look (·.tracker.scope))
  let start := (← part Parser.peek).span.start
  let (blocks, closing) ←
    iterate (blockStep region kind opening) { current := .startingAt start }
  part (Parser.reportUnterminated kind implicitTerminator blocks closing)
  pure { kind, blocks, scope, span := opening.cover closing }

end Operations

/-- A region of the current scope, in which regions may nest to the given number of levels. -/
def regionWithin : Nat → RegionKind → Bool → m (Region Operation)
  | 0, _, _ => do
    if ← part Parser.checkHalted then
      part Parser.fail
    else
      part Parser.tooDeep
  | levels + 1, kind, implicitTerminator => do
    if ← part Parser.checkHalted then
      part Parser.fail
    else
      let opening ← part (Parser.punct .leftBrace)
      blocks (regionWithin levels) kind implicitTerminator opening.span

/-! ## Source units -/

section Units

variable (region : RegionKind → Bool → m (Region Operation))

/-- A function or a global. -/
def declaration : m Operation := do
  if Parser.startsDeclaration (← part Parser.peek) then
    operation region
  else
    part (Parser.expected "`cir.func` or `cir.global`")

/-- The functions and globals of a source unit. -/
def items (braced : Bool) : m (List Operation) :=
  collect do
    let halted ← part Parser.checkHalted
    let start ← part Parser.cursor
    if halted || start.atEnd || braced && start.atPunct .rightBrace then
      pure (none, false)
    else
      match ← attempt (declaration region) with
      | some op => pure (some op, true)
      | none =>
        part (Parser.resynchronize start)
        pure (none, !(← part (Parser.look (·.halted))))

/-- The name and the attributes after the word that starts a module. -/
def unitHeader (start : Cursor) : m ModuleHeader := do
  let here ← part Parser.cursor
  let name ←
    if here.atKind .symbol then do
      part Parser.skip
      pure (some ⟨here.peek.text, here.peek.span⟩)
    else
      pure none
  let attributes ←
    if (← part Parser.cursor).atWord "attributes" then do
      part Parser.skip
      attempt (attributeOf .dictionary)
    else
      pure none
  pure { name, attributes, span := start.spanBetween (← part Parser.cursor) }

/-- A source unit. -/
def sourceUnit : m (Option ModuleHeader × List Operation) := do
  let start ← part Parser.cursor
  if start.atWord "module" then
    part Parser.skip
    let header ← unitHeader start
    let opening ← attempt (part (Parser.punct .leftBrace))
    let ops ← items region opening.isSome
    match opening with
    | some brace =>
      if !(← part (Parser.look (·.halted))) then
        part (Parser.moduleEnd brace)
    | none => pure ()
    pure (some header, ops)
  else
    pure (none, ← items region false)

end Units

/-! ## With the parsers themselves as parts -/

theorem argumentOf_eq (kind : ArgumentKind) : argumentOf kind = Parser.argumentOf kind := by
  cases kind <;> rfl

theorem modifierArgument_eq (form : Option ArgumentSyntax) :
    modifierArgument form = Parser.modifierArgument form := by
  cases form with
  | none => rfl
  | some form =>
    simp only [modifierArgument, argumentOf_eq]
    rfl

theorem modifierRun_eq (rules : List ModifierRule) :
    modifierRun rules = Parser.modifierRun rules := by
  unfold modifierRun
  simp only [modifierArgument_eq]
  rfl

theorem parse_eq (start : Cursor) (region : RegionKind → Bool → Parser R) (grammar : Grammar R α) :
    parse start region grammar = grammar.parse start region := by
  induction grammar with
  | modifierRun table =>
    rw [parse, modifierRun_eq]
    rfl
  | seq first second ihFirst ihSecond | choice isFirst first second ihFirst ihSecond =>
    simp only [parse, ihFirst, ihSecond]
    rfl
  | view _ inner ih | optional _ inner ih | separated inner ih | listed inner ih
  | listedWithEllipsis inner ih | bracketed _ inner ih | repeated _ inner ih | spanned inner ih
  | binder _ inner ih | inScope inner ih | recommended _ _ inner ih =>
    simp only [parse, ih]
    rfl
  | _ => rfl

variable {region : RegionKind → Bool → Parser (Region Operation)}

theorem fromKeyword_eq : fromKeyword region = Parser.fromKeyword region := by
  unfold fromKeyword
  simp only [parse_eq]
  rfl

theorem operation_eq : operation region = Parser.operation region := by
  unfold operation
  rw [fromKeyword_eq]
  rfl

theorem blockHeader_eq : blockHeader region = Parser.blockHeader region := by
  unfold blockHeader
  simp only [parse_eq]
  rfl

theorem blockStep_eq (kind : RegionKind) (opening : Span) :
    blockStep region kind opening = Parser.blockStep region kind opening := by
  funext progress
  unfold blockStep
  rw [blockHeader_eq, operation_eq]
  rfl

theorem regionWithin_eq (levels : Nat) : regionWithin levels = Parser.regionWithin levels := by
  induction levels with
  | zero => rfl
  | succ levels ih =>
    funext kind implicitTerminator
    simp only [regionWithin, blocks, ih, blockStep_eq]
    rfl

/-- Put together from the parsers themselves, it is the parser of source units. -/
theorem sourceUnit_eq : sourceUnit region = Parser.sourceUnit region := by
  have declared : declaration region = Parser.declaration region := by
    unfold declaration
    rw [operation_eq]
    rfl
  unfold sourceUnit items
  rw [declared]
  rfl

end Assembly

end CirText
