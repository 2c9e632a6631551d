import CirText.Grammar.Basic
import CirText.Parser.Basic

/-!
# Parsing by a grammar

`Grammar.parse` turns a grammar into the parser of what it describes, given a parser of regions.
Blanks mean nothing here, since tokens come without the space between them.
-/

namespace CirText

namespace Parser

variable {α β : Type}

/-! ## Lists -/

/-- At least one item, separated by commas. -/
def separated (item : Parser α) : Parser (α × List α) := do
  let head ← item
  let tail ← collect do
    if ← eat .comma then
      pure (some (← item), true)
    else
      pure (none, false)
  pure (head, tail)

/-- Items separated by commas before a closing parenthesis. -/
def listed (item : Parser α) : Parser (List α) := do
  if (← cursor).atPunct .rightParen then
    pure []
  else
    let (head, tail) ← separated item
    pure (head :: tail)

/-- Items separated by commas before a closing parenthesis, with an ellipsis as the last perhaps. -/
def listedWithEllipsis (item : Parser α) : Parser (List α × Bool) := do
  if (← cursor).atPunct .rightParen then
    pure ([], false)
  else
    iterate (fun (items : List α) => do
      if ← eat .ellipsis then
        pure (.done (items.reverse, true))
      else
        let items := (← item) :: items
        if ← eat .comma then
          pure (.again items)
        else
          pure (.done (items.reverse, false))) []

/-- Items between square brackets. -/
def bracketed (separator : Separator) (item : Parser α) : Parser (List α) := do
  let _ ← punct .leftBracket
  collect do
    if ← eat .rightBracket then
      pure (none, false)
    else if (← cursor).atEnd then
      expected "`]`"
    else
      let found ← item
      if separator = .comma then
        let _ ← eat .comma
      pure (some found, true)

/-- Items as long as a condition is satisfied, with commas that may be left out. -/
def repeated (next : Guard) (item : Parser α) : Parser (List α) :=
  collect do
    if next.holds (← cursor) then
      let found ← item
      let _ ← eat .comma
      pure (some found, true)
    else
      pure (none, false)

/-! ## Attributes -/

/-- An attribute alias or an attribute of a dialect. -/
def namedAttribute : Parser AttributeText := do
  let here ← cursor
  if here.atAttributeAlias then
    attributeOf .aliasName
  else if here.atKind .attributeName then
    attributeOf .dialect
  else
    expected "an attribute"

/-- An attribute alias, a dictionary or nothing. -/
def trailingAttribute : Parser (Option AttributeText) := do
  let here ← cursor
  if here.atAttributeAlias then
    some <$> attributeOf .aliasName
  else if here.atPunct .leftBrace then
    some <$> attributeOf .dictionary
  else
    pure none

/-! ## Modifiers -/

/-- The argument of a modifier without its brackets. -/
def argumentOf : ArgumentKind → Parser Argument
  | .word => do
    let found ← token .identifier "an identifier"
    pure (.lexeme ⟨found.text, found.span⟩)
  | .integer => do
    let found ← token .integer "an integer"
    pure (.lexeme ⟨found.text, found.span⟩)
  | .symbol => .symbol <$> refer .symbol
  | .attribute => .attribute <$> namedAttribute

/-- The argument of a modifier. -/
def modifierArgument : Option ArgumentSyntax → Parser (Option Argument)
  | none => pure none
  | some form => do
    if form.optional && !(← cursor).atPunct form.opening then
      pure none
    else
      let _ ← punct form.opening
      let argument ← argumentOf form.kind
      let _ ← punct form.closing
      pure (some argument)

/-- Reports a modifier whose slot has been filled by an earlier one. -/
def reportRepeated (rule earlier : ModifierRule) (span : Span) : Parser Unit := do
  let expected :=
    if rule.slot = rule.keyword then "`" ++ rule.keyword ++ "` at most once"
    else "a single " ++ rule.slot ++ " modifier (already `" ++ earlier.keyword ++ "`)"
  let construct ← look (·.construct)
  report <|
    .errorWithFix (.malformed (construct ++ " modifiers") expected ("`" ++ rule.keyword ++ "`"))
      span span

/-- A run of modifiers from a table. Of two that fill the same slot the first counts. -/
def modifierRun (rules : List ModifierRule) : Parser (List Modifier) :=
  iterate (fun (modifiers : List Modifier) => do
    let start ← cursor
    match rules.find? fun rule => start.atWord rule.keyword with
    | none => pure (.done modifiers)
    | some rule =>
      skip
      let argument ← modifierArgument rule.argument
      match ModifierTable.filling? modifiers rule.slot with
      | some earlier =>
        reportRepeated rule earlier.rule (start.spanBetween (← cursor))
        pure (.again modifiers)
      | none => pure (.again (modifiers ++ [{ rule, argument : Modifier }]))) []

end Parser

/-! ## Grammars -/

namespace Grammar

variable {R : Type}

/-- What a grammar is to call a definition of a kind that is missing. -/
def missingDefinition : NameKind → String
  | .value => "a value"
  | .label => "a block label"
  | .symbol => "a symbol name"

/-- The parser of what a grammar describes. A warning about what is left out starts at the given
place. -/
def parse (start : Cursor) (region : RegionKind → Bool → Parser R) :
    {α : Type} → Grammar R α → Parser α
  | _, .blank => pure ()
  | _, .punct mark => do
    let _ ← Parser.punct mark
  | _, .word text => do
    let _ ← Parser.word text
  | _, .lexeme kind what => do
    let found ← Parser.token kind what
    pure ⟨found.text, found.span⟩
  | _, .oneOf words what => do
    let found ← Parser.satisfying (fun token => words.any token.isWord) what
    pure ⟨found.text, found.span⟩
  | _, .name kind => Parser.refer kind
  | _, .definition kind => do
    let found ← Parser.token (Parser.nameToken kind) (missingDefinition kind)
    Parser.define kind found
  | _, .type => Parser.type
  | _, .attributeOf form => Parser.attributeOf form
  | _, .namedAttribute => Parser.namedAttribute
  | _, .trailingAttribute => Parser.trailingAttribute
  | _, .seq first second => do
    let a ← parse start region first
    let b ← parse start region second
    pure (a, b)
  | _, .view as inner => as.build <$> parse start region inner
  | _, .optional present inner => do
    if present.holds (← Parser.cursor) then
      some <$> parse start region inner
    else
      pure none
  | _, .choice isFirst first second => do
    if isFirst.holds (← Parser.cursor) then
      .inl <$> parse start region first
    else
      .inr <$> parse start region second
  | _, .separated item => Parser.separated (parse start region item)
  | _, .listed item => Parser.listed (parse start region item)
  | _, .listedWithEllipsis item => Parser.listedWithEllipsis (parse start region item)
  | _, .bracketed separator item => Parser.bracketed separator (parse start region item)
  | _, .repeated next item => Parser.repeated next (parse start region item)
  | _, .modifierRun table => table.collect <$> Parser.modifierRun table.rules
  | _, .spanned inner => do
    let before ← Parser.cursor
    let a ← parse start region inner
    pure (a, before.spanBetween (← Parser.cursor))
  | _, .binder what inner => do
    let found ← Parser.token .value what
    let a ← parse start region inner
    pure (← Parser.define .value found, a)
  | _, .inScope inner => Parser.inScope (parse start region inner)
  | _, .region kind implicitTerminator => region kind implicitTerminator
  | _, .recommended opcode warning inner => do
    let found ← parse start region inner
    if found.isNone then
      Parser.warnDeprecated opcode warning (start.spanBetween (← Parser.cursor))
    pure found

end Grammar

end CirText
