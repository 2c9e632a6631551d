import CirText.Grammar.Modifiers
import CirText.Operation.Region

/-!
# Grammars of surface syntax

A `Grammar R α` describes how a value of type `α` is written in source text, where regions stand for
values of type `R`. It is data: one description is read by the parser, which turns tokens into a
value and reports what is missing, and by the printer, which turns a value into text. So the two
cannot disagree on what an operation looks like.

A grammar looks at most at the next two tokens to decide how to go on, and never goes back.
-/

namespace CirText

/-- A condition on the next token that decides whether an optional part is there. -/
inductive Guard where
  /-- The token is the punctuation mark. -/
  | punct (mark : Punct)
  /-- The token is the bare word. -/
  | word (word : String)
  /-- The token is of the class. -/
  | kind (kind : TokenKind)
deriving DecidableEq, Repr

/-- Whether the next token satisfies the condition. -/
def Guard.holds (guard : Guard) (cursor : Cursor) : Bool :=
  match guard with
  | .punct mark => cursor.atPunct mark
  | .word text => cursor.atWord text
  | .kind class_ => cursor.atKind class_

/-- A change of representation: every value of `α` is built into one of `β`, from which it can be
read back. -/
structure View (α β : Type) where
  /-- The value of `β` that stands for a value of `α`. -/
  build : α → β
  /-- The value of `α` that a value of `β` stands for, if it stands for one. -/
  read : β → Option α
  /-- What was built is read back. -/
  read_build : ∀ a, read (build a) = some a := by intro _; rfl

/-- What stands between the items of a bracketed list. -/
inductive Separator where
  /-- A comma, which may be left out, and may also follow the last item. -/
  | comma
  /-- Nothing but a blank. -/
  | blank
deriving DecidableEq, Repr

/-- How a value of type `α` is written. -/
inductive Grammar (R : Type) : Type → Type 1 where
  /-- A blank between tokens. It matters in printed text only. -/
  | blank : Grammar R Unit
  /-- A punctuation mark. -/
  | punct (mark : Punct) : Grammar R Unit
  /-- A fixed bare word. -/
  | word (word : String) : Grammar R Unit
  /-- Any token of a class; the description says what it is for. -/
  | lexeme (kind : TokenKind) (what : String) : Grammar R Lexeme
  /-- One of several bare words; the description says what they are for. -/
  | oneOf (words : List String) (what : String) : Grammar R Lexeme
  /-- A use of a name. -/
  | name (kind : NameKind) : Grammar R Reference
  /-- A name that is defined where it stands. -/
  | definition (kind : NameKind) : Grammar R Definition
  /-- A type. -/
  | type : Grammar R TypeText
  /-- An attribute of a form. -/
  | attributeOf (form : AttributeForm) : Grammar R AttributeText
  /-- An attribute alias or an attribute of a dialect. -/
  | namedAttribute : Grammar R AttributeText
  /-- An optional attribute alias or dictionary, with a blank in front. -/
  | trailingAttribute : Grammar R (Option AttributeText)
  /-- One thing after another. -/
  | seq {α β : Type} (first : Grammar R α) (second : Grammar R β) : Grammar R (α × β)
  /-- Another representation of the value. -/
  | view {α β : Type} (as : View α β) (inner : Grammar R α) : Grammar R β
  /-- A part that is there exactly if the next token satisfies a condition. -/
  | optional {α : Type} (present : Guard) (inner : Grammar R α) : Grammar R (Option α)
  /-- One of two alternatives: the first if the next token satisfies a condition. -/
  | choice {α β : Type} (isFirst : Guard) (first : Grammar R α) (second : Grammar R β) :
      Grammar R (α ⊕ β)
  /-- At least one item, separated by commas. -/
  | separated {α : Type} (item : Grammar R α) : Grammar R (α × List α)
  /-- Items separated by commas before a closing parenthesis. -/
  | listed {α : Type} (item : Grammar R α) : Grammar R (List α)
  /-- Items separated by commas before a closing parenthesis; an ellipsis may be the last. -/
  | listedWithEllipsis {α : Type} (item : Grammar R α) : Grammar R (List α × Bool)
  /-- Items between square brackets. -/
  | bracketed {α : Type} (separator : Separator) (item : Grammar R α) : Grammar R (List α)
  /-- Items as long as the next token satisfies a condition, with commas that may be left out. -/
  | repeated {α : Type} (next : Guard) (item : Grammar R α) : Grammar R (List α)
  /-- A run of modifiers, each with a blank in front. -/
  | modifierRun {S : Type} (table : ModifierTable S) : Grammar R S
  /-- A part together with its place. -/
  | spanned {α : Type} (inner : Grammar R α) : Grammar R (α × Span)
  /-- A value name that is defined once what follows it has been read. -/
  | binder {α : Type} (what : String) (inner : Grammar R α) : Grammar R (Definition × α)
  /-- A part whose names belong to a new scope. -/
  | inScope {α : Type} (inner : Grammar R α) : Grammar R α
  /-- A region of the current scope. If it has one block only, it may be allowed to go without a
  terminator. -/
  | region (kind : RegionKind) (implicitTerminator : Bool) : Grammar R R
  /-- A part that should not be left out at the end of an operation, although it can. -/
  | recommended {α : Type} (opcode : Opcode) (warning : String) (inner : Grammar R (Option α)) :
      Grammar R (Option α)

namespace Grammar

variable {R α β : Type}

/-! ## Sequences -/

/-- A fixed part in front. -/
def before (first : Grammar R Unit) (rest : Grammar R α) : Grammar R α :=
  view { build := Prod.snd, read := fun a => some ((), a) } (seq first rest)

/-- A fixed part behind. -/
def followedBy (inner : Grammar R α) (last : Grammar R Unit) : Grammar R α :=
  view { build := Prod.fst, read := fun a => some (a, ()) } (seq inner last)

/-- A punctuation mark in front. -/
def mark (mark : Punct) (rest : Grammar R α) : Grammar R α :=
  before (punct mark) rest

/-- A blank in front. -/
def spaced (rest : Grammar R α) : Grammar R α :=
  before blank rest

/-- A comma and a blank in front. -/
def comma (rest : Grammar R α) : Grammar R α :=
  mark .comma (spaced rest)

/-- A colon in front, with a blank on either side. -/
def colon (rest : Grammar R α) : Grammar R α :=
  spaced (mark .colon (spaced rest))

/-- A fixed word in front, after a blank. -/
def spacedWord (text : String) (rest : Grammar R α) : Grammar R α :=
  spaced (before (word text) rest)

/-- A part between two marks. -/
def between (opening closing : Punct) (inner : Grammar R α) : Grammar R α :=
  mark opening (followedBy inner (punct closing))

/-- A part in parentheses. -/
def parens (inner : Grammar R α) : Grammar R α :=
  between .leftParen .rightParen inner

/-- A part in square brackets. -/
def brackets (inner : Grammar R α) : Grammar R α :=
  between .leftBracket .rightBracket inner

/-- A part in angle brackets. -/
def angles (inner : Grammar R α) : Grammar R α :=
  between .less .greater inner

/-- A list of at least one item, separated by commas. -/
def list (item : Grammar R α) : Grammar R (List α) :=
  view
    { build := fun (head, tail) => head :: tail
      read := fun
        | [] => none
        | head :: tail => some (head, tail) }
    (separated item)

/-! ## Names and literals -/

/-- A use of a value. -/
def value : Grammar R Reference :=
  name .value

/-- A use of a block label. -/
def label : Grammar R Reference :=
  name .label

/-- A use of a symbol. -/
def symbol : Grammar R Reference :=
  name .symbol

/-- A bare word. -/
def identifier (what : String) : Grammar R Lexeme :=
  lexeme .identifier what

/-- An integer. -/
def integer : Grammar R Lexeme :=
  lexeme .integer "an integer"

/-- A string literal. -/
def string : Grammar R Lexeme :=
  lexeme .string "a string literal"

/-- Whether a part without content is there. -/
def flag (guard : Guard) (inner : Grammar R Unit) : Grammar R Bool :=
  view
    { build := fun present => present.isSome
      read := fun isSet => some (if isSet then some () else none)
      read_build := by rintro (_ | _) <;> rfl }
    (optional guard inner)

/-- An optional word after a blank. -/
def optionalWord (text : String) : Grammar R Bool :=
  flag (.word text) (spaced (word text))

/-! ## Types -/

/-- A type by itself, or types in parentheses. -/
def typeGroup : Grammar R TypeGroup :=
  view
    { build := fun
        | .inl types => .parenthesized types
        | .inr only => .single only
      read := fun
        | .parenthesized types => some (.inl types)
        | .single only => some (.inr only)
      read_build := by rintro (_ | _) <;> rfl }
    (choice (.punct .leftParen) (parens (listed type)) type)

/-- An arrow and the types behind it. -/
def resultTypes : Grammar R TypeGroup :=
  spaced (mark .arrow (spaced typeGroup))

/-- A colon and at least one type. -/
def annotation : Grammar R (List TypeText) :=
  colon (list type)

/-- An optional colon with at least one type. -/
def optionalAnnotation : Grammar R (Option (List TypeText)) :=
  optional (.punct .colon) annotation

/-- The inputs of a signature after a colon, and its results. -/
def signature : Grammar R Signature :=
  spaced <|
  view
    { build := fun ((inputs, results), span) => ⟨inputs, results, span⟩
      read := fun typing => some ((typing.inputs, typing.results), typing.span) } <|
  spanned <| mark .colon <| spaced <|
  seq typeGroup (optional (.punct .arrow) resultTypes)

/-- An optional signature. -/
def optionalSignature : Grammar R (Option Signature) :=
  optional (.punct .colon) signature

/-- A value and its type. -/
def typedValue : Grammar R TypedValue :=
  view
    { build := fun (operand, itsType) => ⟨operand, itsType⟩
      read := fun typed => some (typed.value, typed.type) }
    (seq value (colon type))

/-- At least one value, and at least one type. -/
def operands : Grammar R Operands :=
  view
    { build := fun (values, types) => ⟨values, types⟩
      read := fun both => some (both.values, both.types) }
    (seq (list value) annotation)

/-- Values in parentheses. -/
def arguments : Grammar R (List Reference) :=
  parens (listed value)

/-- A block to branch to, with optional arguments. -/
def successor : Grammar R Successor :=
  view
    { build := fun (block, args) => ⟨block, args⟩
      read := fun target => some (target.label, target.args) }
    (seq label (optional (.punct .leftParen) (parens operands)))

/-! ## Attributes and regions -/

/-- Attribute values in square brackets, after a blank. -/
def optionalAnnotations : Grammar R (Option (List AttributeText)) :=
  optional (.punct .leftBracket) (spaced (bracketed .comma (attributeOf .value)))

/-- A region with a scope of its own, after a blank. -/
def nested (kind : RegionKind) (implicitTerminator : Bool) : Grammar R R :=
  spaced (inScope (region kind implicitTerminator))

/-- A word, a colon and a region with a scope of its own. -/
def colonRegion (text : String) (kind : RegionKind) : Grammar R R :=
  before (word text) (spaced (mark .colon (nested kind false)))

/-- A word after a blank, and a region with a scope of its own. -/
def wordRegion (text : String) (kind : RegionKind) (implicitTerminator : Bool) : Grammar R R :=
  spacedWord text (nested kind implicitTerminator)

/-- An optional word with a region. -/
def optionalRegion (text : String) (kind : RegionKind) (implicitTerminator : Bool) :
    Grammar R (Option R) :=
  optional (.word text) (wordRegion text kind implicitTerminator)

/-! ## Blocks -/

/-- An argument of a block with its type. -/
def blockArgument : Grammar R BlockArgument :=
  view
    { build := fun (arg, itsType) => ⟨arg, itsType⟩
      read := fun arg => some (arg.definition, arg.type) }
    (binder "a block argument" (colon type))

/-- The arguments of a block. An empty list is written without parentheses. -/
def blockArguments : Grammar R (List BlockArgument) :=
  view
    { build := fun
        | none => []
        | some (head, tail) => head :: tail
      read := fun
        | [] => some none
        | head :: tail => some (some (head, tail))
      read_build := by rintro (_ | _) <;> rfl }
    (optional (.punct .leftParen) (parens (separated blockArgument)))

/-- The label of a block and its arguments. -/
def blockHeader : Grammar R (Definition × List BlockArgument) :=
  followedBy (seq (definition .label) blockArguments) (punct .colon)

end Grammar

end CirText
