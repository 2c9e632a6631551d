import CirText.Span
import CirText.Text.Quoted

/-!
# Tokens

A source unit is read as a sequence of tokens. A token keeps the exact text that it was written
with, sigil and quotes included, and the span of that text.
-/

namespace CirText

/-- The punctuation marks. -/
inductive Punct where
  | leftParen
  | rightParen
  | leftBrace
  | rightBrace
  | leftBracket
  | rightBracket
  | less
  | greater
  | colon
  | comma
  | equal
  | arrow
  | ellipsis
  | star
  | question
deriving DecidableEq, Repr

/-- The text of a punctuation mark. -/
def Punct.text : Punct → String
  | leftParen => "("
  | rightParen => ")"
  | leftBrace => "\x7b"
  | rightBrace => "\x7d"
  | leftBracket => "["
  | rightBracket => "]"
  | less => "<"
  | greater => ">"
  | colon => ":"
  | comma => ","
  | equal => "="
  | arrow => "->"
  | ellipsis => "..."
  | star => "*"
  | question => "?"

/-- All punctuation marks. -/
def Punct.all : List Punct :=
  [leftParen, rightParen, leftBrace, rightBrace, leftBracket, rightBracket, less, greater, colon,
    comma, equal, arrow, ellipsis, star, question]

/-- The punctuation mark with the given text. -/
def Punct.ofText? (text : String) : Option Punct :=
  all.find? fun mark => mark.text == text

/-- The classes of tokens. -/
inductive TokenKind where
  /-- A dotted keyword that names an operation, such as `cir.func`. -/
  | keyword
  /-- A bare word without a dot. -/
  | identifier
  /-- A value name, `%name`. -/
  | value
  /-- A block label, `^name`. -/
  | label
  /-- A symbol name, `@name` or `@"any text"`. -/
  | symbol
  /-- A type name, `!name`. -/
  | typeName
  /-- An attribute name, `#name`. -/
  | attributeName
  /-- A decimal or hexadecimal integer. -/
  | integer
  /-- A decimal number with a fraction. -/
  | float
  /-- A string literal. -/
  | string
  /-- A punctuation mark. -/
  | punct (mark : Punct)
  /-- The end of the source unit. -/
  | endOfInput
deriving DecidableEq, Repr

/-- The class in words; a punctuation mark is its own description. -/
def TokenKind.describe : TokenKind → String
  | keyword => "operation keyword"
  | identifier => "identifier"
  | value => "value reference"
  | label => "block label"
  | symbol => "symbol reference"
  | typeName => "type alias"
  | attributeName => "attribute"
  | integer => "integer literal"
  | float => "float literal"
  | string => "string literal"
  | punct mark => mark.text
  | endOfInput => "end of input"

/-- A piece of source text that the grammar treats as one unit. -/
structure Token where
  /-- The class of the token. -/
  kind : TokenKind
  /-- The text as written. -/
  text : String
  /-- Where the text stands. -/
  span : Span
deriving DecidableEq, Repr

namespace Token

/-- The token that stands for the end of a source unit of the given size. -/
def endAt (offset : Nat) : Token :=
  ⟨.endOfInput, "", .emptyAt offset⟩

/-- Whether the token is the punctuation mark. -/
def isPunct (token : Token) (mark : Punct) : Bool :=
  token.kind == .punct mark

/-- Whether the token is the bare word. -/
def isWord (token : Token) (word : String) : Bool :=
  token.kind == .identifier && token.text == word

/-- The name that the token carries: the text without its sigil, with quotes and escapes undone. -/
def name (token : Token) : String :=
  match token.kind with
  | .value | .label | .typeName | .attributeName => String.ofList (token.text.toList.drop 1)
  | .symbol =>
    let rest := token.text.toList.drop 1
    if rest.head? = some '"' then String.ofList (Text.Quoted.decode rest) else String.ofList rest
  | .string => String.ofList (Text.Quoted.decode token.text.toList)
  | _ => token.text

/-- The token as it is mentioned in messages. -/
def describe (token : Token) : String :=
  if token.kind = .endOfInput then "end of input" else "`" ++ token.text ++ "`"

/-- Whether the token names an attribute alias: an attribute name without a dot that is not followed
by an opening angle bracket. -/
def isAttributeAlias (token next : Token) : Bool :=
  token.kind == .attributeName && !token.text.toList.contains '.' && !next.isPunct .less

end Token

end CirText
