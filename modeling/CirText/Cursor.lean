import CirText.Token.Lexer

/-!
# Cursors

A cursor is a position in the tokens of a source unit: the tokens still to be read, how many have
been read, and the last one of them. Behind the last token every further look finds the end of
input, so looking ahead needs no bounds.
-/

namespace CirText

/-- A position in the tokens of a source unit. -/
structure Cursor where
  /-- The tokens still to be read. -/
  rest : List Token
  /-- The number of tokens before the cursor. -/
  position : Nat
  /-- The token before the cursor. -/
  last : Option Token
  /-- The size of the source unit in bytes. -/
  size : Nat
deriving Repr

namespace Cursor

/-- The cursor before the token with the given index. Beyond the end of input there is nothing to
read. -/
def ofTokenized (lexed : Tokenized) (index : Nat) : Cursor where
  rest := lexed.tokens.drop index
  position := index
  last := if index = 0 then none else lexed.allTokens[index - 1]?
  size := lexed.size

/-- The token that stands for the end of input. -/
def endToken (cursor : Cursor) : Token :=
  .endAt cursor.size

/-- The next token. -/
def peek (cursor : Cursor) : Token :=
  cursor.rest.headD cursor.endToken

/-- The token after `count` further ones. -/
def peekAt (cursor : Cursor) (count : Nat) : Token :=
  cursor.rest.getD count cursor.endToken

/-- Moves past the next token; at the end of input the cursor stays. -/
def next (cursor : Cursor) : Cursor :=
  match cursor.rest with
  | [] => cursor
  | token :: rest =>
    { cursor with rest, position := cursor.position + 1, last := some token }

/-- Moves past the given number of tokens. -/
def advance : Cursor → Nat → Cursor
  | cursor, 0 => cursor
  | cursor, count + 1 => cursor.next.advance count

/-- Moves to where the given tokens are what is still to be read. -/
def advanceTo (cursor : Cursor) (rest : List Token) : Cursor :=
  cursor.advance (cursor.rest.length - rest.length)

/-- Whether the next token is the punctuation mark. -/
def atPunct (cursor : Cursor) (mark : Punct) : Bool :=
  cursor.peek.isPunct mark

/-- Whether the next token is the bare word. -/
def atWord (cursor : Cursor) (word : String) : Bool :=
  cursor.peek.isWord word

/-- Whether the next token is of the class. -/
def atKind (cursor : Cursor) (kind : TokenKind) : Bool :=
  cursor.peek.kind == kind

/-- Whether the next token names an attribute alias. -/
def atAttributeAlias (cursor : Cursor) : Bool :=
  cursor.peek.isAttributeAlias (cursor.peekAt 1)

/-- Whether nothing is left to be read. -/
def atEnd (cursor : Cursor) : Bool :=
  cursor.rest.isEmpty

/-- The offset just past the last token read, or zero before the first. -/
def lastStop (cursor : Cursor) : Nat :=
  (cursor.last.map (·.span.stop)).getD 0

/-- The span from the first token after `start` to the last token before `now`; empty if no token
stands between them. -/
def spanBetween (start now : Cursor) : Span :=
  let first := start.peek.span
  match now.last with
  | none => .emptyAt first.start
  | some last =>
    if now.position ≤ start.position then .emptyAt first.start else first.cover last.span

end Cursor

end CirText
