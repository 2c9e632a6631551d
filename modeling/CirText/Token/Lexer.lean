import CirText.Text.Blank
import CirText.Token.Shape

/-!
# Splitting a source unit into tokens

Between tokens stand blank characters and comments, which run from two slashes to the end of the
line. Where no token starts, the lexer notes an error and goes on: a quote that opens no complete
string literal spoils the rest of its line, any other character spoils itself only.
-/

namespace CirText

/-- Why no token starts at a place. -/
inductive LexFault where
  /-- A quote without a matching one on the same line. -/
  | unterminatedString
  /-- A character that no token starts with. -/
  | invalidCharacter (c : Char)
deriving DecidableEq, Repr

/-- The error in words. -/
def LexFault.message : LexFault → String
  | unterminatedString => "unterminated string literal"
  | invalidCharacter c => "invalid character `" ++ String.singleton c ++ "`"

/-- A piece of source text that is no token. -/
structure LexError where
  /-- What is wrong with it. -/
  kind : LexFault
  /-- Where it stands. -/
  span : Span
deriving DecidableEq, Repr

/-- The error in words, with its place. -/
def LexError.describe (error : LexError) : String :=
  error.kind.message ++ " at offset " ++ toString error.span.start

/-- What the lexer finds between blanks and comments. -/
inductive LexItem where
  /-- A token. -/
  | token (token : Token)
  /-- A piece of text that is no token. -/
  | error (error : LexError)
deriving DecidableEq, Repr

namespace Lexer

/-- Skips blanks and comments from an offset on, and returns where the next item starts with the
text from there. The flag says whether the text starts inside a comment. -/
def skipTrivia (inComment : Bool) (offset : Nat) : List Char → Nat × List Char
  | [] => (offset, [])
  | c :: rest =>
    if inComment then
      skipTrivia (c != '\n') (offset + c.utf8Size) rest
    else if Text.isBlank c then
      skipTrivia false (offset + c.utf8Size) rest
    else if c = '/' && rest.head? = some '/' then
      skipTrivia true (offset + c.utf8Size) rest
    else
      (offset, c :: rest)

theorem length_skipTrivia_le (inComment : Bool) (offset : Nat) (text : List Char) :
    (skipTrivia inComment offset text).2.length ≤ text.length := by
  induction text generalizing inComment offset with
  | nil => simp [skipTrivia]
  | cons c rest ih =>
    simp only [skipTrivia]
    split
    · exact Nat.le_succ_of_le (ih _ _)
    · split
      · exact Nat.le_succ_of_le (ih _ _)
      · split
        · exact Nat.le_succ_of_le (ih _ _)
        · simp

/-- The item that starts with the character `c` at an offset, and the number of characters of `rest`
that belong to it. -/
def item (offset : Nat) (c : Char) (rest : List Char) : LexItem × Nat :=
  match Shape.recognize (c :: rest) with
  | some (kind, length) =>
    let text := c :: rest.take (length - 1)
    (.token ⟨kind, String.ofList text, offset, offset + Text.byteSize text⟩, length - 1)
  | none =>
    if c = '"' then
      let line := rest.takeWhile (· != '\n')
      (.error ⟨.unterminatedString, offset, offset + Text.byteSize (c :: line)⟩, line.length)
    else
      (.error ⟨.invalidCharacter c, offset, offset + c.utf8Size⟩, 0)

/-- The items of a text whose first character stands at an offset. -/
def itemsFrom (offset : Nat) (text : List Char) : List LexItem :=
  match _found : skipTrivia false offset text with
  | (_, []) => []
  | (start, c :: rest) =>
    let (first, length) := item start c rest
    first :: itemsFrom (start + Text.byteSize (c :: rest.take length)) (rest.drop length)
termination_by text.length
decreasing_by
  have bound := length_skipTrivia_le false offset text
  rw [_found] at bound
  simp only [List.length_cons, List.length_drop] at bound ⊢
  omega

end Lexer

/-- The tokens and the errors of a source unit in the order of the text. -/
def lexItems (source : String) : List LexItem :=
  Lexer.itemsFrom 0 source.toList

/-- The result of splitting a source unit. -/
structure Tokenized where
  /-- The tokens, without the one that stands for the end of input. -/
  tokens : List Token
  /-- The errors. -/
  errors : List LexError
  /-- The size of the source unit in bytes. -/
  size : Nat

/-- Splits a source unit into its tokens and errors. -/
def tokenize (source : String) : Tokenized where
  tokens := (lexItems source).filterMap fun
    | .token token => some token
    | .error _ => none
  errors := (lexItems source).filterMap fun
    | .token _ => none
    | .error error => some error
  size := Text.byteSize source.toList

/-- All tokens, ended by the one that stands for the end of input. -/
def Tokenized.allTokens (lexed : Tokenized) : List Token :=
  lexed.tokens ++ [.endAt lexed.size]

end CirText
