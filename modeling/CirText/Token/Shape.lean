import CirText.Token.Basic

/-!
# Shapes of tokens

One recogniser for each shape of token. A recogniser looks at the characters that follow and says
how many of them belong to the token, or that they do not start with a token of its shape.
`recognize` tries the shapes in a fixed order and takes the first that fits.
-/

namespace CirText.Shape

/-! ## Classes of characters -/

/-- The characters of bare words after the first, and of type and attribute names. -/
def isWordChar (c : Char) : Bool :=
  c.isAlphanum || c == '_' || c == '$' || c == '.'

/-- The characters of value, label and bare symbol names. -/
def isNameChar (c : Char) : Bool :=
  isWordChar c || c == '-'

/-- The characters that a bare word starts with. -/
def isWordStart (c : Char) : Bool :=
  c.isAlpha || c == '_'

/-- The hexadecimal digits in either case. -/
def isHexDigit (c : Char) : Bool :=
  (Text.Quoted.hexValue? c).isSome

/-! ## Recognisers -/

/-- The number of leading characters in a class. -/
def runLength (inClass : Char → Bool) (text : List Char) : Nat :=
  (text.takeWhile inClass).length

/-- The number of leading characters in a class, if there is one at all. -/
def run? (inClass : Char → Bool) (text : List Char) : Option Nat :=
  let count := runLength inClass text
  if count = 0 then none else some count

/-- The number of characters up to and including the quote that ends a string literal, for the text
after its opening quote. A backslash takes the character after it along; a line feed that is not
taken along ends the search without success. -/
def closingQuote? : List Char → Option Nat
  | [] => none
  | ['\\'] => none
  | '\\' :: _ :: rest => (closingQuote? rest).map (· + 2)
  | c :: rest =>
    if c = '"' then some 1
    else if c = '\n' then none
    else (closingQuote? rest).map (· + 1)

/-- A string literal. -/
def string? : List Char → Option Nat
  | '"' :: rest => (closingQuote? rest).map (· + 1)
  | _ => none

/-- The exponent of a decimal number, of length zero if there is none. -/
def exponentLength : List Char → Nat
  | mark :: rest =>
    if mark = 'e' || mark = 'E' then
      let signLength := match rest with
        | sign :: _ => if sign = '+' || sign = '-' then 1 else 0
        | [] => 0
      match run? Char.isDigit (rest.drop signLength) with
      | some digits => 1 + signLength + digits
      | none => 0
    else 0
  | [] => 0

/-- The fraction of a decimal number with its exponent, if there is one. -/
def fraction? : List Char → Option Nat
  | '.' :: rest =>
    (run? Char.isDigit rest).map fun digits => 1 + digits + exponentLength (rest.drop digits)
  | _ => none

/-- A decimal number without a sign. -/
def decimal? (text : List Char) : Option (TokenKind × Nat) :=
  (run? Char.isDigit text).map fun digits =>
    match fraction? (text.drop digits) with
    | some more => (.float, digits + more)
    | none => (.integer, digits)

/-- A hexadecimal number. -/
def hexadecimal? : List Char → Option (TokenKind × Nat)
  | '0' :: 'x' :: rest => (run? isHexDigit rest).map fun digits => (.integer, digits + 2)
  | _ => none

/-- A hexadecimal number, or a decimal number with an optional minus sign. -/
def number? (text : List Char) : Option (TokenKind × Nat) :=
  hexadecimal? text <|>
    match text with
    | '-' :: rest => (decimal? rest).map fun (kind, length) => (kind, length + 1)
    | _ => decimal? text

/-- A punctuation mark. -/
def punct? : List Char → Option (Punct × Nat)
  | '-' :: '>' :: _ => some (.arrow, 2)
  | '.' :: '.' :: '.' :: _ => some (.ellipsis, 3)
  | '(' :: _ => some (.leftParen, 1)
  | ')' :: _ => some (.rightParen, 1)
  | '{' :: _ => some (.leftBrace, 1)
  | '}' :: _ => some (.rightBrace, 1)
  | '[' :: _ => some (.leftBracket, 1)
  | ']' :: _ => some (.rightBracket, 1)
  | '<' :: _ => some (.less, 1)
  | '>' :: _ => some (.greater, 1)
  | ':' :: _ => some (.colon, 1)
  | ',' :: _ => some (.comma, 1)
  | '=' :: _ => some (.equal, 1)
  | '*' :: _ => some (.star, 1)
  | '?' :: _ => some (.question, 1)
  | _ => none

/-- A sigil followed by at least one character of a class. -/
def sigil? (sigil : Char) (inClass : Char → Bool) : List Char → Option Nat
  | c :: rest => if c = sigil then (run? inClass rest).map (· + 1) else none
  | [] => none

/-- A symbol name, quoted or bare. -/
def symbol? : List Char → Option Nat
  | '@' :: rest => (string? rest <|> run? isNameChar rest).map (· + 1)
  | _ => none

/-- A bare word; it is an operation keyword if it has a dot. -/
def word? : List Char → Option (TokenKind × Nat)
  | c :: rest =>
    if isWordStart c then
      let tail := rest.takeWhile isWordChar
      some (if tail.contains '.' then .keyword else .identifier, tail.length + 1)
    else none
  | [] => none

/-- The class and the number of characters of the token at the start of the text. -/
def recognize (text : List Char) : Option (TokenKind × Nat) :=
  (string? text).map (.string, ·) <|>
  number? text <|>
  (punct? text).map (fun (mark, length) => (.punct mark, length)) <|>
  (sigil? '%' isNameChar text).map (.value, ·) <|>
  (sigil? '^' isNameChar text).map (.label, ·) <|>
  (symbol? text).map (.symbol, ·) <|>
  (sigil? '!' isWordChar text).map (.typeName, ·) <|>
  (sigil? '#' isWordChar text).map (.attributeName, ·) <|>
  word? text

end CirText.Shape
