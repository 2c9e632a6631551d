import CirText.Sublanguage.Basic

/-!
# Reading types and attributes by shape

Types and attributes are recognised by their outer shape alone. What stands between angle brackets
is skipped by counting brackets: the group ends at the first closing bracket, of whatever kind, that
brings the count of open brackets back to zero.

The readers work on the tokens still to be read. A successful reader returns fewer tokens than it
was given, which is why they end; a failed one returns the tokens from the place where it failed.
-/

namespace CirText.Reader

/-- A failed attempt to read. -/
structure Mismatch where
  /-- What was expected and what was found. -/
  message : String
  /-- The tokens from the place where reading failed. -/
  rest : List Token

/-- The outcome of reading from the given tokens: a mismatch, or what is left, which is less. -/
abbrev Reading (tokens : List Token) :=
  Except Mismatch { rest : List Token // rest.length < tokens.length }

/-! ## Looking at tokens -/

/-- Whether the first token is the punctuation mark. -/
def startsWith (mark : Punct) : List Token → Bool
  | [] => false
  | token :: _ => token.isPunct mark

/-- The first token as it is mentioned in messages. -/
def found : List Token → String
  | [] => "end of input"
  | token :: _ => token.describe

/-- Whether the token opens a bracket of any kind. -/
def opensGroup (token : Token) : Bool :=
  token.isPunct .leftParen || token.isPunct .leftBracket || token.isPunct .leftBrace ||
    token.isPunct .less

/-- Whether the token closes a bracket of any kind. -/
def closesGroup (token : Token) : Bool :=
  token.isPunct .rightParen || token.isPunct .rightBracket || token.isPunct .rightBrace ||
    token.isPunct .greater

/-- The tokens after the bracket that closes the last of `depth` open brackets, if it comes. -/
def skipGroup (depth : Nat) : (tokens : List Token) →
    Option { rest : List Token // rest.length < tokens.length }
  | [] => none
  | token :: rest =>
    if closesGroup token && depth ≤ 1 then
      some ⟨rest, Nat.lt_succ_self _⟩
    else
      let inside :=
        if opensGroup token then depth + 1
        else if closesGroup token then depth - 1
        else depth
      match skipGroup inside rest with
      | some after => some ⟨after, Nat.lt_succ_of_lt after.2⟩
      | none => none

/-- The tokens after an optional group in angle brackets that starts at the first token. -/
def optionalGroup (message : String) (tokens : List Token) :
    Except Mismatch { rest : List Token // rest.length ≤ tokens.length } :=
  if startsWith .less tokens then
    match skipGroup 0 tokens with
    | some rest => .ok ⟨rest, Nat.le_of_lt rest.2⟩
    | none => .error ⟨message, []⟩
  else
    .ok ⟨tokens, Nat.le_refl _⟩

/-! ## Types -/

/-- Whether the word is a prefix followed by at least one digit and nothing else. -/
def isSized (start : String) (word : String) : Bool :=
  let rest := word.toList.drop start.length
  start.toList.isPrefixOf word.toList && !rest.isEmpty && rest.all Char.isDigit

/-- Whether the word is a built-in type without arguments. -/
def isScalarType (word : String) : Bool :=
  word == "index" || word == "none" || word == "bf16" || word == "tf32" ||
    isSized "i" word || isSized "si" word || isSized "ui" word || isSized "f" word

/-- Whether the word is a built-in type that takes its arguments in angle brackets. -/
def isShapedType (word : String) : Bool :=
  word == "tensor" || word == "vector" || word == "memref" || word == "complex" || word == "tuple"

/-- The message for an angle bracket of a type that is never closed. -/
def openType : String :=
  "unterminated `<` in type"

/-- The mismatch at the first token where a type was expected. -/
def noType (tokens : List Token) : Mismatch :=
  ⟨"expected a type, found " ++ found tokens, tokens⟩

mutual

/-- Reads a type: a type name with an optional group, a built-in type, or a function type. -/
def type (tokens : List Token) : Reading tokens :=
  match tokens with
  | [] => .error (noType [])
  | token :: rest =>
    match token.kind with
    | .typeName =>
      match optionalGroup openType rest with
      | .ok after => .ok ⟨after, Nat.lt_succ_of_le after.2⟩
      | .error mismatch => .error mismatch
    | .identifier =>
      if isScalarType token.text then
        .ok ⟨rest, Nat.lt_succ_self _⟩
      else if isShapedType token.text then
        if startsWith .less rest then
          match optionalGroup openType rest with
          | .ok after => .ok ⟨after, Nat.lt_succ_of_le after.2⟩
          | .error mismatch => .error mismatch
        else
          .error ⟨"expected `<` after `" ++ token.text ++ "`", rest⟩
      else
        .error (noType (token :: rest))
    | .punct .leftParen =>
      match typeList rest with
      | .error mismatch => .error mismatch
      | .ok ⟨[], _⟩ => .error ⟨"expected `->` in function type, found " ++ found [], []⟩
      | .ok ⟨arrow :: results, shorter⟩ =>
        have fewer : results.length < rest.length := Nat.lt_of_succ_lt shorter
        if arrow.isPunct .arrow then
          if startsWith .leftParen results then
            match typeList results.tail with
            | .ok after => .ok ⟨after, by
                have := after.2
                simp only [List.length_tail, List.length_cons] at *
                omega⟩
            | .error mismatch => .error mismatch
          else
            match type results with
            | .ok after => .ok ⟨after, Nat.lt_succ_of_lt (Nat.lt_trans after.2 fewer)⟩
            | .error mismatch => .error mismatch
        else
          .error ⟨"expected `->` in function type, found " ++ arrow.describe, arrow :: results⟩
    | _ => .error (noType (token :: rest))
termination_by (tokens.length, 0)

/-- Reads the types of a list up to its closing parenthesis, from after the opening one. -/
def typeList (tokens : List Token) : Reading tokens :=
  match tokens with
  | [] => types []
  | token :: rest =>
    if token.isPunct .rightParen then .ok ⟨rest, Nat.lt_succ_self _⟩ else types (token :: rest)
termination_by (tokens.length, 2)

/-- Reads at least one type of a list up to its closing parenthesis. -/
def types (tokens : List Token) : Reading tokens :=
  match type tokens with
  | .error mismatch => .error mismatch
  | .ok ⟨[], _⟩ => .error ⟨"expected `,` or `)` in type list, found " ++ found [], []⟩
  | .ok ⟨token :: rest, shorter⟩ =>
    have fewer : rest.length < tokens.length := Nat.lt_of_succ_lt shorter
    if token.isPunct .comma then
      match types rest with
      | .ok after => .ok ⟨after, Nat.lt_trans after.2 fewer⟩
      | .error mismatch => .error mismatch
    else if token.isPunct .rightParen then
      .ok ⟨rest, fewer⟩
    else
      .error ⟨"expected `,` or `)` in type list, found " ++ token.describe, token :: rest⟩
termination_by (tokens.length, 1)

end

/-! ## Attributes -/

/-- Reads an optional colon with a type. -/
def typeSuffix (tokens : List Token) :
    Except Mismatch { rest : List Token // rest.length ≤ tokens.length } :=
  match tokens with
  | [] => .ok ⟨[], Nat.le_refl _⟩
  | colon :: rest =>
    if colon.isPunct .colon then
      match type rest with
      | .ok after => .ok ⟨after, Nat.le_of_lt (Nat.lt_succ_of_lt after.2)⟩
      | .error mismatch => .error mismatch
    else
      .ok ⟨colon :: rest, Nat.le_refl _⟩

/-- The message for an angle bracket of an attribute that is never closed. -/
def openAttribute : String :=
  "unterminated `<` in attribute"

/-- Whether the word is an attribute value by itself. -/
def isValueWord (word : String) : Bool :=
  word == "true" || word == "false" || word == "unit"

/-- Whether the word is followed by the elements of a value in angle brackets. -/
def isElementsWord (word : String) : Bool :=
  word == "dense" || word == "array" || word == "sparse"

/-- Whether the token can be the name of a dictionary entry. -/
def isEntryName (token : Token) : Bool :=
  token.kind == .identifier || token.kind == .keyword || token.kind == .string

/-- Reads an optional group in angle brackets and then an optional colon with a type. -/
def groupAndSuffix (tokens : List Token) :
    Except Mismatch { rest : List Token // rest.length ≤ tokens.length } :=
  match optionalGroup openAttribute tokens with
  | .error mismatch => .error mismatch
  | .ok ⟨middle, shorter⟩ =>
    match typeSuffix middle with
    | .ok after => .ok ⟨after, Nat.le_trans after.2 shorter⟩
    | .error mismatch => .error mismatch

/-- Reads a group that starts at the first token, which has to be the given mark, or fails there
with the message, or at the end of input if the group is never closed. -/
def requiredGroup (mark : Punct) (message : String) (tokens : List Token) : Reading tokens :=
  if startsWith mark tokens then
    match skipGroup 0 tokens with
    | some rest => .ok rest
    | none => .error ⟨message, []⟩
  else
    .error ⟨message, tokens⟩

/-- Reads a type in the place of an attribute value. -/
def typeValue (tokens : List Token) : Reading tokens :=
  match type tokens with
  | .ok after => .ok after
  | .error _ => .error ⟨"expected an attribute value, found " ++ found tokens, tokens⟩

mutual

/-- Reads an attribute value. -/
def value (tokens : List Token) : Reading tokens :=
  match tokens with
  | [] => typeValue []
  | token :: rest =>
    match token.kind with
    | .attributeName =>
      match groupAndSuffix rest with
      | .ok after => .ok ⟨after, Nat.lt_succ_of_le after.2⟩
      | .error mismatch => .error mismatch
    | .integer | .float | .string =>
      match typeSuffix rest with
      | .ok after => .ok ⟨after, Nat.lt_succ_of_le after.2⟩
      | .error mismatch => .error mismatch
    | .symbol => .ok ⟨rest, Nat.lt_succ_self _⟩
    | .identifier =>
      if isValueWord token.text then
        .ok ⟨rest, Nat.lt_succ_self _⟩
      else if isElementsWord token.text then
        match requiredGroup .less ("expected `<...>` after `" ++ token.text ++ "`") rest with
        | .error mismatch => .error mismatch
        | .ok ⟨middle, shorter⟩ =>
          match typeSuffix middle with
          | .ok after =>
            .ok ⟨after, Nat.lt_succ_of_le (Nat.le_trans after.2 (Nat.le_of_lt shorter))⟩
          | .error mismatch => .error mismatch
      else if token.text == "loc" then
        match requiredGroup .leftParen "expected `(...)` after `loc`" rest with
        | .ok after => .ok ⟨after, Nat.lt_succ_of_lt after.2⟩
        | .error mismatch => .error mismatch
      else
        typeValue (token :: rest)
    | .punct .leftBracket =>
      match items rest with
      | .ok after => .ok ⟨after, Nat.lt_succ_of_lt after.2⟩
      | .error mismatch => .error mismatch
    | .punct .leftBrace =>
      match entries rest with
      | .ok after => .ok ⟨after, Nat.lt_succ_of_lt after.2⟩
      | .error mismatch => .error mismatch
    | _ => typeValue (token :: rest)
termination_by (tokens.length, 0)

/-- Reads the items of an array up to its closing bracket, from after the opening bracket or after a
comma. -/
def items (tokens : List Token) : Reading tokens :=
  if startsWith .rightBracket tokens then
    match tokens with
    | [] => .error ⟨"", []⟩
    | _ :: rest => .ok ⟨rest, Nat.lt_succ_self _⟩
  else
    match value tokens with
    | .error mismatch => .error mismatch
    | .ok ⟨[], _⟩ => .error ⟨"expected `,` or `]` in array attribute, found " ++ found [], []⟩
    | .ok ⟨token :: rest, shorter⟩ =>
      have fewer : rest.length < tokens.length := Nat.lt_of_succ_lt shorter
      if token.isPunct .comma then
        match items rest with
        | .ok after => .ok ⟨after, Nat.lt_trans after.2 fewer⟩
        | .error mismatch => .error mismatch
      else if token.isPunct .rightBracket then
        .ok ⟨rest, fewer⟩
      else
        .error ⟨"expected `,` or `]` in array attribute, found " ++ token.describe, token :: rest⟩
termination_by (tokens.length, 1)

/-- Reads the entries of a dictionary up to its closing brace, from after the opening brace or after
a comma. -/
def entries (tokens : List Token) : Reading tokens :=
  match tokens with
  | [] => .error ⟨"expected an attribute name, found " ++ found [], []⟩
  | name :: rest =>
    if name.isPunct .rightBrace then
      .ok ⟨rest, Nat.lt_succ_self _⟩
    else if !isEntryName name then
      .error ⟨"expected an attribute name, found " ++ name.describe, name :: rest⟩
    else
      match entryValue rest with
      | .error mismatch => .error mismatch
      | .ok ⟨[], _⟩ =>
        .error ⟨"expected `,` or `\x7d` in attribute dictionary, found " ++ found [], []⟩
      | .ok ⟨token :: after, shorter⟩ =>
        have fewer : after.length < rest.length := shorter
        if token.isPunct .comma then
          match entries after with
          | .ok final => .ok ⟨final, Nat.lt_succ_of_lt (Nat.lt_trans final.2 fewer)⟩
          | .error mismatch => .error mismatch
        else if token.isPunct .rightBrace then
          .ok ⟨after, Nat.lt_succ_of_lt fewer⟩
        else
          .error ⟨"expected `,` or `\x7d` in attribute dictionary, found " ++ token.describe,
            token :: after⟩
termination_by (tokens.length, 0)

/-- Reads an optional equals sign with the value of a dictionary entry. -/
def entryValue (tokens : List Token) :
    Except Mismatch { rest : List Token // rest.length ≤ tokens.length } :=
  match tokens with
  | [] => .ok ⟨[], Nat.le_refl _⟩
  | equal :: rest =>
    if equal.isPunct .equal then
      match value rest with
      | .ok after => .ok ⟨after, Nat.le_of_lt (Nat.lt_succ_of_lt after.2)⟩
      | .error mismatch => .error mismatch
    else
      .ok ⟨equal :: rest, Nat.le_refl _⟩
termination_by (tokens.length, 0)

end

/-- Whether the tokens start with the name of an attribute alias. -/
def startsWithAlias : List Token → Bool
  | [] => false
  | token :: rest => token.isAttributeAlias (rest.headD (.endAt 0))

/-- Reads an attribute of a dialect: its name and an optional group. -/
def dialect (tokens : List Token) : Reading tokens :=
  match tokens with
  | [] => .error ⟨"expected a dialect attribute, found " ++ found [], []⟩
  | token :: rest =>
    if token.kind = .attributeName ∧ startsWithAlias (token :: rest) = false then
      match optionalGroup openAttribute rest with
      | .ok after => .ok ⟨after, Nat.lt_succ_of_le after.2⟩
      | .error mismatch => .error mismatch
    else
      .error ⟨"expected a dialect attribute, found " ++ token.describe, token :: rest⟩

/-- Reads the name of an attribute alias. -/
def aliasName (tokens : List Token) : Reading tokens :=
  match tokens with
  | [] => .error ⟨"expected an attribute alias, found " ++ found [], []⟩
  | token :: rest =>
    if startsWithAlias (token :: rest) then
      .ok ⟨rest, Nat.lt_succ_self _⟩
    else
      .error ⟨"expected an attribute alias, found " ++ token.describe, token :: rest⟩

/-- Reads a dictionary. -/
def dictionary (tokens : List Token) : Reading tokens :=
  match tokens with
  | [] => .error ⟨"expected `\x7b`, found " ++ found [], []⟩
  | token :: rest =>
    if token.isPunct .leftBrace then
      match entries rest with
      | .ok after => .ok ⟨after, Nat.lt_succ_of_lt after.2⟩
      | .error mismatch => .error mismatch
    else
      .error ⟨"expected `\x7b`, found " ++ token.describe, token :: rest⟩

/-- Reads an attribute that has to be of the given form. -/
def ofForm : AttributeForm → (tokens : List Token) → Reading tokens
  | .value => value
  | .dialect => dialect
  | .aliasName => aliasName
  | .dictionary => dictionary

end CirText.Reader

namespace CirText.Cursor

/-- Where the first of the tokens stands that are still to be read. -/
def spanAt (cursor : Cursor) (rest : List Token) : Span :=
  (rest.headD cursor.endToken).span

/-- Reads a type, and moves past it. -/
def readType (source : List Char) (cursor : Cursor) : Except SublanguageError (TypeText × Cursor) :=
  match Reader.type cursor.rest with
  | .error mismatch => .error ⟨.type, mismatch.message, cursor.spanAt mismatch.rest⟩
  | .ok rest =>
    let after := cursor.advanceTo rest
    let span := spanBetween cursor after
    .ok (⟨String.ofList (span.slice source), span⟩, after)

/-- Reads an attribute of the given form, and moves past it. -/
def readAttribute (source : List Char) (form : AttributeForm) (cursor : Cursor) :
    Except SublanguageError (AttributeText × Cursor) :=
  match Reader.ofForm form cursor.rest with
  | .error mismatch => .error ⟨.attribute, mismatch.message, cursor.spanAt mismatch.rest⟩
  | .ok rest =>
    let after := cursor.advanceTo rest
    let span := spanBetween cursor after
    .ok (⟨String.ofList (span.slice source), form, span⟩, after)

end CirText.Cursor
