import CirText.Cursor

/-!
# Types and attributes as uninterpreted text

Types and attributes are languages of their own. The grammar of operations only has to know where
they end, so it keeps their text together with its place and gives it no meaning.
-/

namespace CirText

/-- A type, uninterpreted. -/
structure TypeText where
  /-- The type as written. -/
  text : String
  /-- Where it stands. -/
  span : Span
deriving DecidableEq, Repr

/-- The ways in which an attribute can be written. -/
inductive AttributeForm where
  /-- Any attribute value. -/
  | value
  /-- An attribute name of a dialect, with its arguments. -/
  | dialect
  /-- The name of an attribute alias. -/
  | aliasName
  /-- A dictionary between braces. -/
  | dictionary
deriving DecidableEq, Repr

/-- The form in one word. -/
def AttributeForm.name : AttributeForm → String
  | value => "value"
  | dialect => "dialect"
  | aliasName => "alias"
  | dictionary => "dictionary"

/-- An attribute, uninterpreted. -/
structure AttributeText where
  /-- The attribute as written. -/
  text : String
  /-- The form in which it was read. -/
  form : AttributeForm
  /-- Where it stands. -/
  span : Span
deriving DecidableEq, Repr

/-- The languages that operations embed. -/
inductive Sublanguage where
  /-- The language of types. -/
  | type
  /-- The language of attributes. -/
  | attribute
deriving DecidableEq, Repr

/-- A piece of text that is not in its language. -/
structure SublanguageError where
  /-- The language. -/
  language : Sublanguage
  /-- What was expected and what was found. -/
  message : String
  /-- The token at which reading failed. -/
  span : Span
deriving DecidableEq, Repr

/-- The error in words. -/
def SublanguageError.describe (error : SublanguageError) : String :=
  match error.language with
  | .type => "invalid type: " ++ error.message
  | .attribute => "invalid attribute: " ++ error.message

end CirText
