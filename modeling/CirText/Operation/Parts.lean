import CirText.Scope.Basic
import CirText.Sublanguage.Basic

/-!
# Parts of operations

The pieces of surface syntax that several operations share: words and literals, values with types,
branch targets, and type annotations.
-/

namespace CirText

/-- A word or literal, kept as written. -/
structure Lexeme where
  /-- The text as written. -/
  text : String
  /-- Where it stands. -/
  span : Span
deriving DecidableEq, Repr

/-- A value with its type, `%v : t`. -/
structure TypedValue where
  /-- The value. -/
  value : Reference
  /-- Its type. -/
  type : TypeText
deriving DecidableEq, Repr

/-- Values with their types, `%a, %b : t, u`. The numbers of both need not agree. -/
structure Operands where
  /-- The values. -/
  values : List Reference
  /-- The types. -/
  types : List TypeText
deriving DecidableEq, Repr

/-- A branch target with optional arguments for its block. -/
structure Successor where
  /-- The block. -/
  label : Reference
  /-- The arguments, in parentheses. -/
  args : Option Operands
deriving DecidableEq, Repr

/-- One side of a function type: a type by itself, or types in parentheses. -/
inductive TypeGroup where
  /-- A type without parentheses. -/
  | single (type : TypeText)
  /-- Any number of types in parentheses. -/
  | parenthesized (types : List TypeText)
deriving DecidableEq, Repr

/-- The types of a group. -/
def TypeGroup.types : TypeGroup → List TypeText
  | single type => [type]
  | parenthesized types => types

/-- Whether a group is written with parentheses. -/
def TypeGroup.isParenthesized : TypeGroup → Bool
  | single _ => false
  | parenthesized _ => true

/-- The type annotation of an operation, `: inputs` or `: inputs -> results`. -/
structure Signature where
  /-- The types before the arrow. -/
  inputs : TypeGroup
  /-- The types after the arrow, if there is one. -/
  results : Option TypeGroup
  /-- The annotation from its colon on. -/
  span : Span
deriving DecidableEq, Repr

/-- The two ways of writing a signature. -/
inductive SignatureForm where
  /-- Without an arrow. -/
  | single
  /-- With an arrow. -/
  | arrow
deriving DecidableEq, Repr

/-- How a signature is written. -/
def Signature.form (signature : Signature) : SignatureForm :=
  if signature.results.isSome then .arrow else .single

/-- The types of a memory access: of the value alone, or of the pointer and the value. -/
inductive AccessTypes where
  /-- One type. -/
  | single (type : TypeText)
  /-- Two types. -/
  | dual (first second : TypeText)
deriving DecidableEq, Repr

/-- The types of an access in order. -/
def AccessTypes.toList : AccessTypes → List TypeText
  | single type => [type]
  | dual first second => [first, second]

/-- How the types of a conversion are written. -/
inductive CastTyping where
  /-- With the source type in parentheses and the result type after them. -/
  | parenthesized (source result : TypeText)
  /-- With a signature, which may be left out. -/
  | bare (signature : Option Signature)
deriving DecidableEq, Repr

/-- How the types of a pointer stride are written. -/
inductive StrideTyping where
  /-- With the operand types in parentheses and the result type after them. -/
  | parenthesized (base stride result : TypeText)
  /-- With a signature, which may be left out. -/
  | bare (signature : Option Signature)
deriving DecidableEq, Repr

/-- How the types of an operation on one value are written. -/
inductive UnaryTyping where
  /-- With the operand type in parentheses and the result types after an arrow. -/
  | parenthesized (operand : TypeText) (result : TypeGroup)
  /-- With a signature. -/
  | bare (signature : Signature)
deriving DecidableEq, Repr

/-- How the types of an operation on two values are written. -/
inductive BinaryTyping where
  /-- With the operand types in parentheses and the result types after an arrow. -/
  | parenthesized (left right : TypeText) (result : TypeGroup)
  /-- With a signature. -/
  | bare (signature : Signature)
deriving DecidableEq, Repr

/-- The name of a stack slot, with how it is initialised. -/
structure SlotName where
  /-- The name, a string literal. -/
  name : Lexeme
  /-- The kind of initialisation. -/
  init : Option Lexeme
deriving DecidableEq, Repr

/-- Where a call that may throw goes on. -/
inductive TryTarget where
  /-- The exception is stored through a pointer. -/
  | exceptionPointer (pointer : Reference)
  /-- The call branches to one of two blocks. -/
  | successors (normal unwind : Reference)
deriving DecidableEq, Repr

end CirText
