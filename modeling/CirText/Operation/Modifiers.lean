import CirText.Operation.Parts

/-!
# Modifiers

Records of the keyword modifiers that functions, calls, memory accesses and globals take. In source
text they may come in any order; a record says which of them are there and with which argument.
-/

namespace CirText

/-- How a symbol is visible to other modules. -/
inductive Linkage where
  | linkonceOdr
  | private_
  | internal
  | external
  | weak
deriving DecidableEq, Repr

namespace Linkage

/-- The keyword of a linkage. -/
def keyword : Linkage → String
  | linkonceOdr => "linkonce_odr"
  | private_ => "private"
  | internal => "internal"
  | external => "external"
  | weak => "weak"

/-- All linkages. -/
def all : List Linkage :=
  [linkonceOdr, private_, internal, external, weak]

/-- The linkage that a keyword names. -/
def ofKeyword? (word : String) : Option Linkage :=
  all.find? fun linkage => linkage.keyword == word

end Linkage

/-- How a thread-local global is reached. -/
inductive TlsModel where
  | dynamic
  | localDynamic
  | initialExec
  | localExec
deriving DecidableEq, Repr

namespace TlsModel

/-- The keyword of a model. -/
def keyword : TlsModel → String
  | dynamic => "tls_dyn"
  | localDynamic => "tls_local_dyn"
  | initialExec => "tls_init_exec"
  | localExec => "tls_local_exec"

/-- All models. -/
def all : List TlsModel :=
  [dynamic, localDynamic, initialExec, localExec]

/-- The model that a keyword names. -/
def ofKeyword? (word : String) : Option TlsModel :=
  all.find? fun model => model.keyword == word

end TlsModel

/-- The address space of a global. -/
inductive AddressSpace where
  /-- An address space of the source language, by name. -/
  | lang (name : Lexeme)
  /-- An address space of the target machine, by number. -/
  | target (number : Lexeme)
deriving DecidableEq, Repr

/-- The modifiers before the name of a function. -/
structure FunctionModifiers where
  noInline : Bool := false
  optnone : Bool := false
  dsoLocal : Bool := false
  comdat : Bool := false
  coroutine : Bool := false
  linkage : Option Linkage := none
deriving DecidableEq, Repr

/-- The modifiers after the signature of a function. -/
structure FunctionTraits where
  /-- The calling convention. -/
  callingConvention : Option Lexeme := none
  /-- The symbol for which the function is another name. -/
  aliasFor : Option Reference := none
  /-- Whether the function is a global constructor, with its priority if one is given. -/
  globalCtor : Option (Option Lexeme) := none
  /-- Whether the function is a global destructor, with its priority if one is given. -/
  globalDtor : Option (Option Lexeme) := none
  /-- What kind of special member of a class the function is. -/
  specialMember : Option AttributeText := none
deriving DecidableEq, Repr

/-- The modifiers after a call. -/
structure CallModifiers where
  /-- The calling convention. -/
  callingConvention : Option Lexeme := none
  /-- A further attribute. -/
  extra : Option AttributeText := none
  /-- The side effects that the call may have. -/
  sideEffect : Option Lexeme := none
deriving DecidableEq, Repr

/-- The modifiers of loads and stores. -/
structure AccessFlags where
  isVolatile : Bool := false
  alignment : Option Lexeme := none
  atomic : Option Lexeme := none
deriving DecidableEq, Repr

/-- The modifiers before the name of a global. -/
structure GlobalModifiers where
  linkage : Option Linkage := none
  constant : Bool := false
  comdat : Bool := false
  tls : Option TlsModel := none
  addressSpace : Option AddressSpace := none
deriving DecidableEq, Repr

end CirText
