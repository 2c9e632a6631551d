import CirText.Operation.Modifiers

/-!
# Modifier tables

A run of modifiers is a run of keywords, some with an argument in brackets, in any order. Which ones
may come is said by a table. Every modifier fills a slot, and each slot can be filled once:
`private` and `weak` fill the same one.

A table also says how a run of modifiers is collected into a record, and in which order the
modifiers of a record are written.
-/

namespace CirText

/-- What the argument of a modifier has to be. -/
inductive ArgumentKind where
  /-- A bare word. -/
  | word
  /-- An integer. -/
  | integer
  /-- The name of a symbol. -/
  | symbol
  /-- An attribute alias or an attribute of a dialect. -/
  | attribute
deriving DecidableEq, Repr

/-- How the argument of a modifier is written. -/
structure ArgumentSyntax where
  /-- What it has to be. -/
  kind : ArgumentKind
  /-- Whether it can be left out together with its brackets. -/
  optional : Bool := false
  /-- Whether its brackets are angled. -/
  angled : Bool := false
deriving DecidableEq, Repr

/-- The bracket before the argument. -/
def ArgumentSyntax.opening (arg : ArgumentSyntax) : Punct :=
  if arg.angled then .less else .leftParen

/-- The bracket after the argument. -/
def ArgumentSyntax.closing (arg : ArgumentSyntax) : Punct :=
  if arg.angled then .greater else .rightParen

/-- One entry of a modifier table. -/
structure ModifierRule where
  /-- The keyword. -/
  keyword : String
  /-- The slot that it fills. -/
  slot : String
  /-- The argument that it takes, if it takes one. -/
  argument : Option ArgumentSyntax := none
deriving DecidableEq, Repr

/-- An argument of a modifier. -/
inductive Argument where
  /-- A word or an integer. -/
  | lexeme (lexeme : Lexeme)
  /-- The name of a symbol. -/
  | symbol (reference : Reference)
  /-- An attribute. -/
  | attribute (value : AttributeText)
deriving DecidableEq, Repr

/-- The argument as written. -/
def Argument.text : Argument → String
  | .lexeme word => word.text
  | .symbol reference => reference.spelling
  | .attribute value => value.text

/-- A modifier in source text. -/
structure Modifier where
  /-- Its entry in the table. -/
  rule : ModifierRule
  /-- Its argument. -/
  argument : Option Argument := none
deriving DecidableEq, Repr

/-- The modifiers that may come at one place, and the record that they are collected into. -/
structure ModifierTable (S : Type) where
  /-- The entries. -/
  rules : List ModifierRule
  /-- The record of a run of modifiers in which no slot is filled twice. -/
  collect : List Modifier → S
  /-- The modifiers of a record in the order in which they are written. -/
  list : S → List Modifier

namespace ModifierTable

/-! ## Entries -/

/-- A keyword with a slot of its own and without an argument. -/
def flag (keyword : String) : ModifierRule :=
  { keyword, slot := keyword }

/-- A keyword that shares its slot with others. -/
def oneOf (slot keyword : String) : ModifierRule :=
  { keyword, slot : ModifierRule }

/-- A keyword with a slot of its own and an argument. -/
def withArgument (keyword : String) (kind : ArgumentKind) : ModifierRule :=
  { keyword, slot := keyword, argument := some { kind : ArgumentSyntax } }

/-- A keyword with a slot of its own and an argument that can be left out. -/
def withOptionalArgument (keyword : String) (kind : ArgumentKind) : ModifierRule :=
  { keyword, slot := keyword, argument := some { kind, optional := true } }

/-- The keyword of a linkage. -/
def linkage (value : Linkage) : ModifierRule :=
  oneOf "linkage" value.keyword

/-- The keyword of a thread-local model. -/
def tls (value : TlsModel) : ModifierRule :=
  oneOf "tls" value.keyword

/-- The keyword for an address space of the source language. -/
def langAddressSpace : ModifierRule :=
  { withArgument "lang_address_space" .word with slot := "address space" }

/-- The keyword for an address space of the target machine. -/
def targetAddressSpace : ModifierRule :=
  { withArgument "target_address_space" .integer with slot := "address space" }

/-- The keyword for the kind of a special member. -/
def specialMember : ModifierRule :=
  { keyword := "special_member", slot := "special_member",
    argument := some { kind := .attribute, angled := true } }

/-! ## Looking into a run of modifiers -/

/-- The modifier with a keyword. -/
def get? (modifiers : List Modifier) (keyword : String) : Option Modifier :=
  modifiers.find? fun modifier => modifier.rule.keyword == keyword

/-- Whether there is a modifier with the keyword. -/
def has (modifiers : List Modifier) (keyword : String) : Bool :=
  (get? modifiers keyword).isSome

/-- The modifier that fills a slot. -/
def filling? (modifiers : List Modifier) (slot : String) : Option Modifier :=
  modifiers.find? fun modifier => modifier.rule.slot == slot

/-- The word or integer given with a keyword. -/
def lexeme? (modifiers : List Modifier) (keyword : String) : Option Lexeme :=
  match (get? modifiers keyword).bind (·.argument) with
  | some (.lexeme word) => some word
  | _ => none

/-- The symbol given with a keyword. -/
def symbol? (modifiers : List Modifier) (keyword : String) : Option Reference :=
  match (get? modifiers keyword).bind (·.argument) with
  | some (.symbol reference) => some reference
  | _ => none

/-- The attribute given with a keyword. -/
def attribute? (modifiers : List Modifier) (keyword : String) : Option AttributeText :=
  match (get? modifiers keyword).bind (·.argument) with
  | some (.attribute value) => some value
  | _ => none

/-- Whether a keyword is there, and the word or integer given with it. -/
def lexemeIfGiven? (modifiers : List Modifier) (keyword : String) : Option (Option Lexeme) :=
  (get? modifiers keyword).map fun _ => lexeme? modifiers keyword

/-- The linkage in a run of modifiers. -/
def linkage? (modifiers : List Modifier) : Option Linkage :=
  (filling? modifiers "linkage").bind fun modifier => Linkage.ofKeyword? modifier.rule.keyword

/-- The thread-local model in a run of modifiers. -/
def tls? (modifiers : List Modifier) : Option TlsModel :=
  (filling? modifiers "tls").bind fun modifier => TlsModel.ofKeyword? modifier.rule.keyword

/-! ## Writing modifiers -/

/-- The modifier without an argument, if it is there. -/
def whenSet (isSet : Bool) (rule : ModifierRule) : List Modifier :=
  if isSet then [{ rule : Modifier }] else []

/-- The modifier with a word or integer, if there is one. -/
def withLexeme (rule : ModifierRule) (word : Option Lexeme) : List Modifier :=
  (word.map fun word => { rule, argument := some (.lexeme word) : Modifier }).toList

/-- The modifier with a symbol, if there is one. -/
def withSymbol (rule : ModifierRule) (reference : Option Reference) : List Modifier :=
  (reference.map fun reference => { rule, argument := some (.symbol reference) : Modifier }).toList

/-- The modifier with an attribute, if there is one. -/
def withAttribute (rule : ModifierRule) (value : Option AttributeText) : List Modifier :=
  (value.map fun value => { rule, argument := some (.attribute value) : Modifier }).toList

/-- The modifier, if it is there, with a word or integer, if there is one. -/
def withOptionalLexeme (rule : ModifierRule) (word : Option (Option Lexeme)) : List Modifier :=
  (word.map fun word => { rule, argument := word.map .lexeme : Modifier }).toList

/-! ## The tables -/

/-- The modifiers before the name of a function. -/
def beforeFunctionName : ModifierTable FunctionModifiers where
  rules :=
    [flag "no_inline", flag "optnone", flag "dso_local", flag "comdat", flag "coroutine",
      linkage .linkonceOdr, linkage .private_, linkage .internal, linkage .external, linkage .weak]
  collect modifiers :=
    { noInline := has modifiers "no_inline"
      optnone := has modifiers "optnone"
      dsoLocal := has modifiers "dso_local"
      comdat := has modifiers "comdat"
      coroutine := has modifiers "coroutine"
      linkage := linkage? modifiers }
  list record :=
    whenSet record.noInline (flag "no_inline") ++
    whenSet record.optnone (flag "optnone") ++
    whenSet record.dsoLocal (flag "dso_local") ++
    whenSet record.comdat (flag "comdat") ++
    whenSet record.coroutine (flag "coroutine") ++
    (record.linkage.map fun value => { rule := linkage value : Modifier }).toList

/-- The modifiers after the signature of a function. -/
def afterFunctionSignature : ModifierTable FunctionTraits where
  rules :=
    [withArgument "cc" .word, withArgument "alias" .symbol,
      withOptionalArgument "global_ctor" .integer, withOptionalArgument "global_dtor" .integer,
      specialMember]
  collect modifiers :=
    { callingConvention := lexeme? modifiers "cc"
      aliasFor := symbol? modifiers "alias"
      globalCtor := lexemeIfGiven? modifiers "global_ctor"
      globalDtor := lexemeIfGiven? modifiers "global_dtor"
      specialMember := attribute? modifiers "special_member" }
  list record :=
    withLexeme (withArgument "cc" .word) record.callingConvention ++
    withSymbol (withArgument "alias" .symbol) record.aliasFor ++
    withOptionalLexeme (withOptionalArgument "global_ctor" .integer) record.globalCtor ++
    withOptionalLexeme (withOptionalArgument "global_dtor" .integer) record.globalDtor ++
    withAttribute specialMember record.specialMember

/-- The record of the modifiers after a call. -/
def collectCall (modifiers : List Modifier) : CallModifiers where
  callingConvention := lexeme? modifiers "cc"
  extra := attribute? modifiers "extra"
  sideEffect := lexeme? modifiers "side_effect"

/-- The modifiers after a call as they are written. -/
def listCall (record : CallModifiers) : List Modifier :=
  withLexeme (withArgument "cc" .word) record.callingConvention ++
  withAttribute (withArgument "extra" .attribute) record.extra ++
  withLexeme (withArgument "side_effect" .word) record.sideEffect

/-- The modifiers after a call. -/
def afterCall : ModifierTable CallModifiers where
  rules :=
    [withArgument "cc" .word, withArgument "extra" .attribute, withArgument "side_effect" .word]
  collect := collectCall
  list := listCall

/-- The modifiers after a call that may throw, which cannot declare its side effects. -/
def afterTryCall : ModifierTable CallModifiers where
  rules := [withArgument "cc" .word, withArgument "extra" .attribute]
  collect := collectCall
  list := listCall

/-- The modifiers of loads and stores. -/
def ofMemoryAccess : ModifierTable AccessFlags where
  rules := [flag "volatile", withArgument "align" .integer, withArgument "atomic" .word]
  collect modifiers :=
    { isVolatile := has modifiers "volatile"
      alignment := lexeme? modifiers "align"
      atomic := lexeme? modifiers "atomic" }
  list record :=
    whenSet record.isVolatile (flag "volatile") ++
    withLexeme (withArgument "align" .integer) record.alignment ++
    withLexeme (withArgument "atomic" .word) record.atomic

/-- The address space in a run of modifiers. -/
def addressSpace? (modifiers : List Modifier) : Option AddressSpace :=
  match lexeme? modifiers "lang_address_space" with
  | some name => some (.lang name)
  | none => (lexeme? modifiers "target_address_space").map .target

/-- The modifier for an address space. -/
def ofAddressSpace : AddressSpace → Modifier
  | .lang name => { rule := langAddressSpace, argument := some (.lexeme name) }
  | .target number => { rule := targetAddressSpace, argument := some (.lexeme number) }

/-- The modifiers before the name of a global. -/
def beforeGlobalName : ModifierTable GlobalModifiers where
  rules :=
    [linkage .external, linkage .internal, linkage .private_, linkage .weak, flag "constant",
      flag "comdat", tls .dynamic, tls .localDynamic, tls .initialExec, tls .localExec,
      langAddressSpace, targetAddressSpace]
  collect modifiers :=
    { linkage := linkage? modifiers
      constant := has modifiers "constant"
      comdat := has modifiers "comdat"
      tls := tls? modifiers
      addressSpace := addressSpace? modifiers }
  list record :=
    (record.linkage.map fun value => { rule := linkage value : Modifier }).toList ++
    whenSet record.constant (flag "constant") ++
    whenSet record.comdat (flag "comdat") ++
    (record.tls.map fun value => { rule := tls value : Modifier }).toList ++
    (record.addressSpace.map ofAddressSpace).toList

end ModifierTable

end CirText
