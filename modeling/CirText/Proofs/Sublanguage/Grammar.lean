import CirText.Sublanguage.Reader
import Mathlib.Tactic.Ring

/-!
# The grammar of types and attributes

Types and attributes are described here without a reader. `Derives` is their grammar: a part derives
tokens in front of what comes behind them. Where a group or the type of a literal may be left out,
the next token commits: the group is there exactly if an angle bracket comes next, and the type
exactly if a colon does. A group ends at the first closing bracket, of whatever kind, that brings
the number of open brackets back to zero.
-/

namespace CirText.Reader

/-! ## Groups -/

/-- By how much a token changes the number of open brackets. -/
def weight (token : Token) : Int :=
  (if opensGroup token then 1 else 0) - if closesGroup token then 1 else 0

/-- The number of brackets that are open behind tokens, if none is open in front of them. -/
def nesting (tokens : List Token) : Int :=
  tokens.countP opensGroup - tokens.countP closesGroup

/-- Whether tokens are a group: from an opening bracket to the first bracket behind which no bracket
is open any more. -/
structure IsGroup (opening : Punct) (tokens : List Token) : Prop where
  starts : startsWith opening tokens = true
  closed : nesting tokens = 0
  inside : ∀ count, 0 < count → count < tokens.length → 0 < nesting (tokens.take count)

instance (opening : Punct) (tokens : List Token) : Decidable (IsGroup opening tokens) :=
  decidable_of_iff (startsWith opening tokens = true ∧ nesting tokens = 0 ∧
      ∀ count < tokens.length, 0 < count → 0 < nesting (tokens.take count))
    ⟨fun ⟨starts, closed, inside⟩ =>
      ⟨starts, closed, fun count some fewer => inside count fewer some⟩,
      fun isGroup => ⟨isGroup.starts, isGroup.closed, fun count fewer some =>
        isGroup.inside count some fewer⟩⟩

/-! ## The grammar -/

/-- What types and attributes are made of. -/
inductive Part where
  /-- A type. -/
  | type
  /-- Types in parentheses. -/
  | typeList
  /-- At least one type, up to the closing parenthesis. -/
  | types
  /-- What a function type gives. -/
  | results
  /-- A group in angle brackets that may be left out. -/
  | optionalGroup
  /-- A colon with a type that may be left out. -/
  | optionalType
  /-- An attribute of a form. -/
  | attributeOf (form : AttributeForm)
  /-- The items of an array up to its closing bracket. -/
  | items
  /-- The entries of a dictionary up to its closing brace. -/
  | entries
  /-- An equals sign with the value of an entry, that may be left out. -/
  | optionalValue
deriving DecidableEq, Repr

/-- The grammar: a part derives tokens in front of what comes behind them. -/
inductive Derives : Part → (taken behind : List Token) → Prop where
  | noGroup {behind : List Token} (absent : startsWith .less behind = false) :
      Derives .optionalGroup [] behind
  | someGroup {group behind : List Token} (isGroup : IsGroup .less group) :
      Derives .optionalGroup group behind
  | typeName {name : Token} {group behind : List Token} (isName : name.kind = .typeName)
      (rest : Derives .optionalGroup group behind) : Derives .type (name :: group) behind
  | scalarType {word : Token} {behind : List Token} (isWord : word.kind = .identifier)
      (scalar : isScalarType word.text = true) : Derives .type [word] behind
  | shapedType {word : Token} {group behind : List Token} (isWord : word.kind = .identifier)
      (shaped : isShapedType word.text = true) (isGroup : IsGroup .less group) :
      Derives .type (word :: group) behind
  | functionType {arrow : Token} {inputs outputs behind : List Token}
      (first : Derives .typeList inputs (arrow :: outputs ++ behind))
      (isArrow : arrow.isPunct .arrow = true) (last : Derives .results outputs behind) :
      Derives .type (inputs ++ arrow :: outputs) behind
  | severalResults {taken behind : List Token} (several : Derives .typeList taken behind) :
      Derives .results taken behind
  | oneResult {taken behind : List Token} (one : Derives .type taken behind)
      (noParen : startsWith .leftParen taken = false) : Derives .results taken behind
  | noTypes {opening closing : Token} {behind : List Token}
      (opens : opening.isPunct .leftParen = true) (closes : closing.isPunct .rightParen = true) :
      Derives .typeList [opening, closing] behind
  | someTypes {opening : Token} {taken behind : List Token}
      (opens : opening.isPunct .leftParen = true) (rest : Derives .types taken behind) :
      Derives .typeList (opening :: taken) behind
  | lastType {closing : Token} {taken behind : List Token}
      (last : Derives .type taken (closing :: behind))
      (closes : closing.isPunct .rightParen = true) : Derives .types (taken ++ [closing]) behind
  | nextType {comma : Token} {taken others behind : List Token}
      (first : Derives .type taken (comma :: others ++ behind))
      (isComma : comma.isPunct .comma = true) (rest : Derives .types others behind) :
      Derives .types (taken ++ comma :: others) behind
  | noType {behind : List Token} (absent : startsWith .colon behind = false) :
      Derives .optionalType [] behind
  | someType {colon : Token} {taken behind : List Token} (isColon : colon.isPunct .colon = true)
      (rest : Derives .type taken behind) : Derives .optionalType (colon :: taken) behind
  | named {name : Token} {group suffix behind : List Token} (isName : name.kind = .attributeName)
      (first : Derives .optionalGroup group (suffix ++ behind))
      (last : Derives .optionalType suffix behind) :
      Derives (.attributeOf .value) (name :: group ++ suffix) behind
  | literal {token : Token} {suffix behind : List Token}
      (isLiteral : token.kind = .integer ∨ token.kind = .float ∨ token.kind = .string)
      (rest : Derives .optionalType suffix behind) :
      Derives (.attributeOf .value) (token :: suffix) behind
  | symbolName {name : Token} {behind : List Token} (isSymbol : name.kind = .symbol) :
      Derives (.attributeOf .value) [name] behind
  | valueWord {word : Token} {behind : List Token} (isWord : word.kind = .identifier)
      (isValue : isValueWord word.text = true) : Derives (.attributeOf .value) [word] behind
  | elements {word : Token} {group suffix behind : List Token} (isWord : word.kind = .identifier)
      (isElements : isElementsWord word.text = true) (isGroup : IsGroup .less group)
      (last : Derives .optionalType suffix behind) :
      Derives (.attributeOf .value) (word :: group ++ suffix) behind
  | location {word : Token} {group behind : List Token} (isWord : word.kind = .identifier)
      (isLocation : word.text = "loc") (isGroup : IsGroup .leftParen group) :
      Derives (.attributeOf .value) (word :: group) behind
  | array {opening : Token} {taken behind : List Token}
      (opens : opening.isPunct .leftBracket = true)
      (rest : Derives .items taken behind) : Derives (.attributeOf .value) (opening :: taken) behind
  | dictionaryValue {taken behind : List Token}
      (dictionary : Derives (.attributeOf .dictionary) taken behind) :
      Derives (.attributeOf .value) taken behind
  | typeValue {taken behind : List Token} (isType : Derives .type taken behind) :
      Derives (.attributeOf .value) taken behind
  | noItems {closing : Token} {behind : List Token}
      (closes : closing.isPunct .rightBracket = true) :
      Derives .items [closing] behind
  | lastItem {closing : Token} {taken behind : List Token}
      (last : Derives (.attributeOf .value) taken (closing :: behind))
      (closes : closing.isPunct .rightBracket = true) : Derives .items (taken ++ [closing]) behind
  | nextItem {comma : Token} {taken others behind : List Token}
      (first : Derives (.attributeOf .value) taken (comma :: others ++ behind))
      (isComma : comma.isPunct .comma = true) (rest : Derives .items others behind) :
      Derives .items (taken ++ comma :: others) behind
  | dictionary {opening : Token} {taken behind : List Token}
      (opens : opening.isPunct .leftBrace = true) (rest : Derives .entries taken behind) :
      Derives (.attributeOf .dictionary) (opening :: taken) behind
  | noEntries {closing : Token} {behind : List Token}
      (closes : closing.isPunct .rightBrace = true) :
      Derives .entries [closing] behind
  | lastEntry {name closing : Token} {taken behind : List Token} (isName : isEntryName name = true)
      (last : Derives .optionalValue taken (closing :: behind))
      (closes : closing.isPunct .rightBrace = true) :
      Derives .entries (name :: taken ++ [closing]) behind
  | nextEntry {name comma : Token} {taken others behind : List Token}
      (isName : isEntryName name = true)
      (first : Derives .optionalValue taken (comma :: others ++ behind))
      (isComma : comma.isPunct .comma = true) (rest : Derives .entries others behind) :
      Derives .entries (name :: taken ++ comma :: others) behind
  | noValue {behind : List Token} (absent : startsWith .equal behind = false) :
      Derives .optionalValue [] behind
  | someValue {equal : Token} {taken behind : List Token} (isEqual : equal.isPunct .equal = true)
      (rest : Derives (.attributeOf .value) taken behind) :
      Derives .optionalValue (equal :: taken) behind
  | dialect {name : Token} {group behind : List Token} (isName : name.kind = .attributeName)
      (qualified : name.text.toList.contains '.' = true ∨ group ≠ [])
      (rest : Derives .optionalGroup group behind) :
      Derives (.attributeOf .dialect) (name :: group) behind
  | aliasName {name : Token} {behind : List Token} (isName : name.kind = .attributeName)
      (plain : name.text.toList.contains '.' = false) (absent : startsWith .less behind = false) :
      Derives (.attributeOf .aliasName) [name] behind

end CirText.Reader
