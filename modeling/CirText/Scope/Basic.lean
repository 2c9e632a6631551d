import CirText.Span
import CirText.Text.Quoted

/-!
# Names, scopes and what names refer to

There are three kinds of names: values, block labels and symbols. Scopes form a tree: the module has
one, and every region has one inside that of the region around it. A value can be referred to from
its own scope and from all scopes inside it, a label from its own scope only, and a symbol from
anywhere in the module. A name may be used before its definition.
-/

namespace CirText

/-- The kinds of names. -/
inductive NameKind where
  /-- A value, `%name`. -/
  | value
  /-- A block label, `^name`. -/
  | label
  /-- A function or global of the module, `@name`. -/
  | symbol
deriving DecidableEq, Repr

namespace NameKind

/-- The character that a name of the kind is written with. -/
def sigil : NameKind → Char
  | value => '%'
  | label => '^'
  | symbol => '@'

/-- The kind in one word. -/
def name : NameKind → String
  | value => "value"
  | label => "label"
  | symbol => "symbol"

end NameKind

/-- Whether a symbol name can be written without quotes. -/
def isPlainName (name : List Char) : Bool :=
  !name.isEmpty &&
    name.all fun c => c.isAlphanum || c == '_' || c == '$' || c == '.' || c == '-'

/-- The way a name is written in source text. Symbols that are not plain are quoted. -/
def NameKind.spelling (kind : NameKind) (name : String) : String :=
  if kind ≠ .symbol ∨ isPlainName name.toList then
    String.ofList (kind.sigil :: name.toList)
  else
    String.ofList (kind.sigil :: Text.Quoted.encode name.toList)

/-- The number of a scope. The module has number zero, and numbers are given in the order in which
scopes are opened. -/
abbrev ScopeId := Nat

/-- The scope of the module. -/
def ScopeId.root : ScopeId := 0

/-- A use of a name. -/
structure Reference where
  /-- The kind of name. -/
  kind : NameKind
  /-- The name without its sigil. -/
  name : String
  /-- Where the name stands. -/
  span : Span
  /-- The scope in which it is used. -/
  scope : ScopeId
deriving DecidableEq, Repr

/-- The reference as written in source text. -/
def Reference.spelling (reference : Reference) : String :=
  reference.kind.spelling reference.name

/-- A place that gives a name its meaning. -/
structure Definition where
  /-- The kind of name. -/
  kind : NameKind
  /-- The name without its sigil. -/
  name : String
  /-- Where the name stands. -/
  span : Span
  /-- The scope that the name belongs to. -/
  scope : ScopeId
deriving DecidableEq, Repr

/-- The defined name as written in source text. -/
def Definition.spelling (definition : Definition) : String :=
  definition.kind.spelling definition.name

/-- The definition of a name in a list of definitions. -/
def findName (name : String) (definitions : List Definition) : Option Definition :=
  definitions.find? fun definition => definition.name == name

/-- One scope with the names that it defines. -/
structure Scope where
  /-- The scope around it; only the module has none. -/
  parent : Option ScopeId := none
  /-- The values, newest first. -/
  values : List Definition := []
  /-- The labels, newest first. -/
  labels : List Definition := []
deriving Repr

/-- All scopes of a module and its symbols. -/
structure SymbolTable where
  /-- The scopes by number. -/
  scopes : Array Scope
  /-- The symbols of the module, newest first. -/
  symbols : List Definition
deriving Repr

namespace SymbolTable

/-- The table of a module in which nothing is defined yet. -/
def empty : SymbolTable where
  scopes := #[{}]
  symbols := []

/-- The scope with the given number. -/
def scope (table : SymbolTable) (id : ScopeId) : Scope :=
  table.scopes.getD id {}

/-- The scopes around a scope, from the inside outwards. Scopes are opened after the ones around
them, so the numbers decrease. -/
def enclosing (table : SymbolTable) (id : ScopeId) : List ScopeId :=
  match (table.scope id).parent with
  | none => []
  | some parent => if parent < id then parent :: table.enclosing parent else []

/-- A scope and the scopes around it, from the inside outwards. -/
def chain (table : SymbolTable) (id : ScopeId) : List ScopeId :=
  id :: table.enclosing id

/-- The value of a name in one scope. -/
def valueIn (table : SymbolTable) (name : String) (id : ScopeId) : Option Definition :=
  findName name (table.scope id).values

/-- The label of a name in one scope. -/
def labelIn (table : SymbolTable) (name : String) (id : ScopeId) : Option Definition :=
  findName name (table.scope id).labels

/-- The symbol of a name. -/
def symbol (table : SymbolTable) (name : String) : Option Definition :=
  findName name table.symbols

/-- The definition that a reference points to: the nearest one for a value, the one in the same
scope for a label, the one of the module for a symbol. -/
def resolve (table : SymbolTable) (reference : Reference) : Option Definition :=
  match reference.kind with
  | .value => (table.chain reference.scope).findSome? (table.valueIn reference.name)
  | .label => table.labelIn reference.name reference.scope
  | .symbol => table.symbol reference.name

/-- The nearest label of a name in the scopes around a scope. -/
def labelAround (table : SymbolTable) (name : String) (id : ScopeId) : Option Definition :=
  (table.enclosing id).findSome? (table.labelIn name)

/-- Adds a definition to the scope that it names, or to the symbols of the module. -/
def insert (table : SymbolTable) (definition : Definition) : SymbolTable :=
  match definition.kind with
  | .value =>
    { table with
      scopes := table.scopes.modify definition.scope fun scope =>
        { scope with values := definition :: scope.values } }
  | .label =>
    { table with
      scopes := table.scopes.modify definition.scope fun scope =>
        { scope with labels := definition :: scope.labels } }
  | .symbol => { table with symbols := definition :: table.symbols }

end SymbolTable

end CirText
