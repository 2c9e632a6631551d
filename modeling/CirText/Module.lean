import CirText.Operation.Walk

/-!
# Modules

What a source unit denotes: an optional header, the functions and globals of the module, and the
table of its scopes and symbols.
-/

namespace CirText

/-- The start of a module that is written with braces, `module @name attributes {...}`. -/
structure ModuleHeader where
  /-- The name. -/
  name : Option Lexeme
  /-- The attributes, a dictionary. -/
  attributes : Option AttributeText
  /-- The header without the braces of the module. -/
  span : Span

/-- A source unit that has been read. -/
structure Module where
  /-- The name of the source unit. -/
  sourceId : String
  /-- The header, if the module is written with braces. -/
  header : Option ModuleHeader
  /-- The functions and globals. -/
  items : List Operation
  /-- The scopes and symbols. -/
  symbols : SymbolTable

namespace Module

/-- All operations of the module in source order. -/
def preorder (unit : Module) : List Operation :=
  unit.items.flatMap Operation.preorder

/-- Walks over all operations of the module. -/
def walk {α : Type} (visit : Operation → Visit α) (unit : Module) : Tour α :=
  Operation.walkAll visit unit.items

/-- The operation with the given number. -/
def operation? (id : Nat) (unit : Module) : Option Operation :=
  (unit.walk fun op => if op.id = id then .stop op else .advance).answer

/-- The forms of all operations by number. Of two operations with one number the later counts. -/
def forms (unit : Module) : List (Nat × Form) :=
  unit.preorder.foldl (fun forms op => insert op.id op.form forms) []
where
  /-- Sets the form of a number in a list that is ordered by number. -/
  insert (id : Nat) (form : Form) : List (Nat × Form) → List (Nat × Form)
    | [] => [(id, form)]
    | (other, otherForm) :: rest =>
      if id < other then (id, form) :: (other, otherForm) :: rest
      else if id = other then (id, form) :: rest
      else (other, otherForm) :: insert id form rest

end Module

end CirText
