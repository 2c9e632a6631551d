import CirText.Opcode
import CirText.Operation.Modifiers

/-!
# Operations with regions

`Compound R` has one constructor for each operation that can contain regions. The type `R` of
regions is a parameter, so that the same description serves for what stands in source text, for what
is computed from it region by region, and for what is printed.
-/

namespace CirText

/-- A parameter of a function; it has a name only if the body can refer to it. -/
structure Parameter where
  /-- The name. -/
  name : Option Definition
  /-- The type. -/
  type : TypeText
  /-- Further attributes. -/
  attributes : Option AttributeText
deriving DecidableEq, Repr

/-- A function of the module. -/
structure Function (R : Type) where
  /-- The modifiers before the name. -/
  modifiers : FunctionModifiers
  /-- The name. -/
  name : Definition
  /-- The parameters. -/
  parameters : List Parameter
  /-- Whether further arguments are accepted. -/
  variadic : Bool
  /-- The result types. -/
  result : Option TypeGroup
  /-- The modifiers after the signature. -/
  traits : FunctionTraits
  /-- The annotations in brackets. -/
  annotations : Option (List AttributeText)
  /-- Further attributes. -/
  attributes : Option AttributeText
  /-- The body; a declaration has none. -/
  body : Option R

/-- How a global gets its initial value. -/
inductive Initializer (R : Type) where
  /-- By running a constructor, perhaps with a destructor for the end of the program. -/
  | constructed (type : TypeText) (ctor : R) (dtor : Option R)
  /-- By a destructor alone. -/
  | destructed (type : TypeText) (dtor : R)
  /-- From an attribute. -/
  | given (value : AttributeText)

/-- A global variable of the module. -/
structure Global (R : Type) where
  /-- The visibility, a string literal. -/
  visibility : Option Lexeme
  /-- The modifiers before the name. -/
  modifiers : GlobalModifiers
  /-- The name. -/
  name : Definition
  /-- The initial value. -/
  init : Option (Initializer R)
  /-- The type. -/
  result : Option (List TypeText)
  /-- The annotations in brackets. -/
  annotations : Option (List AttributeText)

/-- A handler for exceptions. -/
structure Handler (R : Type) where
  /-- Whether the exception is given as a type. -/
  typed : Bool
  /-- Which exceptions are handled. -/
  handled : AttributeText
  /-- The handler. -/
  region : R
  /-- Whether a comma follows. -/
  trailingComma : Bool

/-- An operation that can contain regions. -/
inductive Compound (R : Type) where
  | func (function : Function R)
  | global (decl : Global R)
  | ifElse (cond : Reference) (thenRegion : R) (elseRegion : Option R)
      (result : Option (List TypeText))
  | scope (body : R) (cleanup : Option R) (result : Option (List TypeText))
  | loop (kind : Lexeme) (cond : Option R) (body : R) (step : Option R)
      (result : Option (List TypeText))
  | forLoop (cond body step : R)
  | whileLoop (cond body : R)
  | doWhile (body cond : R)
  | await (kind : Lexeme) (ready suspend resume : R)
  | tryCatch (body : R) (clauses : Option (List (Handler R))) (cleanup : Option R)
  | switch (cond : TypedValue) (body : R)
  | caseArm (kind : Lexeme) (values : List AttributeText) (body : R)
  | ternary (cond : Reference) (trueRegion falseRegion : R) (signature : Signature)

variable {R S : Type}

/-! ## Regions -/

/-- The regions of an initial value in source order. -/
def Initializer.regions : Initializer R → List R
  | constructed _ ctor dtor => ctor :: dtor.toList
  | destructed _ dtor => [dtor]
  | given _ => []

namespace Compound

/-- The operation code. -/
def opcode : Compound R → Opcode
  | func _ => .func
  | global _ => .global
  | ifElse .. => .ifElse
  | scope .. => .scope
  | loop .. => .loop
  | forLoop .. => .forLoop
  | whileLoop .. => .whileLoop
  | doWhile .. => .doWhile
  | await .. => .await
  | tryCatch .. => .tryCatch
  | switch .. => .switch
  | caseArm .. => .caseArm
  | ternary .. => .ternary

/-- The regions of the operation in source order. -/
def regions : Compound R → List R
  | func function => function.body.toList
  | global decl => (decl.init.map Initializer.regions).getD []
  | ifElse _ thenRegion elseRegion _ => thenRegion :: elseRegion.toList
  | scope body cleanup _ => body :: cleanup.toList
  | loop _ cond body step _ => cond.toList ++ body :: step.toList
  | forLoop cond body step => [cond, body, step]
  | whileLoop cond body => [cond, body]
  | doWhile body cond => [body, cond]
  | await _ ready suspend resume => [ready, suspend, resume]
  | tryCatch body clauses cleanup =>
    body :: (clauses.getD []).map (·.region) ++ cleanup.toList
  | switch _ body => [body]
  | caseArm _ _ body => [body]
  | ternary _ trueRegion falseRegion _ => [trueRegion, falseRegion]

/-- The names that the operation itself refers to, not counting its regions. -/
def references : Compound R → List Reference
  | func function => function.traits.aliasFor.toList
  | ifElse cond .. => [cond]
  | switch cond _ => [cond.value]
  | ternary cond .. => [cond]
  | global _ | scope .. | loop .. | forLoop .. | whileLoop .. | doWhile .. | await ..
  | tryCatch .. | caseArm .. => []

end Compound

/-! ## Replacing regions -/

/-- Replaces the regions of an initial value. -/
def Initializer.mapMem (init : Initializer R) (f : (region : R) → region ∈ init.regions → S) :
    Initializer S :=
  match init with
  | constructed type ctor dtor =>
    .constructed type (f ctor (by simp [regions]))
      (dtor.attach.map fun ⟨region, h⟩ => f region (by simp [regions, h]))
  | destructed type dtor => .destructed type (f dtor (by simp [regions]))
  | given value => .given value

/-- Replaces the regions of an operation. The function may use that a region is one of them. -/
def Compound.mapMem (compound : Compound R) (f : (region : R) → region ∈ compound.regions → S) :
    Compound S :=
  match compound with
  | func function =>
    .func { function with
      body := function.body.attach.map fun ⟨region, h⟩ => f region (by simp [regions, h]) }
  | global decl =>
    .global { decl with
      init := decl.init.attach.map fun ⟨init, h⟩ =>
        init.mapMem fun region member => f region (by simp [regions, h, member]) }
  | ifElse cond thenRegion elseRegion result =>
    .ifElse cond (f thenRegion (by simp [regions]))
      (elseRegion.attach.map fun ⟨region, h⟩ => f region (by simp [regions, h])) result
  | scope body cleanup result =>
    .scope (f body (by simp [regions]))
      (cleanup.attach.map fun ⟨region, h⟩ => f region (by simp [regions, h])) result
  | loop kind cond body step result =>
    .loop kind (cond.attach.map fun ⟨region, h⟩ => f region (by simp [regions, h]))
      (f body (by simp [regions]))
      (step.attach.map fun ⟨region, h⟩ => f region (by simp [regions, h])) result
  | forLoop cond body step =>
    .forLoop (f cond (by simp [regions])) (f body (by simp [regions])) (f step (by simp [regions]))
  | whileLoop cond body => .whileLoop (f cond (by simp [regions])) (f body (by simp [regions]))
  | doWhile body cond => .doWhile (f body (by simp [regions])) (f cond (by simp [regions]))
  | await kind ready suspend resume =>
    .await kind (f ready (by simp [regions])) (f suspend (by simp [regions]))
      (f resume (by simp [regions]))
  | tryCatch body clauses cleanup =>
    .tryCatch (f body (by simp [regions]))
      (clauses.attach.map fun ⟨list, h⟩ =>
        list.attach.map fun ⟨clause, member⟩ =>
          { clause with
            region := f clause.region (by
              simp only [regions, h, Option.getD_some]
              exact List.mem_append_left _ (List.mem_cons_of_mem _ (List.mem_map_of_mem member))) })
      (cleanup.attach.map fun ⟨region, h⟩ => f region (by simp [regions, h]))
  | switch cond body => .switch cond (f body (by simp [regions]))
  | caseArm kind values body => .caseArm kind values (f body (by simp [regions]))
  | ternary cond trueRegion falseRegion signature =>
    .ternary cond (f trueRegion (by simp [regions])) (f falseRegion (by simp [regions])) signature

end CirText
