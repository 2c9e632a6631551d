import CirText.Grammar.Body

/-!
# Computing values

Constants, conversions, arithmetic, comparisons and operations on bits.
-/

namespace CirText.Grammar

variable {R : Type}

/-! ## Constants -/

/-- A constant, an attribute and its type, `cir.const attribute attribute : types`. -/
def constOf (constant : Grammar R AttributeText) : Grammar R (Body R) :=
  view
    { build := fun (constant, extra, result) => ⟨.instruction (.const constant result), extra⟩
      read := fun
        | ⟨.instruction (.const constant result), extra⟩ => some (constant, extra, result)
        | _ => none } <|
  seq (spaced constant) <|
  seq trailingAttribute <|
  annotation

/-! ## Conversions -/

/-- A conversion with its types, `cir.cast(kind, %v : source) attribute, result`. -/
def castInParens : Grammar R (Body R) :=
  view
    { build := fun ((kind, operand), extra, result) =>
        ⟨.instruction (.cast kind operand.value (.parenthesized operand.type result)), extra⟩
      read := fun
        | ⟨.instruction (.cast kind operand (.parenthesized source result)), extra⟩ =>
          some ((kind, ⟨operand, source⟩), extra, result)
        | _ => none } <|
  seq (parens (seq (identifier "a cast kind") (comma typedValue))) <|
  seq trailingAttribute <|
  comma type

/-- A conversion, `cir.cast kind %v attribute : signature`. -/
def castBare : Grammar R (Body R) :=
  view
    { build := fun (kind, operand, extra, typing) =>
        ⟨.instruction (.cast kind operand (.bare typing)), extra⟩
      read := fun
        | ⟨.instruction (.cast kind operand (.bare typing)), extra⟩ =>
          some (kind, operand, extra, typing)
        | _ => none } <|
  seq (spaced (identifier "a cast kind")) <|
  seq (spaced value) <|
  seq trailingAttribute <|
  recommended .cast "bare `cir.cast` without a type annotation" optionalSignature

/-- The kind of a checked conversion, and whether it relies on a relative layout. -/
def dynCastKind : Grammar R (Lexeme × Bool) :=
  seq (oneOf ["ptr", "ref"] "`ptr` or `ref`") (optionalWord "relative_layout")

/-- A checked conversion with its operand type,
`cir.dyn_cast(kind, %v : source, attribute) -> result`. -/
def dynCastInParens : Grammar R (Body R) :=
  view
    { build := fun (((kind, relative), operand, info), result) =>
        ⟨.instruction (.dynCast kind relative operand.value
          (.parenthesized operand.type result) info), none⟩
      read := fun
        | ⟨.instruction (.dynCast kind relative operand (.parenthesized source result) info),
            none⟩ =>
          some (((kind, relative), ⟨operand, source⟩, info), result)
        | _ => none } <|
  seq
    (parens <|
      seq dynCastKind <|
      seq (comma typedValue) <|
      optional (.punct .comma) (comma namedAttribute)) <|
  resultTypes

/-- A checked conversion, `cir.dyn_cast kind %v : signature attribute`. -/
def dynCastBare : Grammar R (Body R) :=
  view
    { build := fun ((kind, relative), operand, typing, info) =>
        ⟨.instruction (.dynCast kind relative operand (.bare typing) info), none⟩
      read := fun
        | ⟨.instruction (.dynCast kind relative operand (.bare typing) info), none⟩ =>
          some ((kind, relative), operand, typing, info)
        | _ => none } <|
  seq (spaced dynCastKind) <|
  seq (spaced value) <|
  seq signature <|
  optional (.kind .attributeName) (spaced namedAttribute)

/-! ## Arithmetic -/

/-- An operation on two values, `cir.binop(kind, %l, %r) attribute : types`. -/
def binop : Grammar R (Body R) :=
  view
    { build := fun ((kind, left, right), extra, result) =>
        ⟨.instruction (.binop kind left right result), extra⟩
      read := fun
        | ⟨.instruction (.binop kind left right result), extra⟩ =>
          some ((kind, left, right), extra, result)
        | _ => none } <|
  seq (parens (seq (identifier "a binary operation kind") (seq (comma value) (comma value)))) <|
  seq trailingAttribute <|
  annotation

/-- A comparison, `cir.cmp(predicate, %l, %r) attribute : types`. -/
def cmp : Grammar R (Body R) :=
  view
    { build := fun ((predicate, left, right), extra, result) =>
        ⟨.instruction (.cmp predicate left right result), extra⟩
      read := fun
        | ⟨.instruction (.cmp predicate left right result), extra⟩ =>
          some ((predicate, left, right), extra, result)
        | _ => none } <|
  seq (parens (seq (identifier "a comparison predicate") (seq (comma value) (comma value)))) <|
  seq trailingAttribute <|
  annotation

/-- An operation on one value, `cir.unary(kind, %v) attribute : types`. -/
def unary : Grammar R (Body R) :=
  view
    { build := fun ((kind, operand), extra, result) =>
        ⟨.instruction (.unary kind operand result), extra⟩
      read := fun
        | ⟨.instruction (.unary kind operand result), extra⟩ =>
          some ((kind, operand), extra, result)
        | _ => none } <|
  seq (parens (seq (identifier "a unary operation kind") (comma value))) <|
  seq trailingAttribute <|
  annotation

/-- A choice between two values, `cir.select %c, %t, %f attribute : types`. -/
def select : Grammar R (Body R) :=
  view
    { build := fun (cond, trueValue, falseValue, extra, result) =>
        ⟨.instruction (.select cond trueValue falseValue result), extra⟩
      read := fun
        | ⟨.instruction (.select cond trueValue falseValue result), extra⟩ =>
          some (cond, trueValue, falseValue, extra, result)
        | _ => none } <|
  seq (spaced value) <|
  seq (comma value) <|
  seq (comma value) <|
  seq trailingAttribute <|
  annotation

/-! ## Bits and sizes -/

/-- A shift with its operand types, `cir.shift(direction, %l : type, %r : type) attribute ->
result`. -/
def shiftInParens : Grammar R (Body R) :=
  view
    { build := fun ((direction, left, right), extra, result) =>
        ⟨.instruction (.shift direction left.value right.value
          (.parenthesized left.type right.type result)), extra⟩
      read := fun
        | ⟨.instruction (.shift direction left right
            (.parenthesized leftType rightType result)), extra⟩ =>
          some ((direction, ⟨left, leftType⟩, ⟨right, rightType⟩), extra, result)
        | _ => none } <|
  seq
    (parens <|
      seq (identifier "a shift direction") <|
      seq (comma typedValue) (comma typedValue)) <|
  seq trailingAttribute <|
  resultTypes

/-- A shift, `cir.shift direction %l, %r attribute : signature`. -/
def shiftBare : Grammar R (Body R) :=
  view
    { build := fun (direction, left, right, extra, typing) =>
        ⟨.instruction (.shift direction left right (.bare typing)), extra⟩
      read := fun
        | ⟨.instruction (.shift direction left right (.bare typing)), extra⟩ =>
          some (direction, left, right, extra, typing)
        | _ => none } <|
  seq (spaced (identifier "a shift direction")) <|
  seq (spaced value) <|
  seq (comma value) <|
  seq trailingAttribute <|
  signature

/-- The size of an object with its operand type, `cir.objsize(kind, %v : type) attribute ->
result`. -/
def objsizeInParens : Grammar R (Body R) :=
  view
    { build := fun ((kind, operand), extra, result) =>
        ⟨.instruction (.objsize kind operand.value (.parenthesized operand.type result)), extra⟩
      read := fun
        | ⟨.instruction (.objsize kind operand (.parenthesized source result)), extra⟩ =>
          some ((kind, ⟨operand, source⟩), extra, result)
        | _ => none } <|
  seq (parens (seq (identifier "an object size kind") (comma typedValue))) <|
  seq trailingAttribute <|
  resultTypes

/-- The size of an object, `cir.objsize kind %v attribute : signature`. -/
def objsizeBare : Grammar R (Body R) :=
  view
    { build := fun (kind, operand, extra, typing) =>
        ⟨.instruction (.objsize kind operand (.bare typing)), extra⟩
      read := fun
        | ⟨.instruction (.objsize kind operand (.bare typing)), extra⟩ =>
          some (kind, operand, extra, typing)
        | _ => none } <|
  seq (spaced (identifier "an object size kind")) <|
  seq (spaced value) <|
  seq trailingAttribute <|
  signature

/-- An operation that counts or finds bits and is defined for zero,
`cir.ffs %v attribute : types`. -/
def countBits (count : BitCount) : Grammar R (Body R) :=
  view
    { build := fun (operand, extra, result) =>
        ⟨.instruction (.countBits count operand false result), extra⟩
      read := fun
        | ⟨.instruction (.countBits _ operand false result), extra⟩ =>
          some (operand, extra, result)
        | _ => none } <|
  seq (spaced value) <|
  seq trailingAttribute <|
  annotation

/-- An operation that counts bits and may be undefined for zero, `cir.clz %v zero_poison attribute :
types`. -/
def countBitsOrPoison (count : BitCount) : Grammar R (Body R) :=
  view
    { build := fun (operand, zeroPoison, extra, result) =>
        ⟨.instruction (.countBits count operand zeroPoison result), extra⟩
      read := fun
        | ⟨.instruction (.countBits _ operand zeroPoison result), extra⟩ =>
          some (operand, zeroPoison, extra, result)
        | _ => none } <|
  seq (spaced value) <|
  seq (optionalWord "zero_poison") <|
  seq trailingAttribute <|
  annotation

end CirText.Grammar
