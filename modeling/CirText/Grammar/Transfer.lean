import CirText.Grammar.Body

/-!
# Transfer of control

The operations that leave a block or a region, and what belongs to them.
-/

namespace CirText.Grammar

variable {R : Type}

/-! ## Ends of functions and regions -/

/-- An optional operand list after an attribute. -/
def handedOver : Grammar R (Option AttributeText × Option Operands) :=
  seq trailingAttribute (optional (.kind .value) (spaced operands))

/-- The end of a function, `cir.return attribute %v : types`. -/
def ret : Grammar R (Body R) :=
  view
    { build := fun (extra, operands) => ⟨.instruction (.ret operands), extra⟩
      read := fun
        | ⟨.instruction (.ret operands), extra⟩ => some (extra, operands)
        | _ => none }
    handedOver

/-- The end of a region, `cir.yield attribute %v : types`. -/
def yield : Grammar R (Body R) :=
  view
    { build := fun (extra, operands) => ⟨.instruction (.yield operands), extra⟩
      read := fun
        | ⟨.instruction (.yield operands), extra⟩ => some (extra, operands)
        | _ => none }
    handedOver

/-- The end of a condition, `cir.condition(%c) attribute`. -/
def condition : Grammar R (Body R) :=
  view
    { build := fun (cond, extra) => ⟨.instruction (.condition cond), extra⟩
      read := fun
        | ⟨.instruction (.condition cond), extra⟩ => some (cond, extra)
        | _ => none }
    (seq (parens value) trailingAttribute)

/-- A terminator without operands, `cir.break attribute`. -/
def bare (terminator : BareTerminator) : Grammar R (Body R) :=
  view
    { build := fun extra => ⟨.instruction (.bare terminator), extra⟩
      read := fun
        | ⟨.instruction (.bare _), extra⟩ => some extra
        | _ => none }
    trailingAttribute

/-! ## Branches -/

/-- A branch, `cir.br ^block(args) attribute`. -/
def br : Grammar R (Body R) :=
  view
    { build := fun (dest, extra) => ⟨.instruction (.br dest), extra⟩
      read := fun
        | ⟨.instruction (.br dest), extra⟩ => some (dest, extra)
        | _ => none }
    (seq (spaced successor) trailingAttribute)

/-- A branch on a condition, `cir.brcond %c ^then(args), ^else(args) attribute`. -/
def brcond : Grammar R (Body R) :=
  view
    { build := fun (cond, thenDest, elseDest, extra) =>
        ⟨.instruction (.brcond cond thenDest elseDest), extra⟩
      read := fun
        | ⟨.instruction (.brcond cond thenDest elseDest), extra⟩ =>
          some (cond, thenDest, elseDest, extra)
        | _ => none } <|
  seq (spaced value) <|
  seq (spaced successor) <|
  seq (comma successor) <|
  trailingAttribute

/-- A branch to an address, `cir.indirectbr %a : <type>, [^l, ^m] attribute`. -/
def indirectBr : Grammar R (Body R) :=
  view
    { build := fun (address, addressType, targets, extra) =>
        ⟨.instruction (.indirectBr address addressType targets), extra⟩
      read := fun
        | ⟨.instruction (.indirectBr address addressType targets), extra⟩ =>
          some (address, addressType, targets, extra)
        | _ => none } <|
  seq (spaced value) <|
  seq (colon (angles type)) <|
  seq (comma (brackets (repeated (.kind .label) label))) <|
  trailingAttribute

/-- A label for branches to an address, `cir.label "name" attribute`. -/
def labelMark : Grammar R (Body R) :=
  view
    { build := fun (literal, extra) => ⟨.instruction (.label literal), extra⟩
      read := fun
        | ⟨.instruction (.label literal), extra⟩ => some (literal, extra)
        | _ => none }
    (seq (spaced string) trailingAttribute)

/-! ## Exceptions -/

/-- An optional exception. -/
def exception : Grammar R (Option Reference) :=
  optional (.kind .value) (spaced value)

/-- Throwing an exception, `cir.throw %e attribute : types`. -/
def throw : Grammar R (Body R) :=
  view
    { build := fun (thrown, extra, result) => ⟨.instruction (.throw thrown result), extra⟩
      read := fun
        | ⟨.instruction (.throw thrown result), extra⟩ => some (thrown, extra, result)
        | _ => none } <|
  seq exception <|
  seq trailingAttribute <|
  optionalAnnotation

/-- The exception that a handler gets, `cir.catch_param %e -> type`. -/
def catchParam : Grammar R (Body R) :=
  view
    { build := fun (caught, result) => ⟨.instruction (.catchParam caught result), none⟩
      read := fun
        | ⟨.instruction (.catchParam caught result), none⟩ => some (caught, result)
        | _ => none }
    (seq exception resultTypes)

end CirText.Grammar
