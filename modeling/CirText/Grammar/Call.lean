import CirText.Grammar.Body

/-!
# Calls

Calls of functions, by name or through a value, and the calls of library functions that have an
operation of their own.
-/

namespace CirText.Grammar

variable {R : Type}

/-- A call of what a grammar of names describes, `cir.call callee(args) : signature modifiers`. -/
def callOf (callee : Grammar R Reference) : Grammar R (Body R) :=
  view
    { build := fun (callee, args, typing, modifiers) =>
        ⟨.instruction (.call callee args typing modifiers), none⟩
      read := fun
        | ⟨.instruction (.call callee args typing modifiers), none⟩ =>
          some (callee, args, typing, modifiers)
        | _ => none } <|
  seq (spaced callee) <|
  seq arguments <|
  seq signature <|
  modifierRun .afterCall

/-- A call that may throw and stores the exception,
`cir.try_call exception(%p) @f(args) : signature modifiers`. -/
def tryCallWithPointer : Grammar R (Body R) :=
  view
    { build := fun (pointer, callee, args, typing, modifiers) =>
        ⟨.instruction (.tryCall callee args (.exceptionPointer pointer) typing modifiers), none⟩
      read := fun
        | ⟨.instruction (.tryCall callee args (.exceptionPointer pointer) typing modifiers),
            none⟩ =>
          some (pointer, callee, args, typing, modifiers)
        | _ => none } <|
  seq (spacedWord "exception" (parens value)) <|
  seq (spaced symbol) <|
  seq arguments <|
  seq signature <|
  modifierRun .afterTryCall

/-- A call that may throw and branches,
`cir.try_call @f(args) ^normal, ^unwind : signature modifiers`. -/
def tryCallWithSuccessors : Grammar R (Body R) :=
  view
    { build := fun (callee, args, normal, unwind, typing, modifiers) =>
        ⟨.instruction (.tryCall callee args (.successors normal unwind) typing modifiers), none⟩
      read := fun
        | ⟨.instruction (.tryCall callee args (.successors normal unwind) typing modifiers),
            none⟩ =>
          some (callee, args, normal, unwind, typing, modifiers)
        | _ => none } <|
  seq (spaced symbol) <|
  seq arguments <|
  seq (spaced label) <|
  seq (comma label) <|
  seq signature <|
  modifierRun .afterTryCall

/-- Copying memory, `cir.libc.memcpy %n bytes from %a to %b : signature`. -/
def memcpy : Grammar R (Body R) :=
  view
    { build := fun (length, source, dest, typing) =>
        ⟨.instruction (.memcpy length source dest typing), none⟩
      read := fun
        | ⟨.instruction (.memcpy length source dest typing), none⟩ =>
          some (length, source, dest, typing)
        | _ => none } <|
  seq (spaced value) <|
  seq (spacedWord "bytes" (spacedWord "from" (spaced value))) <|
  seq (spacedWord "to" (spaced value)) <|
  signature

/-- The operands of a search in memory. -/
def memchrOperands : Grammar R (Reference × Reference × Reference) :=
  seq value <| seq (comma value) (comma value)

/-- Searching memory without a signature, `cir.libc.memchr(%a, %p, %n)`. -/
def memchrInParens : Grammar R (Body R) :=
  view
    { build := fun (source, pattern, length) =>
        ⟨.instruction (.memchr source pattern length none), none⟩
      read := fun
        | ⟨.instruction (.memchr source pattern length none), none⟩ =>
          some (source, pattern, length)
        | _ => none }
    (parens memchrOperands)

/-- Searching memory, `cir.libc.memchr %a, %p, %n : signature`. -/
def memchr : Grammar R (Body R) :=
  view
    { build := fun ((source, pattern, length), typing) =>
        ⟨.instruction (.memchr source pattern length (some typing)), none⟩
      read := fun
        | ⟨.instruction (.memchr source pattern length (some typing)), none⟩ =>
          some ((source, pattern, length), typing)
        | _ => none }
    (seq (spaced memchrOperands) signature)

/-- The absolute value of a number, `cir.libc.fabs %v : type`. -/
def fabs : Grammar R (Body R) :=
  view
    { build := fun (operand, result) => ⟨.instruction (.fabs operand result), none⟩
      read := fun
        | ⟨.instruction (.fabs operand result), none⟩ => some (operand, result)
        | _ => none }
    (seq (spaced value) annotation)

end CirText.Grammar
