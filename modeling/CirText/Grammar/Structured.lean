import CirText.Grammar.Body

/-!
# Structured control flow

Conditionals, loops, awaits and exception handlers, whose parts are regions.
-/

namespace CirText.Grammar

variable {R : Type}

/-! ## Conditionals and scopes -/

/-- A conditional, `cir.if %c {...} else {...} attribute : types`. -/
def ifElse : Grammar R (Body R) :=
  view
    { build := fun (cond, thenRegion, elseRegion, extra, result) =>
        ⟨.compound (.ifElse cond thenRegion elseRegion result), extra⟩
      read := fun
        | ⟨.compound (.ifElse cond thenRegion elseRegion result), extra⟩ =>
          some (cond, thenRegion, elseRegion, extra, result)
        | _ => none } <|
  seq (spaced value) <|
  seq (nested .structured true) <|
  seq (optionalRegion "else" .structured true) <|
  seq trailingAttribute <|
  optionalAnnotation

/-- A conditional value, `cir.ternary(%c, true {...}, false {...}) attribute : signature`. -/
def ternary : Grammar R (Body R) :=
  view
    { build := fun ((cond, trueRegion, falseRegion), extra, typing) =>
        ⟨.compound (.ternary cond trueRegion falseRegion typing), extra⟩
      read := fun
        | ⟨.compound (.ternary cond trueRegion falseRegion typing), extra⟩ =>
          some ((cond, trueRegion, falseRegion), extra, typing)
        | _ => none } <|
  seq
    (parens <|
      seq value <|
      seq (comma (before (word "true") (nested .ternaryBranch true))) <|
      comma (before (word "false") (nested .ternaryBranch true))) <|
  seq trailingAttribute <|
  signature

/-- A scope, `cir.scope {...} cleanup {...} attribute : types`. -/
def scope : Grammar R (Body R) :=
  view
    { build := fun (body, cleanup, extra, result) =>
        ⟨.compound (.scope body cleanup result), extra⟩
      read := fun
        | ⟨.compound (.scope body cleanup result), extra⟩ => some (body, cleanup, extra, result)
        | _ => none } <|
  seq (nested .structured true) <|
  seq (optionalRegion "cleanup" .structured true) <|
  seq trailingAttribute <|
  optionalAnnotation

/-- A choice between cases, `cir.switch (%v : type) {...} attribute`. -/
def switch : Grammar R (Body R) :=
  view
    { build := fun (cond, body, extra) => ⟨.compound (.switch cond body), extra⟩
      read := fun
        | ⟨.compound (.switch cond body), extra⟩ => some (cond, body, extra)
        | _ => none } <|
  seq (spaced (parens typedValue)) <|
  seq (nested .structured false) <|
  trailingAttribute

/-- A case, `cir.case (kind, [values]) {...}`. -/
def caseArm : Grammar R (Body R) :=
  view
    { build := fun ((kind, values), body) => ⟨.compound (.caseArm kind values body), none⟩
      read := fun
        | ⟨.compound (.caseArm kind values body), none⟩ => some ((kind, values), body)
        | _ => none } <|
  seq
    (spaced <| parens <|
      seq (identifier "a case kind") (comma (bracketed .comma (attributeOf .value)))) <|
  nested .structured false

/-! ## Loops -/

/-- A loop of a kind,
`cir.loop kind(cond : {...}, body : {...}, step : {...}) attribute : types`. -/
def loop : Grammar R (Body R) :=
  view
    { build := fun (kind, (cond, body, step), extra, result) =>
        ⟨.compound (.loop kind cond body step result), extra⟩
      read := fun
        | ⟨.compound (.loop kind cond body step result), extra⟩ =>
          some (kind, (cond, body, step), extra, result)
        | _ => none } <|
  seq (spaced (identifier "a loop kind")) <|
  seq
    (parens <|
      seq
        (optional (.word "cond")
          (followedBy (colonRegion "cond" .loopCondition) (mark .comma blank))) <|
      seq (colonRegion "body" .loopBody) <|
      optional (.punct .comma) (comma (colonRegion "step" .loopBody))) <|
  seq trailingAttribute <|
  optionalAnnotation

/-- A loop with condition, body and step, `cir.for : cond {...} body {...} step {...} attribute`. -/
def forLoop : Grammar R (Body R) :=
  view
    { build := fun (cond, body, step, extra) => ⟨.compound (.forLoop cond body step), extra⟩
      read := fun
        | ⟨.compound (.forLoop cond body step), extra⟩ => some (cond, body, step, extra)
        | _ => none } <|
  seq (spaced (mark .colon (wordRegion "cond" .loopCondition false))) <|
  seq (wordRegion "body" .loopBody false) <|
  seq (wordRegion "step" .loopBody false) <|
  trailingAttribute

/-- A loop that tests first. -/
def whileOf (cond body : Grammar R R) : Grammar R (Body R) :=
  view
    { build := fun (cond, body, extra) => ⟨.compound (.whileLoop cond body), extra⟩
      read := fun
        | ⟨.compound (.whileLoop cond body), extra⟩ => some (cond, body, extra)
        | _ => none } <|
  seq cond <|
  seq body <|
  trailingAttribute

/-- A loop that tests first, `cir.while : cond {...} body {...} attribute`. -/
def whileLabeled : Grammar R (Body R) :=
  whileOf
    (spaced (mark .colon (wordRegion "cond" .loopCondition false)))
    (wordRegion "body" .loopBody false)

/-- A loop that tests first, `cir.while {...} do {...} attribute`. -/
def whileFluent : Grammar R (Body R) :=
  whileOf (nested .loopCondition false) (wordRegion "do" .loopBody false)

/-- A loop that tests last. -/
def doWhileOf (body cond : Grammar R R) : Grammar R (Body R) :=
  view
    { build := fun (body, cond, extra) => ⟨.compound (.doWhile body cond), extra⟩
      read := fun
        | ⟨.compound (.doWhile body cond), extra⟩ => some (body, cond, extra)
        | _ => none } <|
  seq body <|
  seq cond <|
  trailingAttribute

/-- A loop that tests last, `cir.do : body {...} cond {...} attribute`. -/
def doWhileLabeled : Grammar R (Body R) :=
  doWhileOf
    (spaced (mark .colon (wordRegion "body" .loopBody false)))
    (wordRegion "cond" .loopCondition false)

/-- A loop that tests last, `cir.do {...} while {...} attribute`. -/
def doWhileFluent : Grammar R (Body R) :=
  doWhileOf (nested .loopBody false) (wordRegion "while" .loopCondition false)

/-! ## Awaits and exception handlers -/

/-- An await,
`cir.await(kind, ready : {...}, suspend : {...}, resume : {...},) attribute`. -/
def await : Grammar R (Body R) :=
  view
    { build := fun ((kind, ready, suspend, resume), extra) =>
        ⟨.compound (.await kind ready suspend resume), extra⟩
      read := fun
        | ⟨.compound (.await kind ready suspend resume), extra⟩ =>
          some ((kind, ready, suspend, resume), extra)
        | _ => none } <|
  seq
    (parens <|
      seq (identifier "an await kind") <|
      seq (comma (colonRegion "ready" .awaitReady)) <|
      seq (comma (colonRegion "suspend" .structured)) <|
      followedBy (comma (colonRegion "resume" .structured)) (punct .comma)) <|
  trailingAttribute

/-- A handler, `type attribute {...}`, with a comma if another one follows. -/
def handler : Grammar R (Handler R) :=
  view
    { build := fun (typed, handled, handler, trailingComma) =>
        ⟨typed, handled, handler, trailingComma⟩
      read := fun clause =>
        some (clause.typed, clause.handled, clause.region, clause.trailingComma) } <|
  seq (flag (.word "type") (followedBy (word "type") blank)) <|
  seq namedAttribute <|
  seq (nested .structured false) <|
  flag (.punct .comma) (punct .comma)

/-- A part with handlers for its exceptions, `cir.try {...} catch [handlers] cleanup {...}
attribute`. -/
def tryCatch : Grammar R (Body R) :=
  view
    { build := fun (body, clauses, cleanup, extra) =>
        ⟨.compound (.tryCatch body clauses cleanup), extra⟩
      read := fun
        | ⟨.compound (.tryCatch body clauses cleanup), extra⟩ =>
          some (body, clauses, cleanup, extra)
        | _ => none } <|
  seq (nested .structured false) <|
  seq
    (optional (.word "catch") (spacedWord "catch" (spaced (bracketed .blank handler)))) <|
  seq (optionalRegion "cleanup" .structured false) <|
  trailingAttribute

end CirText.Grammar
