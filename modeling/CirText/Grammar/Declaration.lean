import CirText.Grammar.Body

/-!
# Functions and globals

The operations that declare a symbol of the module. The parameters and the body of a function share
one scope.
-/

namespace CirText.Grammar

variable {R : Type}

/-! ## Functions -/

/-- An optional dictionary after a blank. -/
def parameterAttributes : Grammar R (Option AttributeText) :=
  optional (.punct .leftBrace) (spaced (attributeOf .dictionary))

/-- A parameter: a type, with a name in front if the body refers to it, and attributes behind. -/
def parameter : Grammar R Parameter :=
  view
    { build := fun
        | .inl (defined, itsType, attributes) => ⟨some defined, itsType, attributes⟩
        | .inr (itsType, attributes) => ⟨none, itsType, attributes⟩
      read := fun
        | ⟨some defined, itsType, attributes⟩ => some (.inl (defined, itsType, attributes))
        | ⟨none, itsType, attributes⟩ => some (.inr (itsType, attributes))
      read_build := by rintro (_ | _) <;> rfl } <|
  choice (.kind .value)
    (binder "a parameter" (seq (colon type) parameterAttributes))
    (seq type parameterAttributes)

/-- A function, `cir.func modifiers @name(parameters) -> results traits [annotations] attributes
{...} { body }`. -/
def func : Grammar R (Body R) :=
  view
    { build := fun (modifiers, defined, (parameters, variadic), result, traits, annotations,
          attributes, body) =>
        ⟨.compound (.func ⟨modifiers, defined, parameters, variadic, result, traits, annotations,
          attributes, body⟩), none⟩
      read := fun
        | ⟨.compound (.func ⟨modifiers, defined, parameters, variadic, result, traits, annotations,
            attributes, body⟩), none⟩ =>
          some (modifiers, defined, (parameters, variadic), result, traits, annotations, attributes,
            body)
        | _ => none } <|
  seq (modifierRun .beforeFunctionName) <|
  seq (spaced (definition .symbol)) <|
  inScope <|
  seq (parens (listedWithEllipsis parameter)) <|
  seq (optional (.punct .arrow) resultTypes) <|
  seq (modifierRun .afterFunctionSignature) <|
  seq optionalAnnotations <|
  seq
    (optional (.word "attributes")
      (spacedWord "attributes" (spaced (attributeOf .dictionary)))) <|
  optional (.punct .leftBrace) (spaced (region .functionBody false))

/-! ## Globals -/

/-- An initial value: a constructor region with an optional destructor region, a destructor region,
or an attribute. -/
def initializer : Grammar R (Initializer R) :=
  view
    { build := fun
        | .inl (itsType, ctor, dtor) => .constructed itsType ctor dtor
        | .inr (.inl (itsType, dtor)) => .destructed itsType dtor
        | .inr (.inr value) => .given value
      read := fun
        | .constructed itsType ctor dtor => some (.inl (itsType, ctor, dtor))
        | .destructed itsType dtor => some (.inr (.inl (itsType, dtor)))
        | .given value => some (.inr (.inr value))
      read_build := by rintro (_ | _ | _) <;> rfl } <|
  choice (.word "ctor")
    (before (word "ctor") <|
      seq (colon type) <|
      seq (nested .initializer false) <|
      optionalRegion "dtor" .initializer false) <|
  choice (.word "dtor")
    (before (word "dtor") <|
      seq (colon type) <|
      nested .initializer false)
    namedAttribute

/-- A global, `cir.global "visibility" modifiers @name = init : type [annotations] attribute`. -/
def global : Grammar R (Body R) :=
  view
    { build := fun (visibility, modifiers, defined, init, result, annotations, extra) =>
        ⟨.compound (.global ⟨visibility, modifiers, defined, init, result, annotations⟩), extra⟩
      read := fun
        | ⟨.compound (.global ⟨visibility, modifiers, defined, init, result, annotations⟩),
            extra⟩ =>
          some (visibility, modifiers, defined, init, result, annotations, extra)
        | _ => none } <|
  seq (optional (.kind .string) (spaced string)) <|
  seq (modifierRun .beforeGlobalName) <|
  seq (spaced (definition .symbol)) <|
  seq (optional (.punct .equal) (spaced (mark .equal (spaced initializer)))) <|
  seq optionalAnnotation <|
  seq optionalAnnotations <|
  trailingAttribute

end CirText.Grammar
