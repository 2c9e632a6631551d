import CirText.Operation.Basic
import CirText.Proofs.Token.Place

/-!
# The places that operations name

Words, types, attributes and type annotations are kept with the place where they stand. `extents`
lists these places for each kind of part, and `Payload.extents` all of them that an operation has
besides its names and regions.
-/

namespace CirText

variable {R : Type}

/-- A place in the text, and the text that is kept for it if it is kept. -/
structure Extent where
  /-- Where it stands. -/
  span : Span
  /-- The text as written. -/
  text : Option String := none

/-- Whether a place is one of a text, and what is kept is what stands there. -/
structure Extent.On (text : List Char) (extent : Extent) : Prop where
  span : extent.span.On text
  text : ∀ written ∈ extent.text, written = String.ofList (extent.span.slice text)

/-! ## Parts of operations -/

/-- The place of a word or literal. -/
def Lexeme.extent (word : Lexeme) : Extent :=
  ⟨word.span, some word.text⟩

/-- The place of a type. -/
def TypeText.extent (written : TypeText) : Extent :=
  ⟨written.span, some written.text⟩

/-- The place of an attribute. -/
def AttributeText.extent (value : AttributeText) : Extent :=
  ⟨value.span, some value.text⟩

/-- The places of optional types. -/
def annotationExtents (types : Option (List TypeText)) : List Extent :=
  (types.getD []).map TypeText.extent

/-- The places of optional attributes. -/
def attributeExtents (values : Option (List AttributeText)) : List Extent :=
  (values.getD []).map AttributeText.extent

/-- The places in one side of a function type. -/
def TypeGroup.extents (group : TypeGroup) : List Extent :=
  group.types.map TypeText.extent

/-- The places in an optional side of a function type. -/
def groupExtents (group : Option TypeGroup) : List Extent :=
  group.toList.flatMap TypeGroup.extents

/-- The places in a type annotation, that of the whole first. -/
def Signature.extents (typing : Signature) : List Extent :=
  { span := typing.span : Extent } :: (typing.inputs.extents ++ groupExtents typing.results)

/-- The places in an optional type annotation. -/
def signatureExtents (typing : Option Signature) : List Extent :=
  typing.toList.flatMap Signature.extents

/-- The places of the types of operands. -/
def operandExtents (both : Option Operands) : List Extent :=
  both.toList.flatMap fun operands => operands.types.map TypeText.extent

/-- The places of the types of the arguments of a branch. -/
def Successor.extents (target : Successor) : List Extent :=
  operandExtents target.args

/-- The places of the types of an access. -/
def AccessTypes.extents (types : AccessTypes) : List Extent :=
  types.toList.map TypeText.extent

/-- The places in the types of a conversion. -/
def CastTyping.extents : CastTyping → List Extent
  | parenthesized source result => [source.extent, result.extent]
  | bare typing => signatureExtents typing

/-- The places in the types of a pointer stride. -/
def StrideTyping.extents : StrideTyping → List Extent
  | parenthesized base stride result => [base.extent, stride.extent, result.extent]
  | bare typing => signatureExtents typing

/-- The places in the types of an operation on one value. -/
def UnaryTyping.extents : UnaryTyping → List Extent
  | parenthesized operand result => operand.extent :: result.extents
  | bare typing => typing.extents

/-- The places in the types of an operation on two values. -/
def BinaryTyping.extents : BinaryTyping → List Extent
  | parenthesized left right result => left.extent :: right.extent :: result.extents
  | bare typing => typing.extents

/-- The places in the name of a stack slot. -/
def SlotName.extents (slot : SlotName) : List Extent :=
  slot.name.extent :: slot.init.toList.map Lexeme.extent

/-! ## Modifiers -/

/-- The places in the modifiers after a call. -/
def CallModifiers.extents (modifiers : CallModifiers) : List Extent :=
  modifiers.callingConvention.toList.map Lexeme.extent ++
    modifiers.extra.toList.map AttributeText.extent ++
    modifiers.sideEffect.toList.map Lexeme.extent

/-- The places in the modifiers of loads and stores. -/
def AccessFlags.extents (flags : AccessFlags) : List Extent :=
  flags.alignment.toList.map Lexeme.extent ++ flags.atomic.toList.map Lexeme.extent

/-- The places in the modifiers after the signature of a function. -/
def FunctionTraits.extents (traits : FunctionTraits) : List Extent :=
  traits.callingConvention.toList.map Lexeme.extent ++
    (traits.globalCtor.toList.flatMap Option.toList).map Lexeme.extent ++
    (traits.globalDtor.toList.flatMap Option.toList).map Lexeme.extent ++
    traits.specialMember.toList.map AttributeText.extent

/-- The place in an address space. -/
def AddressSpace.extent : AddressSpace → Extent
  | lang name => name.extent
  | target number => number.extent

/-- The places in the modifiers before the name of a global. -/
def GlobalModifiers.extents (modifiers : GlobalModifiers) : List Extent :=
  modifiers.addressSpace.toList.map AddressSpace.extent

/-! ## Operations -/

/-- The places in an operation without regions, besides the names that it refers to. -/
def Instruction.extents : Instruction → List Extent
  | call _ _ typing modifiers | tryCall _ _ _ typing modifiers =>
    typing.extents ++ modifiers.extents
  | ret operands | yield operands => operandExtents operands
  | alloca allocated address count slot result =>
    allocated.extent :: address.extent ::
      (count.toList.map (·.type.extent) ++ slot.toList.flatMap SlotName.extents ++
        annotationExtents result)
  | load flags _ types | store flags _ _ types => flags.extents ++ types.extents
  | const value result => value.extent :: result.map TypeText.extent
  | cast kind _ typing => kind.extent :: typing.extents
  | binop word _ _ result | cmp word _ _ result | unary word _ result
  | structElementAddr _ word result | getMember _ word result =>
    word.extent :: result.map TypeText.extent
  | br dest => dest.extents
  | brcond _ thenDest elseDest => thenDest.extents ++ elseDest.extents
  | getGlobal _ _ result | select _ _ _ result | countBits _ _ _ result | fabs _ result
  | stackSave result | stackRestore _ result => result.map TypeText.extent
  | ptrStride _ _ typing => typing.extents
  | throw _ result | copy _ _ result => annotationExtents result
  | catchParam _ result => result.extents
  | objsize kind _ typing => kind.extent :: typing.extents
  | shift direction _ _ typing => direction.extent :: typing.extents
  | dynCast kind _ _ typing info =>
    kind.extent :: (typing.extents ++ info.toList.map AttributeText.extent)
  | blockAddress _ literal result => literal.extent :: result.extents
  | indirectBr _ addressType _ => [addressType.extent]
  | label name => [name.extent]
  | memcpy _ _ _ typing => typing.extents
  | memchr _ _ _ typing => signatureExtents typing
  | getRuntimeMember _ member typing => member.type.extent :: typing.extents
  | condition _ | bare _ => []

/-- The places in a parameter besides its name. -/
def Parameter.extents (parameter : Parameter) : List Extent :=
  parameter.type.extent :: parameter.attributes.toList.map AttributeText.extent

/-- The places in a function besides its names and its body. -/
def Function.extents (function : Function R) : List Extent :=
  function.parameters.flatMap Parameter.extents ++ groupExtents function.result ++
    function.traits.extents ++ attributeExtents function.annotations ++
    function.attributes.toList.map AttributeText.extent

/-- The places in an initial value besides its regions. -/
def Initializer.extents : Initializer R → List Extent
  | constructed type _ _ | destructed type _ => [type.extent]
  | given value => [value.extent]

/-- The places in a global besides its name and its regions. -/
def Global.extents (decl : Global R) : List Extent :=
  decl.visibility.toList.map Lexeme.extent ++ decl.modifiers.extents ++
    decl.init.toList.flatMap Initializer.extents ++ annotationExtents decl.result ++
    attributeExtents decl.annotations

/-- The places in an operation with regions, besides the names and the regions themselves. -/
def Compound.extents : Compound R → List Extent
  | func function => function.extents
  | global decl => decl.extents
  | ifElse _ _ _ result | scope _ _ result => annotationExtents result
  | loop kind _ _ _ result => kind.extent :: annotationExtents result
  | forLoop .. | whileLoop .. | doWhile .. => []
  | await kind .. => [kind.extent]
  | tryCatch _ clauses _ => (clauses.getD []).map (·.handled.extent)
  | switch cond _ => [cond.type.extent]
  | caseArm kind values _ => kind.extent :: values.map AttributeText.extent
  | ternary _ _ _ typing => typing.extents

/-- The places in what an operation does, besides names and regions. -/
def Payload.extents : Payload R → List Extent
  | .instruction plain => plain.extents
  | .compound structured => structured.extents

/-- The places in an operation besides names and regions. -/
def Node.extents (node : Node R) : List Extent :=
  node.payload.extents ++ node.extra.toList.map AttributeText.extent

end CirText
