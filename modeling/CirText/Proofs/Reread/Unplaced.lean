import CirText.Module
import CirText.Grammar.Body

/-!
# Modules without places

What a source unit denotes does not depend on where its parts stand. Here all spans in a module are
replaced by an empty one; everything else is kept.
-/

namespace CirText

variable {R S O : Type}

/-- The span of what has no place. -/
def Span.nowhere : Span :=
  .emptyAt 0

/-! ## Parts of operations -/

/-- The word without its place. -/
def Lexeme.unplaced (word : Lexeme) : Lexeme :=
  { word with span := .nowhere }

/-- The type without its place. -/
def TypeText.unplaced (written : TypeText) : TypeText :=
  { written with span := .nowhere }

/-- The attribute without its place. -/
def AttributeText.unplaced (value : AttributeText) : AttributeText :=
  { value with span := .nowhere }

/-- The use without its place. -/
def Reference.unplaced (used : Reference) : Reference :=
  { used with span := .nowhere }

/-- The definition without its place. -/
def Definition.unplaced (defined : Definition) : Definition :=
  { defined with span := .nowhere }

/-- The value and its type without their places. -/
def TypedValue.unplaced (typed : TypedValue) : TypedValue :=
  ⟨typed.value.unplaced, typed.type.unplaced⟩

/-- The values and types without their places. -/
def Operands.unplaced (both : Operands) : Operands :=
  ⟨both.values.map Reference.unplaced, both.types.map TypeText.unplaced⟩

/-- The branch target without its places. -/
def Successor.unplaced (target : Successor) : Successor :=
  ⟨target.label.unplaced, target.args.map Operands.unplaced⟩

/-- The types of a group without their places. -/
def TypeGroup.unplaced : TypeGroup → TypeGroup
  | .single type => .single type.unplaced
  | .parenthesized types => .parenthesized (types.map TypeText.unplaced)

/-- The signature without its places. -/
def Signature.unplaced (typing : Signature) : Signature :=
  ⟨typing.inputs.unplaced, typing.results.map TypeGroup.unplaced, .nowhere⟩

/-- The types of an access without their places. -/
def AccessTypes.unplaced : AccessTypes → AccessTypes
  | .single type => .single type.unplaced
  | .dual first second => .dual first.unplaced second.unplaced

/-- The types of a conversion without their places. -/
def CastTyping.unplaced : CastTyping → CastTyping
  | .parenthesized source result => .parenthesized source.unplaced result.unplaced
  | .bare signature => .bare (signature.map Signature.unplaced)

/-- The types of a pointer stride without their places. -/
def StrideTyping.unplaced : StrideTyping → StrideTyping
  | .parenthesized base stride result =>
    .parenthesized base.unplaced stride.unplaced result.unplaced
  | .bare signature => .bare (signature.map Signature.unplaced)

/-- The types of an operation on one value without their places. -/
def UnaryTyping.unplaced : UnaryTyping → UnaryTyping
  | .parenthesized operand result => .parenthesized operand.unplaced result.unplaced
  | .bare signature => .bare signature.unplaced

/-- The types of an operation on two values without their places. -/
def BinaryTyping.unplaced : BinaryTyping → BinaryTyping
  | .parenthesized left right result =>
    .parenthesized left.unplaced right.unplaced result.unplaced
  | .bare signature => .bare signature.unplaced

/-- The name of a stack slot without its places. -/
def SlotName.unplaced (slot : SlotName) : SlotName :=
  ⟨slot.name.unplaced, slot.init.map Lexeme.unplaced⟩

/-- The target of a call that may throw without its places. -/
def TryTarget.unplaced : TryTarget → TryTarget
  | .exceptionPointer pointer => .exceptionPointer pointer.unplaced
  | .successors normal unwind => .successors normal.unplaced unwind.unplaced

/-! ## Modifiers -/

/-- The modifiers of a function without their places. -/
def FunctionTraits.unplaced (traits : FunctionTraits) : FunctionTraits where
  callingConvention := traits.callingConvention.map Lexeme.unplaced
  aliasFor := traits.aliasFor.map Reference.unplaced
  globalCtor := traits.globalCtor.map (Option.map Lexeme.unplaced)
  globalDtor := traits.globalDtor.map (Option.map Lexeme.unplaced)
  specialMember := traits.specialMember.map AttributeText.unplaced

/-- The modifiers of a call without their places. -/
def CallModifiers.unplaced (modifiers : CallModifiers) : CallModifiers where
  callingConvention := modifiers.callingConvention.map Lexeme.unplaced
  extra := modifiers.extra.map AttributeText.unplaced
  sideEffect := modifiers.sideEffect.map Lexeme.unplaced

/-- The modifiers of a memory access without their places. -/
def AccessFlags.unplaced (flags : AccessFlags) : AccessFlags where
  isVolatile := flags.isVolatile
  alignment := flags.alignment.map Lexeme.unplaced
  atomic := flags.atomic.map Lexeme.unplaced

/-- The address space without its place. -/
def AddressSpace.unplaced : AddressSpace → AddressSpace
  | .lang name => .lang name.unplaced
  | .target number => .target number.unplaced

/-- The modifiers of a global without their places. -/
def GlobalModifiers.unplaced (modifiers : GlobalModifiers) : GlobalModifiers :=
  { modifiers with addressSpace := modifiers.addressSpace.map AddressSpace.unplaced }

/-- The argument of a modifier without its place. -/
def Argument.unplaced : Argument → Argument
  | .lexeme word => .lexeme word.unplaced
  | .symbol reference => .symbol reference.unplaced
  | .attribute value => .attribute value.unplaced

/-- The modifier without its place. -/
def Modifier.unplaced (modifier : Modifier) : Modifier :=
  { modifier with argument := modifier.argument.map Argument.unplaced }

/-! ## Operations without regions -/

/-- The instruction without its places. -/
def Instruction.unplaced : Instruction → Instruction
  | .call callee args signature modifiers =>
    .call callee.unplaced (args.map Reference.unplaced) signature.unplaced modifiers.unplaced
  | .tryCall callee args target signature modifiers =>
    .tryCall callee.unplaced (args.map Reference.unplaced) target.unplaced signature.unplaced
      modifiers.unplaced
  | .ret operands => .ret (operands.map Operands.unplaced)
  | .yield operands => .yield (operands.map Operands.unplaced)
  | .alloca allocated address count slot result =>
    .alloca allocated.unplaced address.unplaced (count.map TypedValue.unplaced)
      (slot.map SlotName.unplaced) (result.map (List.map TypeText.unplaced))
  | .load flags address types => .load flags.unplaced address.unplaced types.unplaced
  | .store flags value address types =>
    .store flags.unplaced value.unplaced address.unplaced types.unplaced
  | .const value result => .const value.unplaced (result.map TypeText.unplaced)
  | .cast kind value typing => .cast kind.unplaced value.unplaced typing.unplaced
  | .binop kind left right result =>
    .binop kind.unplaced left.unplaced right.unplaced (result.map TypeText.unplaced)
  | .cmp predicate left right result =>
    .cmp predicate.unplaced left.unplaced right.unplaced (result.map TypeText.unplaced)
  | .unary kind operand result =>
    .unary kind.unplaced operand.unplaced (result.map TypeText.unplaced)
  | .br dest => .br dest.unplaced
  | .brcond cond thenDest elseDest =>
    .brcond cond.unplaced thenDest.unplaced elseDest.unplaced
  | .condition cond => .condition cond.unplaced
  | .getGlobal threadLocal name result =>
    .getGlobal threadLocal name.unplaced (result.map TypeText.unplaced)
  | .ptrStride base stride typing => .ptrStride base.unplaced stride.unplaced typing.unplaced
  | .throw exception result =>
    .throw (exception.map Reference.unplaced) (result.map (List.map TypeText.unplaced))
  | .catchParam exception result =>
    .catchParam (exception.map Reference.unplaced) result.unplaced
  | .structElementAddr base index result =>
    .structElementAddr base.unplaced index.unplaced (result.map TypeText.unplaced)
  | .getMember base index result =>
    .getMember base.unplaced index.unplaced (result.map TypeText.unplaced)
  | .select cond trueValue falseValue result =>
    .select cond.unplaced trueValue.unplaced falseValue.unplaced (result.map TypeText.unplaced)
  | .copy source dest result =>
    .copy source.unplaced dest.unplaced (result.map (List.map TypeText.unplaced))
  | .bare terminator => .bare terminator
  | .objsize kind value typing => .objsize kind.unplaced value.unplaced typing.unplaced
  | .shift direction left right typing =>
    .shift direction.unplaced left.unplaced right.unplaced typing.unplaced
  | .countBits count value zeroPoison result =>
    .countBits count value.unplaced zeroPoison (result.map TypeText.unplaced)
  | .dynCast kind relativeLayout value typing info =>
    .dynCast kind.unplaced relativeLayout value.unplaced typing.unplaced
      (info.map AttributeText.unplaced)
  | .blockAddress function literal result =>
    .blockAddress function.unplaced literal.unplaced result.unplaced
  | .indirectBr address addressType targets =>
    .indirectBr address.unplaced addressType.unplaced (targets.map Reference.unplaced)
  | .label name => .label name.unplaced
  | .memcpy length source dest signature =>
    .memcpy length.unplaced source.unplaced dest.unplaced signature.unplaced
  | .memchr source pattern length signature =>
    .memchr source.unplaced pattern.unplaced length.unplaced (signature.map Signature.unplaced)
  | .fabs value result => .fabs value.unplaced (result.map TypeText.unplaced)
  | .stackSave result => .stackSave (result.map TypeText.unplaced)
  | .stackRestore value result => .stackRestore value.unplaced (result.map TypeText.unplaced)
  | .getRuntimeMember base member signature =>
    .getRuntimeMember base.unplaced member.unplaced signature.unplaced

/-! ## Operations with regions -/

/-- The parameter without its places. -/
def Parameter.unplaced (parameter : Parameter) : Parameter where
  name := parameter.name.map Definition.unplaced
  type := parameter.type.unplaced
  attributes := parameter.attributes.map AttributeText.unplaced

/-- The function without its places, given what becomes of its body. -/
def Function.unplaced (region : R → S) (function : Function R) : Function S where
  modifiers := function.modifiers
  name := function.name.unplaced
  parameters := function.parameters.map Parameter.unplaced
  variadic := function.variadic
  result := function.result.map TypeGroup.unplaced
  traits := function.traits.unplaced
  annotations := function.annotations.map (List.map AttributeText.unplaced)
  attributes := function.attributes.map AttributeText.unplaced
  body := function.body.map region

/-- The initial value without its places, given what becomes of its regions. -/
def Initializer.unplaced (region : R → S) : Initializer R → Initializer S
  | .constructed type ctor dtor => .constructed type.unplaced (region ctor) (dtor.map region)
  | .destructed type dtor => .destructed type.unplaced (region dtor)
  | .given value => .given value.unplaced

/-- The global without its places, given what becomes of its regions. -/
def Global.unplaced (region : R → S) (decl : Global R) : Global S where
  visibility := decl.visibility.map Lexeme.unplaced
  modifiers := decl.modifiers.unplaced
  name := decl.name.unplaced
  init := decl.init.map (Initializer.unplaced region)
  result := decl.result.map (List.map TypeText.unplaced)
  annotations := decl.annotations.map (List.map AttributeText.unplaced)

/-- The handler without its places, given what becomes of its region. -/
def Handler.unplaced (region : R → S) (clause : Handler R) : Handler S :=
  ⟨clause.typed, clause.handled.unplaced, region clause.region, clause.trailingComma⟩

/-- The operation without its places, given what becomes of its regions. -/
def Compound.unplaced (region : R → S) : Compound R → Compound S
  | .func function => .func (function.unplaced region)
  | .global decl => .global (decl.unplaced region)
  | .ifElse cond thenRegion elseRegion result =>
    .ifElse cond.unplaced (region thenRegion) (elseRegion.map region)
      (result.map (List.map TypeText.unplaced))
  | .scope body cleanup result =>
    .scope (region body) (cleanup.map region) (result.map (List.map TypeText.unplaced))
  | .loop kind cond body step result =>
    .loop kind.unplaced (cond.map region) (region body) (step.map region)
      (result.map (List.map TypeText.unplaced))
  | .forLoop cond body step => .forLoop (region cond) (region body) (region step)
  | .whileLoop cond body => .whileLoop (region cond) (region body)
  | .doWhile body cond => .doWhile (region body) (region cond)
  | .await kind ready suspend resume =>
    .await kind.unplaced (region ready) (region suspend) (region resume)
  | .tryCatch body clauses cleanup =>
    .tryCatch (region body) (clauses.map (List.map (Handler.unplaced region)))
      (cleanup.map region)
  | .switch cond body => .switch cond.unplaced (region body)
  | .caseArm kind values body =>
    .caseArm kind.unplaced (values.map AttributeText.unplaced) (region body)
  | .ternary cond trueRegion falseRegion signature =>
    .ternary cond.unplaced (region trueRegion) (region falseRegion) signature.unplaced

/-- The payload without its places, given what becomes of its regions. -/
def Payload.unplaced (region : R → S) : Payload R → Payload S
  | .instruction plain => .instruction plain.unplaced
  | .compound structured => .compound (structured.unplaced region)

/-- What follows a keyword, without its places, given what becomes of its regions. -/
def Body.unplaced (region : R → S) (b : Body R) : Body S :=
  ⟨b.payload.unplaced region, b.extra.map AttributeText.unplaced⟩

/-! ## Operations and modules -/

/-- The argument of a block without its places. -/
def BlockArgument.unplaced (arg : BlockArgument) : BlockArgument :=
  ⟨arg.definition.unplaced, arg.type.unplaced⟩

/-- The block without its places. The places in its operations are kept. -/
def Block.unplaced (block : Block O) : Block O where
  label := block.label.map Definition.unplaced
  args := block.args.map BlockArgument.unplaced
  ops := block.ops
  span := .nowhere

/-- The region without its places. The places in its operations are kept. -/
def Region.unplaced (region : Region O) : Region O where
  kind := region.kind
  blocks := region.blocks.map Block.unplaced
  scope := region.scope
  span := .nowhere

/-- The operation without its places. The places in the operations inside it are kept. -/
def Node.unplaced (node : Node (Region O)) : Node (Region O) where
  id := node.id
  results := node.results.map Definition.unplaced
  payload := node.payload.unplaced Region.unplaced
  form := node.form
  extra := node.extra.map AttributeText.unplaced
  span := .nowhere

/-- The operation, with everything inside it, without places. -/
def Operation.unplaced : Operation → Operation :=
  Operation.fold fun node => .of node.unplaced

/-- The header of a module without its places. -/
def ModuleHeader.unplaced (header : ModuleHeader) : ModuleHeader where
  name := header.name.map Lexeme.unplaced
  attributes := header.attributes.map AttributeText.unplaced
  span := .nowhere

/-- The scope without the places of its names. -/
def Scope.unplaced (scope : Scope) : Scope where
  parent := scope.parent
  values := scope.values.map Definition.unplaced
  labels := scope.labels.map Definition.unplaced

/-- The table without the places of its names. -/
def SymbolTable.unplaced (table : SymbolTable) : SymbolTable where
  scopes := table.scopes.map Scope.unplaced
  symbols := table.symbols.map Definition.unplaced

/-- The module without places. -/
def Module.unplaced (unit : Module) : Module where
  sourceId := unit.sourceId
  header := unit.header.map ModuleHeader.unplaced
  items := unit.items.map Operation.unplaced
  symbols := unit.symbols.unplaced

/-! ## Replacing regions -/

/-- A region of operations, with everything inside it, without places. -/
def Region.fullyUnplaced (region : Region Operation) : Region Operation :=
  (region.map Operation.unplaced).unplaced

theorem Payload.unplaced_mapMem {T : Type} (region : S → T) (f : R → S) (payload : Payload R) :
    (payload.mapMem fun inner _ => f inner).unplaced region = payload.unplaced (region ∘ f) := by
  cases payload with
  | instruction plain => rfl
  | compound structured =>
    cases structured with
    | tryCatch body clauses cleanup =>
      simp [mapMem, Compound.mapMem, unplaced, Compound.unplaced, Function.comp_def]
      rfl
    | func function =>
      simp [mapMem, Compound.mapMem, unplaced, Compound.unplaced, Function.unplaced]
    | global decl =>
      obtain ⟨visibility, modifiers, name, init, result, annotations⟩ := decl
      rcases init with _ | _ | _ | _ <;>
        simp [mapMem, Compound.mapMem, Initializer.mapMem, unplaced, Compound.unplaced,
          Global.unplaced, Initializer.unplaced]
    | _ => simp [mapMem, Compound.mapMem, unplaced, Compound.unplaced]

theorem Payload.mapMem_unplaced {T : Type} (g : S → T) (f : R → S) (payload : Payload R) :
    ((payload.unplaced f).mapMem fun inner _ => g inner) = payload.unplaced (g ∘ f) := by
  cases payload with
  | instruction plain => rfl
  | compound structured =>
    cases structured with
    | tryCatch body clauses cleanup =>
      cases clauses <;>
        simp [mapMem, Compound.mapMem, unplaced, Compound.unplaced, Handler.unplaced]
    | func function =>
      simp [mapMem, Compound.mapMem, unplaced, Compound.unplaced, Function.unplaced]
    | global decl =>
      obtain ⟨visibility, modifiers, name, init, result, annotations⟩ := decl
      rcases init with _ | _ | _ | _ <;>
        simp [mapMem, Compound.mapMem, Initializer.mapMem, unplaced, Compound.unplaced,
          Global.unplaced, Initializer.unplaced]
    | _ => simp [mapMem, Compound.mapMem, unplaced, Compound.unplaced]

/-- An operation without places is built from its parts without places. -/
theorem Operation.unplaced_of (node : Node (Region Operation)) :
    (Operation.of node).unplaced = .of
      { id := node.id, results := node.results.map Definition.unplaced
        payload := node.payload.unplaced Region.fullyUnplaced, form := node.form
        extra := node.extra.map AttributeText.unplaced, span := .nowhere } := by
  rw [Operation.unplaced, fold_of, Node.unplaced]
  have payload := Payload.unplaced_mapMem (Region.unplaced (O := Operation))
    (Region.map Operation.unplaced) node.payload
  exact congrArg (fun payload =>
    Operation.of ⟨node.id, node.results.map Definition.unplaced, payload,
    node.form, node.extra.map AttributeText.unplaced, .nowhere⟩) payload

end CirText
