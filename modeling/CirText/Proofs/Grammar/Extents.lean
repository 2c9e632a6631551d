import CirText.Proofs.Grammar.Pieces
import CirText.Proofs.Operation.Extents

/-!
# The places in what a grammar describes

`Grammar.extents` lists the places that a value names, apart from names and regions, in the order in
which they are read. For the body of an operation these are all the places that the operation names.
-/

namespace CirText

variable {R : Type}

/-- The place that an argument of a modifier names. A symbol is a name. -/
def Argument.extents : Argument → List Extent
  | .lexeme word => [word.extent]
  | .symbol _ => []
  | .attribute value => [value.extent]

/-- The places that a modifier names. -/
def Modifier.extents (modifier : Modifier) : List Extent :=
  modifier.argument.toList.flatMap Argument.extents

/-- The places that a body names, apart from names and regions. -/
def Body.extents (body : Body R) : List Extent :=
  body.payload.extents ++ body.extra.toList.map AttributeText.extent

namespace Grammar

variable {α β : Type}

/-- The places in a value, apart from names and regions. -/
def extents : {α : Type} → Grammar R α → α → List Extent
  | _, .lexeme _ _, a => [a.extent]
  | _, .oneOf _ _, a => [a.extent]
  | _, .type, a => [a.extent]
  | _, .attributeOf _, a => [a.extent]
  | _, .namedAttribute, a => [a.extent]
  | _, .trailingAttribute, a => a.toList.map AttributeText.extent
  | _, .seq first second, (a, b) => first.extents a ++ second.extents b
  | _, .view as inner, b =>
    match as.read b with
    | some a => inner.extents a
    | none => []
  | _, .optional _ _, none => []
  | _, .optional _ inner, some a => inner.extents a
  | _, .choice _ first _, .inl a => first.extents a
  | _, .choice _ _ second, .inr b => second.extents b
  | _, .separated item, (head, tail) => (head :: tail).flatMap item.extents
  | _, .listed item, items => items.flatMap item.extents
  | _, .listedWithEllipsis item, (items, _) => items.flatMap item.extents
  | _, .bracketed _ item, items => items.flatMap item.extents
  | _, .repeated _ item, items => items.flatMap item.extents
  | _, .modifierRun table, a => (table.list a).flatMap Modifier.extents
  | _, .spanned inner, (a, span) => { span : Extent } :: inner.extents a
  | _, .binder _ inner, (_, a) => inner.extents a
  | _, .inScope inner, a => inner.extents a
  | _, .recommended _ _ inner, a => inner.extents a
  | _, .blank, _ | _, .punct _, _ | _, .word _, _ | _, .name _, _ | _, .definition _, _
  | _, .region _ _, _ => []

/-! ## Places in derived grammars -/

@[simp]
theorem extents_view (as : View α β) (inner : Grammar R α) (a : α) :
    (view as inner).extents (as.build a) = inner.extents a := by
  rw [extents, as.read_build]

@[simp]
theorem extents_seq (first : Grammar R α) (second : Grammar R β) (both : α × β) :
    (seq first second).extents both = first.extents both.1 ++ second.extents both.2 :=
  rfl

@[simp]
theorem extents_optional (present : Guard) (inner : Grammar R α) (a : Option α) :
    (optional present inner).extents a = a.toList.flatMap inner.extents := by
  cases a with
  | none => rfl
  | some a => exact (List.append_nil _).symm

@[simp]
theorem extents_bracketed (separator : Separator) (item : Grammar R α) (items : List α) :
    (bracketed separator item).extents items = items.flatMap item.extents :=
  rfl

@[simp]
theorem extents_listed (item : Grammar R α) (items : List α) :
    (listed item).extents items = items.flatMap item.extents :=
  rfl

@[simp]
theorem extents_listedWithEllipsis (item : Grammar R α) (items : List α × Bool) :
    (listedWithEllipsis item).extents items = items.1.flatMap item.extents :=
  rfl

@[simp]
theorem extents_repeated (next : Guard) (item : Grammar R α) (items : List α) :
    (repeated next item).extents items = items.flatMap item.extents :=
  rfl

@[simp]
theorem extents_inScope (inner : Grammar R α) (a : α) :
    (inScope inner).extents a = inner.extents a :=
  rfl

@[simp]
theorem extents_recommended (opcode : Opcode) (warning : String) (inner : Grammar R (Option α))
    (a : Option α) : (recommended opcode warning inner).extents a = inner.extents a :=
  rfl

@[simp]
theorem extents_value (used : Reference) : (value (R := R)).extents used = [] :=
  rfl

@[simp]
theorem extents_label (used : Reference) : (label (R := R)).extents used = [] :=
  rfl

@[simp]
theorem extents_symbol (used : Reference) : (symbol (R := R)).extents used = [] :=
  rfl

@[simp]
theorem extents_definition (kind : NameKind) (defined : Definition) :
    (definition (R := R) kind).extents defined = [] :=
  rfl

@[simp]
theorem extents_lexeme (kind : TokenKind) (what : String) (found : Lexeme) :
    (lexeme (R := R) kind what).extents found = [found.extent] :=
  rfl

@[simp]
theorem extents_identifier (what : String) (found : Lexeme) :
    (identifier (R := R) what).extents found = [found.extent] :=
  rfl

@[simp]
theorem extents_integer (found : Lexeme) : (integer (R := R)).extents found = [found.extent] :=
  rfl

@[simp]
theorem extents_string (found : Lexeme) : (string (R := R)).extents found = [found.extent] :=
  rfl

@[simp]
theorem extents_oneOf (words : List String) (what : String) (found : Lexeme) :
    (oneOf (R := R) words what).extents found = [found.extent] :=
  rfl

@[simp]
theorem extents_type (written : TypeText) : (type (R := R)).extents written = [written.extent] :=
  rfl

@[simp]
theorem extents_attributeOf (form : AttributeForm) (given : AttributeText) :
    (attributeOf (R := R) form).extents given = [given.extent] :=
  rfl

@[simp]
theorem extents_namedAttribute (given : AttributeText) :
    (namedAttribute (R := R)).extents given = [given.extent] :=
  rfl

@[simp]
theorem extents_trailingAttribute (extra : Option AttributeText) :
    (trailingAttribute (R := R)).extents extra = extra.toList.map AttributeText.extent :=
  rfl

@[simp]
theorem extents_region (kind : RegionKind) (implicitTerminator : Bool) (inner : R) :
    (region kind implicitTerminator).extents inner = [] :=
  rfl

@[simp]
theorem extents_mark (mark : Punct) (rest : Grammar R α) (a : α) :
    (Grammar.mark mark rest).extents a = rest.extents a :=
  rfl

@[simp]
theorem extents_spaced (rest : Grammar R α) (a : α) : (spaced rest).extents a = rest.extents a :=
  rfl

@[simp]
theorem extents_word (text : String) (rest : Grammar R α) (a : α) :
    (before (word text) rest).extents a = rest.extents a :=
  rfl

@[simp]
theorem extents_followedBy (inner : Grammar R α) (last : Grammar R Unit) (a : α) :
    (followedBy inner last).extents a = inner.extents a ++ last.extents () :=
  rfl

@[simp]
theorem extents_punct (mark : Punct) : (Grammar.punct (R := R) mark).extents () = [] :=
  rfl

@[simp]
theorem extents_blank : (blank (R := R)).extents () = [] :=
  rfl

@[simp]
theorem extents_comma (rest : Grammar R α) (a : α) : (comma rest).extents a = rest.extents a :=
  rfl

@[simp]
theorem extents_colon (rest : Grammar R α) (a : α) : (colon rest).extents a = rest.extents a :=
  rfl

@[simp]
theorem extents_spacedWord (text : String) (rest : Grammar R α) (a : α) :
    (spacedWord text rest).extents a = rest.extents a :=
  rfl

@[simp]
theorem extents_parens (inner : Grammar R α) (a : α) :
    (parens inner).extents a = inner.extents a := by
  simp [parens, between]

@[simp]
theorem extents_brackets (inner : Grammar R α) (a : α) :
    (brackets inner).extents a = inner.extents a := by
  simp [brackets, between]

@[simp]
theorem extents_angles (inner : Grammar R α) (a : α) :
    (angles inner).extents a = inner.extents a := by
  simp [angles, between]

@[simp]
theorem extents_list (item : Grammar R α) (items : List α) :
    (list item).extents items = items.flatMap item.extents := by
  cases items <;> rfl

@[simp]
theorem extents_typedValue (typed : TypedValue) :
    (typedValue (R := R)).extents typed = [typed.type.extent] :=
  rfl

@[simp]
theorem extents_nested (kind : RegionKind) (implicitTerminator : Bool) (inner : R) :
    (nested kind implicitTerminator).extents inner = [] :=
  rfl

@[simp]
theorem extents_values (used : List Reference) :
    used.flatMap (value (R := R)).extents = [] := by
  simp

@[simp]
theorem extents_types (types : List TypeText) :
    types.flatMap (type (R := R)).extents = types.map TypeText.extent :=
  List.map_eq_flatMap.symm

@[simp]
theorem extents_attributes (form : AttributeForm) (values : List AttributeText) :
    values.flatMap (attributeOf (R := R) form).extents = values.map AttributeText.extent :=
  List.map_eq_flatMap.symm

@[simp]
theorem extents_arguments (args : List Reference) : (arguments (R := R)).extents args = [] := by
  simp [arguments]

@[simp]
theorem extents_typeGroup (group : TypeGroup) :
    (typeGroup (R := R)).extents group = group.extents := by
  cases group with
  | single only => rfl
  | parenthesized types =>
    change (parens (listed type)).extents types = _
    rw [extents_parens, extents_listed, extents_types]
    rfl

@[simp]
theorem extents_resultTypes (group : TypeGroup) :
    (resultTypes (R := R)).extents group = group.extents := by
  simp [resultTypes]

@[simp]
theorem extents_annotation (types : List TypeText) :
    ( annotation (R := R)).extents types = types.map TypeText.extent := by
  simp [ annotation]

@[simp]
theorem extents_optionalAnnotation (types : Option (List TypeText)) :
    ( optionalAnnotation (R := R)).extents types = annotationExtents types := by
  cases types <;> simp [ optionalAnnotation, annotationExtents]

@[simp]
theorem extents_signature (typing : Signature) :
    (signature (R := R)).extents typing = typing.extents := by
  obtain ⟨inputs, results, span⟩ := typing
  change { span : Extent } :: (typeGroup.extents inputs ++
    (optional (.punct .arrow) resultTypes).extents results) = _
  cases results <;> simp [Signature.extents, groupExtents]

@[simp]
theorem extents_optionalSignature (typing : Option Signature) :
    (optionalSignature (R := R)).extents typing = signatureExtents typing := by
  cases typing <;> simp [optionalSignature, signatureExtents]

@[simp]
theorem extents_operands (both : Operands) :
    (operands (R := R)).extents both = both.types.map TypeText.extent := by
  obtain ⟨values, types⟩ := both
  change (list value).extents values ++ annotation.extents types = _
  simp

@[simp]
theorem extents_successor (target : Successor) :
    (successor (R := R)).extents target = target.extents := by
  obtain ⟨block, args⟩ := target
  change (optional (.punct .leftParen) (parens operands)).extents args = _
  cases args <;> simp [Successor.extents, operandExtents]

@[simp]
theorem extents_optionalWord (text : String) (present : Bool) :
    (optionalWord (R := R) text).extents present = [] := by
  cases present <;> rfl

@[simp]
theorem extents_optionalAnnotations (values : Option (List AttributeText)) :
    (optionalAnnotations (R := R)).extents values = attributeExtents values := by
  cases values <;> simp [optionalAnnotations, attributeExtents]

/-! ## Bodies of operations -/

/-- Whether the places that a body names are among those in what a grammar describes. -/
def Locates (grammar : Grammar R (Body R)) : Prop :=
  ∀ b, grammar.Builds b → ∀ extent ∈ b.extents, extent ∈ grammar.extents b

theorem Locates.ofView {as : View α (Body R)} {inner : Grammar R α}
    (listed : ∀ a, ∀ extent ∈ (as.build a).extents, extent ∈ inner.extents a) :
    (view as inner).Locates := by
  rintro _ ⟨a, rfl⟩
  rw [extents_view]
  exact listed a

attribute [local simp] Body.extents Payload.extents Instruction.extents Compound.extents

/-! ### Calls -/

@[simp]
theorem extents_afterCall (modifiers : CallModifiers) :
    (modifierRun (R := R) .afterCall).extents modifiers = modifiers.extents := by
  obtain ⟨_ | convention, _ | extra, _ | effect⟩ := modifiers <;> rfl

@[simp]
theorem extents_afterTryCall (modifiers : CallModifiers) :
    (modifierRun (R := R) .afterTryCall).extents modifiers = modifiers.extents := by
  obtain ⟨_ | convention, _ | extra, _ | effect⟩ := modifiers <;> rfl

theorem callOf_value_locates : (callOf (R := R) value).Locates :=
  .ofView fun (callee, args, typing, modifiers) => by simp

theorem callOf_symbol_locates : (callOf (R := R) symbol).Locates :=
  .ofView fun (callee, args, typing, modifiers) => by simp

theorem tryCallWithPointer_locates : (tryCallWithPointer (R := R)).Locates :=
  .ofView fun (pointer, callee, args, typing, modifiers) => by simp

theorem tryCallWithSuccessors_locates : (tryCallWithSuccessors (R := R)).Locates :=
  .ofView fun (callee, args, normal, unwind, typing, modifiers) => by simp

theorem memcpy_locates : (memcpy (R := R)).Locates :=
  .ofView fun (length, source, dest, typing) => by simp

theorem memchrInParens_locates : (memchrInParens (R := R)).Locates :=
  .ofView fun (source, pattern, length) => by simp [signatureExtents]

theorem memchr_locates : (memchr (R := R)).Locates :=
  .ofView fun ((source, pattern, length), typing) => by simp [signatureExtents, memchrOperands]

theorem fabs_locates : (fabs (R := R)).Locates :=
  .ofView fun (operand, result) => by simp

/-! ### Computing values -/

theorem constOf_locates {constant : Grammar R AttributeText}
    (given : ∀ value, constant.extents value = [value.extent]) : (constOf constant).Locates :=
  .ofView fun (constant, extra, result) => by
    simp [-List.mem_map, given]
    tauto

theorem castInParens_locates : (castInParens (R := R)).Locates :=
  .ofView fun ((kind, operand), extra, result) => by
    simp [-List.mem_map, CastTyping.extents]
    tauto

theorem castBare_locates : (castBare (R := R)).Locates :=
  .ofView fun (kind, operand, extra, typing) => by
    simp [-List.mem_map, CastTyping.extents]
    tauto

@[simp]
theorem extents_dynCastKind (kind : Lexeme × Bool) :
    (dynCastKind (R := R)).extents kind = [kind.1.extent] := by
  simp [dynCastKind]

theorem dynCastInParens_locates : (dynCastInParens (R := R)).Locates :=
  .ofView fun (((kind, relative), operand, info), result) => by
    cases info <;> simp [-List.mem_map, UnaryTyping.extents]
    tauto

theorem dynCastBare_locates : (dynCastBare (R := R)).Locates :=
  .ofView fun ((kind, relative), operand, typing, info) => by
    cases info <;> simp [UnaryTyping.extents]

theorem binop_locates : (binop (R := R)).Locates :=
  .ofView fun ((kind, left, right), extra, result) => by
    simp [-List.mem_map]
    tauto

theorem cmp_locates : (cmp (R := R)).Locates :=
  .ofView fun ((predicate, left, right), extra, result) => by
    simp [-List.mem_map]
    tauto

theorem unary_locates : (unary (R := R)).Locates :=
  .ofView fun ((kind, operand), extra, result) => by
    simp [-List.mem_map]
    tauto

theorem select_locates : (select (R := R)).Locates :=
  .ofView fun (cond, trueValue, falseValue, extra, result) => by
    simp [-List.mem_map]
    tauto

theorem shiftInParens_locates : (shiftInParens (R := R)).Locates :=
  .ofView fun ((direction, left, right), extra, result) => by
    simp [-List.mem_map, BinaryTyping.extents]
    tauto

theorem shiftBare_locates : (shiftBare (R := R)).Locates :=
  .ofView fun (direction, left, right, extra, typing) => by
    simp [-List.mem_map, BinaryTyping.extents]
    tauto

theorem objsizeInParens_locates : (objsizeInParens (R := R)).Locates :=
  .ofView fun ((kind, operand), extra, result) => by
    simp [-List.mem_map, UnaryTyping.extents]
    tauto

theorem objsizeBare_locates : (objsizeBare (R := R)).Locates :=
  .ofView fun (kind, operand, extra, typing) => by
    simp [-List.mem_map, UnaryTyping.extents]
    tauto

theorem countBits_locates (count : BitCount) : (countBits (R := R) count).Locates :=
  .ofView fun (operand, extra, result) => by
    simp [-List.mem_map]
    tauto

theorem countBitsOrPoison_locates (count : BitCount) :
    (countBitsOrPoison (R := R) count).Locates :=
  .ofView fun (operand, zeroPoison, extra, result) => by
    simp [-List.mem_map]
    tauto

/-! ### Memory -/

@[simp]
theorem extents_ofMemoryAccess (flags : AccessFlags) :
    (modifierRun (R := R) .ofMemoryAccess).extents flags = flags.extents := by
  obtain ⟨_ | _, _ | alignment, _ | atomic⟩ := flags <;> rfl

@[simp]
theorem extents_accessTypes (types : AccessTypes) :
    (accessTypes (R := R)).extents types = types.extents := by
  cases types <;> rfl

@[simp]
theorem extents_slotName (slot : SlotName) :
    (slotName (R := R)).extents slot = slot.extents := by
  obtain ⟨name, _ | init⟩ := slot <;> rfl

theorem alloca_locates : (alloca (R := R)).Locates :=
  .ofView fun (allocated, address, count, slot, extra, result) => by
    cases count <;> cases slot <;> simp [-List.mem_map] <;> tauto

theorem stackSave_locates : (stackSave (R := R)).Locates :=
  .ofView fun result => by simp

theorem stackRestore_locates : (stackRestore (R := R)).Locates :=
  .ofView fun (operand, result) => by simp

theorem load_locates : (load (R := R)).Locates :=
  .ofView fun (flags, address, extra, types) => by
    simp [-List.mem_map]
    tauto

theorem store_locates : (store (R := R)).Locates :=
  .ofView fun (flags, stored, address, extra, types) => by
    simp [-List.mem_map]
    tauto

theorem copyTo_locates : (copyTo (R := R)).Locates :=
  .ofView fun (source, dest, result) => by simp [annotationExtents]

theorem copyComma_locates : (copyComma (R := R)).Locates :=
  .ofView fun (dest, source, extra, result) => by
    simp [-List.mem_map]
    tauto

theorem getGlobal_locates : (getGlobal (R := R)).Locates :=
  .ofView fun (threadLocal, global, extra, result) => by
    simp [-List.mem_map]
    tauto

theorem structElementAddr_locates : (structElementAddr (R := R)).Locates :=
  .ofView fun (base, index, extra, result) => by
    simp [-List.mem_map]
    tauto

theorem getMember_locates : (getMember (R := R)).Locates :=
  .ofView fun (base, index, extra, result) => by
    simp [-List.mem_map]
    tauto

theorem getRuntimeMember_locates : (getRuntimeMember (R := R)).Locates :=
  .ofView fun (base, member, typing) => by simp

theorem strideInParens_locates : (strideInParens (R := R)).Locates :=
  .ofView fun ((base, stride), extra, result) => by
    simp [-List.mem_map, StrideTyping.extents]
    tauto

theorem strideBare_locates : (strideBare (R := R)).Locates :=
  .ofView fun (base, stride, typing) => by simp [StrideTyping.extents]

theorem blockAddress_locates : (blockAddress (R := R)).Locates :=
  .ofView fun ((function, literal), result) => by simp

/-! ### Transfer of control -/

@[simp]
theorem extents_handedOver (extra : Option AttributeText) (both : Option Operands) :
    (handedOver (R := R)).extents (extra, both) =
      extra.toList.map AttributeText.extent ++ operandExtents both := by
  cases both <;> simp [handedOver, operandExtents]

@[simp]
theorem extents_exception (thrown : Option Reference) :
    (exception (R := R)).extents thrown = [] := by
  cases thrown <;> rfl

theorem ret_locates : (ret (R := R)).Locates :=
  .ofView fun (extra, operands) => by
    simp [-List.mem_map]
    tauto

theorem yield_locates : (yield (R := R)).Locates :=
  .ofView fun (extra, operands) => by
    simp [-List.mem_map]
    tauto

theorem condition_locates : (condition (R := R)).Locates :=
  .ofView fun (cond, extra) => by simp

theorem bare_locates (terminator : BareTerminator) : (bare (R := R) terminator).Locates :=
  .ofView fun extra => by simp

theorem br_locates : (br (R := R)).Locates :=
  .ofView fun (dest, extra) => by simp

theorem brcond_locates : (brcond (R := R)).Locates :=
  .ofView fun (cond, thenDest, elseDest, extra) => by simp

theorem indirectBr_locates : (indirectBr (R := R)).Locates :=
  .ofView fun (address, addressType, targets, extra) => by simp

theorem labelMark_locates : (labelMark (R := R)).Locates :=
  .ofView fun (literal, extra) => by simp

theorem throw_locates : (throw (R := R)).Locates :=
  .ofView fun (thrown, extra, result) => by
    simp [-List.mem_map]
    tauto

theorem catchParam_locates : (catchParam (R := R)).Locates :=
  .ofView fun (caught, result) => by simp

/-! ### Structured control flow -/

@[simp]
theorem extents_wordRegion (text : String) (kind : RegionKind) (implicitTerminator : Bool)
    (inner : R) : (wordRegion text kind implicitTerminator).extents inner = [] :=
  rfl

@[simp]
theorem extents_optionalRegion (text : String) (kind : RegionKind) (implicitTerminator : Bool)
    (inner : Option R) : (optionalRegion text kind implicitTerminator).extents inner = [] := by
  cases inner <;> rfl

theorem ifElse_locates : (ifElse (R := R)).Locates :=
  .ofView fun (cond, thenRegion, elseRegion, extra, result) => by
    simp [-List.mem_map]
    tauto

theorem ternary_locates : (ternary (R := R)).Locates :=
  .ofView fun ((cond, trueRegion, falseRegion), extra, typing) => by
    simp [-List.mem_map]
    tauto

theorem scope_locates : (scope (R := R)).Locates :=
  .ofView fun (body, cleanup, extra, result) => by
    simp [-List.mem_map]
    tauto

theorem switch_locates : (switch (R := R)).Locates :=
  .ofView fun (cond, body, extra) => by simp

theorem caseArm_locates : (caseArm (R := R)).Locates :=
  .ofView fun ((kind, values), body) => by simp

theorem loop_locates : (loop (R := R)).Locates :=
  .ofView fun (kind, (cond, body, step), extra, result) => by
    simp [-List.mem_map]
    tauto

theorem forLoop_locates : (forLoop (R := R)).Locates :=
  .ofView fun (cond, body, step, extra) => by simp

theorem whileOf_locates (cond body : Grammar R R) : (whileOf cond body).Locates :=
  .ofView fun (cond, body, extra) => by
    simp [-List.mem_map]
    tauto

theorem doWhileOf_locates (body cond : Grammar R R) : (doWhileOf body cond).Locates :=
  .ofView fun (body, cond, extra) => by
    simp [-List.mem_map]
    tauto

theorem await_locates : (await (R := R)).Locates :=
  .ofView fun ((kind, ready, suspend, resume), extra) => by
    simp [-List.mem_map]
    tauto

@[simp]
theorem extents_handler (clause : Handler R) :
    handler.extents clause = [clause.handled.extent] := by
  obtain ⟨_ | _, handled, inner, _ | _⟩ := clause <;> rfl

@[simp]
theorem extents_handlers (clauses : List (Handler R)) :
    clauses.flatMap handler.extents = clauses.map (·.handled.extent) := by
  simp only [List.map_eq_flatMap, ← extents_handler]

theorem tryCatch_locates : (tryCatch (R := R)).Locates :=
  .ofView fun (body, clauses, cleanup, extra) => by
    cases clauses <;> simp [-List.mem_map]

/-! ### Functions and globals -/

@[simp]
theorem extents_beforeFunctionName (modifiers : FunctionModifiers) :
    (modifierRun (R := R) .beforeFunctionName).extents modifiers = [] := by
  obtain ⟨_ | _, _ | _, _ | _, _ | _, _ | _, _ | linkage⟩ := modifiers <;> rfl

@[simp]
theorem extents_afterFunctionSignature (traits : FunctionTraits) :
    (modifierRun (R := R) .afterFunctionSignature).extents traits = traits.extents := by
  obtain ⟨_ | convention, _ | aliasFor, _ | _ | ctor, _ | _ | dtor, _ | special⟩ := traits <;> rfl

@[simp]
theorem extents_beforeGlobalName (modifiers : GlobalModifiers) :
    (modifierRun (R := R) .beforeGlobalName).extents modifiers = modifiers.extents := by
  obtain ⟨_ | linkage, _ | _, _ | _, _ | tls, _ | _ | _⟩ := modifiers <;> rfl

@[simp]
theorem extents_parameter (one : Parameter) :
    (parameter (R := R)).extents one = one.extents := by
  obtain ⟨_ | defined, itsType, _ | attributes⟩ := one <;> rfl

@[simp]
theorem extents_initializer (init : Initializer R) : initializer.extents init = init.extents := by
  cases init with
  | constructed itsType ctor dtor => cases dtor <;> rfl
  | destructed itsType dtor => rfl
  | given value => rfl

theorem func_locates : (func (R := R)).Locates :=
  .ofView fun (modifiers, defined, (parameters, variadic), result, traits, annotations, attributes,
      body) => by
    cases result <;> cases attributes <;> simp [-List.mem_map, Function.extents, groupExtents]

theorem global_locates : (global (R := R)).Locates :=
  .ofView fun (visibility, modifiers, defined, init, result, annotations, extra) => by
    cases visibility <;> cases init <;> simp [-List.mem_map, Global.extents]

/-- The places that a body of an operation names are all described by its grammar. -/
theorem body_locates (opcode : Opcode) (form : Form) : (body (R := R) opcode form).Locates := by
  unfold body
  split
  · exact func_locates
  · exact callOf_value_locates
  · exact callOf_symbol_locates
  · exact tryCallWithPointer_locates
  · exact tryCallWithSuccessors_locates
  · exact ret_locates
  · exact alloca_locates
  · exact load_locates
  · exact store_locates
  · exact constOf_locates fun value => extents_parens _ value
  · exact constOf_locates fun value => rfl
  · exact constOf_locates fun value => rfl
  · exact castInParens_locates
  · exact castBare_locates
  · exact binop_locates
  · exact cmp_locates
  · exact unary_locates
  · exact br_locates
  · exact brcond_locates
  · exact yield_locates
  · exact ifElse_locates
  · exact scope_locates
  · exact loop_locates
  · exact forLoop_locates
  · exact whileOf_locates _ _
  · exact whileOf_locates _ _
  · exact doWhileOf_locates _ _
  · exact doWhileOf_locates _ _
  · exact condition_locates
  · exact await_locates
  · exact global_locates
  · exact getGlobal_locates
  · exact strideInParens_locates
  · exact strideBare_locates
  · exact tryCatch_locates
  · exact throw_locates
  · exact catchParam_locates
  · exact bare_locates .resume
  · exact structElementAddr_locates
  · exact getMember_locates
  · exact switch_locates
  · exact caseArm_locates
  · exact ternary_locates
  · exact select_locates
  · exact copyTo_locates
  · exact copyComma_locates
  · exact bare_locates .breakLoop
  · exact bare_locates .continueLoop
  · exact bare_locates .unreachable
  · exact bare_locates .trap
  · exact objsizeInParens_locates
  · exact objsizeBare_locates
  · exact shiftInParens_locates
  · exact shiftBare_locates
  · exact countBits_locates .clrsb
  · exact countBits_locates .ffs
  · exact countBits_locates .parity
  · exact countBitsOrPoison_locates .clz
  · exact countBitsOrPoison_locates .ctz
  · exact countBitsOrPoison_locates .popcount
  · exact dynCastInParens_locates
  · exact dynCastBare_locates
  · exact blockAddress_locates
  · exact indirectBr_locates
  · exact labelMark_locates
  · exact memcpy_locates
  · exact memchrInParens_locates
  · exact memchr_locates
  · exact fabs_locates
  · exact stackSave_locates
  · exact stackRestore_locates
  · exact getRuntimeMember_locates

end Grammar

end CirText
