import CirText.Proofs.Grammar.Pieces
import CirText.Operation.Walk
import Mathlib.Data.List.Perm.Basic

/-!
# What operations mention

The names and regions among the pieces of the body of an operation are exactly the names that the
operation defines, the names that it refers to, and its regions.
-/

namespace CirText

variable {R : Type}

/-- A name or a region among the pieces of an operation. -/
inductive Mention (R : Type) where
  | definition (defined : Definition)
  | reference (used : Reference)
  | region (inner : R)

/-- The name that is defined, if one is. -/
def Mention.definition? : Mention R → Option Definition
  | .definition defined => some defined
  | _ => none

/-- The names and regions among pieces. -/
def mentions : List (Piece R) → List (Mention R)
  | [] => []
  | .blank :: rest | .token .. :: rest | .type _ :: rest | .attribute _ :: rest => mentions rest
  | .reference used :: rest => .reference used :: mentions rest
  | .definition defined :: rest => .definition defined :: mentions rest
  | .region inner :: rest => .region inner :: mentions rest

attribute [simp] mentions

/-- What a piece mentions. -/
def Piece.mention? : Piece R → Option (Mention R)
  | .reference used => some (.reference used)
  | .definition defined => some (.definition defined)
  | .region inner => some (.region inner)
  | _ => none

theorem mentions_eq_filterMap (pieces : List (Piece R)) :
    mentions pieces = pieces.filterMap Piece.mention? := by
  induction pieces with
  | nil => rfl
  | cons piece pieces ih =>
    rw [List.filterMap_cons, ← ih]
    cases piece <;> rfl

@[simp]
theorem mentions_punct (mark : Punct) (rest : List (Piece R)) :
    mentions (.punct mark :: rest) = mentions rest :=
  rfl

@[simp]
theorem mentions_word (text : String) (rest : List (Piece R)) :
    mentions (.word text :: rest) = mentions rest :=
  rfl

@[simp]
theorem mentions_append (left right : List (Piece R)) :
    mentions (left ++ right) = mentions left ++ mentions right := by
  induction left using mentions.induct <;> simp_all

@[simp]
theorem mentions_commaed (items : List (List (Piece R))) :
    mentions (Piece.commaed items) = items.flatMap mentions := by
  induction items with
  | nil => rfl
  | cons item items ih =>
    cases items with
    | nil => simp
    | cons next items =>
      rw [Piece.commaed_cons_cons, mentions_append, mentions_punct, mentions, ih]
      rfl

@[simp]
theorem mentions_arrange (separator : Separator) (items : List (List (Piece R))) :
    mentions (Piece.arrange separator items) = items.flatMap mentions := by
  cases separator with
  | comma => exact mentions_commaed items
  | blank =>
    induction items with
    | nil => rfl
    | cons item items ih =>
      cases items with
      | nil => simp [Piece.arrange]
      | cons next items =>
        rw [Piece.arrange] at ih ⊢
        rw [List.intercalate_cons_cons, mentions_append, mentions_append, ih, List.append_assoc]
        rfl

@[simp]
theorem mentions_flatMap {α : Type} (pieces : α → List (Piece R)) (items : List α) :
    mentions (items.flatMap pieces) = items.flatMap fun item => mentions (pieces item) := by
  induction items with
  | nil => rfl
  | cons item items ih => rw [List.flatMap_cons, mentions_append, ih, List.flatMap_cons]

@[simp]
private theorem flatMap_nothing {α β : Type} (items : List α) :
    items.flatMap (fun _ => ([] : List β)) = [] := by
  induction items with
  | nil => rfl
  | cons item items ih => rw [List.flatMap_cons, ih]; rfl

/-! ## What payloads mention -/

/-- The names that the operation itself refers to, in the order of its arguments. -/
def Payload.references : Payload R → List Reference
  | .instruction plain => plain.references
  | .compound structured => structured.references

/-- The names that the operation itself defines, not counting its results and its regions. -/
def Compound.definitions : Compound R → List Definition
  | .func function => function.name :: function.parameters.filterMap (·.name)
  | .global decl => [decl.name]
  | _ => []

/-- The names that the operation itself defines, not counting its results and its regions. -/
def Payload.definitions : Payload R → List Definition
  | .instruction _ => []
  | .compound structured => structured.definitions

/-- The names and regions of an operation, not counting its results. -/
def Payload.mentions (payload : Payload R) : List (Mention R) :=
  payload.definitions.map .definition ++ payload.references.map .reference ++
    payload.regions.map .region

namespace Grammar

/-! ## Grammars without names and regions -/

@[simp]
theorem mentions_typeGroup (group : TypeGroup) :
    mentions ((typeGroup (R := R)).pieces group) = [] := by
  cases group <;> simp [typeGroup, pieces]

@[simp]
theorem mentions_optional {α : Type} (present : Guard) (inner : Grammar R α) (a : Option α) :
    mentions ((optional present inner).pieces a) =
      a.toList.flatMap fun inside => mentions (inner.pieces inside) := by
  cases a <;> simp [pieces]

@[simp]
theorem mentions_resultTypes (group : TypeGroup) :
    mentions ((resultTypes (R := R)).pieces group) = [] := by
  simp [resultTypes]

@[simp]
theorem mentions_annotation (written : List TypeText) :
    mentions (( annotation (R := R)).pieces written) = [] := by
  simp [ annotation, pieces]

@[simp]
theorem mentions_optionalAnnotation (written : Option (List TypeText)) :
    mentions (( optionalAnnotation (R := R)).pieces written) = [] := by
  simp [ optionalAnnotation]

@[simp]
theorem mentions_signature (typing : Signature) :
    mentions ((signature (R := R)).pieces typing) = [] := by
  simp [signature, pieces]

@[simp]
theorem mentions_optionalSignature (typing : Option Signature) :
    mentions ((optionalSignature (R := R)).pieces typing) = [] := by
  simp [optionalSignature]

@[simp]
theorem mentions_trailingAttribute (extra : Option AttributeText) :
    mentions ((trailingAttribute (R := R)).pieces extra) = [] := by
  cases extra <;> simp [pieces]

@[simp]
theorem mentions_optionalWord (text : String) (present : Bool) :
    mentions ((optionalWord (R := R) text).pieces present) = [] := by
  cases present <;> simp [optionalWord, flag, pieces]

@[simp]
theorem mentions_optionalAnnotations (values : Option (List AttributeText)) :
    mentions ((optionalAnnotations (R := R)).pieces values) = [] := by
  simp [optionalAnnotations, pieces]


@[simp]
theorem mentions_values (used : List Reference) :
    (used.map fun one => [Piece.reference (R := R) one]).flatMap mentions =
      used.map .reference := by
  induction used with
  | nil => rfl
  | cons one used ih => rw [List.map_cons, List.flatMap_cons, ih]; rfl

/-- Whether what a grammar builds are bodies of an operation that consist of what the operation
mentions. -/
structure Describes (opcode : Opcode) (grammar : Grammar R (Body R)) : Prop where
  opcode : ∀ b, grammar.Builds b → b.payload.opcode = opcode
  mentions : ∀ b, grammar.Builds b → (mentions (grammar.pieces b)).Perm b.payload.mentions

theorem Describes.ofView {α : Type} {opcode : Opcode} {as : View α (Body R)} {inner : Grammar R α}
    (same : ∀ a, (as.build a).payload.opcode = opcode)
    (listed : ∀ a, (CirText.mentions (inner.pieces a)).Perm (as.build a).payload.mentions) :
    (view as inner).Describes opcode where
  opcode := by
    rintro _ ⟨a, rfl⟩
    exact same a
  mentions := by
    rintro _ ⟨a, rfl⟩
    rw [pieces_view]
    exact listed a

attribute [local simp] Payload.mentions Payload.references Payload.regions Payload.definitions
  Instruction.references Compound.references Compound.definitions Compound.regions

/-! ## Calls -/

@[simp]
theorem mentions_afterCall (modifiers : CallModifiers) :
    mentions ((modifierRun (R := R) .afterCall).pieces modifiers) = [] := by
  obtain ⟨_ | convention, _ | extra, _ | effect⟩ := modifiers <;> rfl

@[simp]
theorem mentions_afterTryCall (modifiers : CallModifiers) :
    mentions ((modifierRun (R := R) .afterTryCall).pieces modifiers) = [] :=
  mentions_afterCall modifiers

theorem callOf_value_describes : (callOf (R := R) value).Describes .call :=
  .ofView (fun _ => rfl) fun (callee, args, typing, modifiers) => by simp

theorem callOf_symbol_describes : (callOf (R := R) symbol).Describes .call :=
  .ofView (fun _ => rfl) fun (callee, args, typing, modifiers) => by simp

theorem tryCallWithPointer_describes : (tryCallWithPointer (R := R)).Describes .tryCall :=
  .ofView (fun _ => rfl) fun (pointer, callee, args, typing, modifiers) => by simp

theorem tryCallWithSuccessors_describes : (tryCallWithSuccessors (R := R)).Describes .tryCall :=
  .ofView (fun _ => rfl) fun (callee, args, normal, unwind, typing, modifiers) => by simp

theorem memcpy_describes : (memcpy (R := R)).Describes .memcpy :=
  .ofView (fun _ => rfl) fun (length, source, dest, typing) => by simp

theorem memchrInParens_describes : (memchrInParens (R := R)).Describes .memchr :=
  .ofView (fun _ => rfl) fun (source, pattern, length) => by simp [memchrOperands]

theorem memchr_describes : (memchr (R := R)).Describes .memchr :=
  .ofView (fun _ => rfl) fun ((source, pattern, length), typing) => by simp [memchrOperands]

theorem fabs_describes : (fabs (R := R)).Describes .fabs :=
  .ofView (fun _ => rfl) fun (operand, result) => by simp

/-! ## Computing values -/

@[simp]
theorem mentions_attributeOf (form : AttributeForm) (value : AttributeText) :
    mentions ((attributeOf (R := R) form).pieces value) = [] :=
  rfl

@[simp]
theorem mentions_namedAttribute (value : AttributeText) :
    mentions ((namedAttribute (R := R)).pieces value) = [] :=
  rfl

theorem constOf_describes {constant : Grammar R AttributeText}
    (silent : ∀ value, mentions (constant.pieces value) = []) :
    (constOf constant).Describes .const :=
  .ofView (fun _ => rfl) fun (constant, extra, result) => by simp [silent]

theorem castInParens_describes : (castInParens (R := R)).Describes .cast :=
  .ofView (fun _ => rfl) fun ((kind, operand), extra, result) => by simp [identifier]

theorem castBare_describes : (castBare (R := R)).Describes .cast :=
  .ofView (fun _ => rfl) fun (kind, operand, extra, typing) => by simp [identifier]

@[simp]
theorem mentions_dynCastKind (kind : Lexeme × Bool) :
    mentions ((dynCastKind (R := R)).pieces kind) = [] := by
  obtain ⟨kind, relative⟩ := kind
  cases relative <;> rfl

theorem dynCastInParens_describes : (dynCastInParens (R := R)).Describes .dynCast :=
  .ofView (fun _ => rfl) fun (((kind, relative), operand, info), result) => by simp

theorem dynCastBare_describes : (dynCastBare (R := R)).Describes .dynCast :=
  .ofView (fun _ => rfl) fun ((kind, relative), operand, typing, info) => by simp

theorem binop_describes : (binop (R := R)).Describes .binop :=
  .ofView (fun _ => rfl) fun ((kind, left, right), extra, result) => by simp [identifier]

theorem cmp_describes : (cmp (R := R)).Describes .cmp :=
  .ofView (fun _ => rfl) fun ((predicate, left, right), extra, result) => by simp [identifier]

theorem unary_describes : (unary (R := R)).Describes .unary :=
  .ofView (fun _ => rfl) fun ((kind, operand), extra, result) => by simp [identifier]

theorem select_describes : (select (R := R)).Describes .select :=
  .ofView (fun _ => rfl) fun (cond, trueValue, falseValue, extra, result) => by simp

theorem shiftInParens_describes : (shiftInParens (R := R)).Describes .shift :=
  .ofView (fun _ => rfl) fun ((direction, left, right), extra, result) => by simp [identifier]

theorem shiftBare_describes : (shiftBare (R := R)).Describes .shift :=
  .ofView (fun _ => rfl) fun (direction, left, right, extra, typing) => by simp [identifier]

theorem objsizeInParens_describes : (objsizeInParens (R := R)).Describes .objsize :=
  .ofView (fun _ => rfl) fun ((kind, operand), extra, result) => by simp [identifier]

theorem objsizeBare_describes : (objsizeBare (R := R)).Describes .objsize :=
  .ofView (fun _ => rfl) fun (kind, operand, extra, typing) => by simp [identifier]

theorem countBits_describes (count : BitCount) :
    (countBits (R := R) count).Describes count.opcode :=
  .ofView (fun _ => rfl) fun (operand, extra, result) => by simp

theorem countBitsOrPoison_describes (count : BitCount) :
    (countBitsOrPoison (R := R) count).Describes count.opcode :=
  .ofView (fun _ => rfl) fun (operand, zeroPoison, extra, result) => by simp

/-! ## Memory -/

@[simp]
theorem mentions_ofMemoryAccess (flags : AccessFlags) :
    mentions ((modifierRun (R := R) .ofMemoryAccess).pieces flags) = [] := by
  obtain ⟨_ | _, _ | alignment, _ | atomic⟩ := flags <;> rfl

@[simp]
theorem mentions_accessTypes (types : AccessTypes) :
    mentions ((accessTypes (R := R)).pieces types) = [] := by
  cases types <;> rfl

@[simp]
theorem mentions_slotName (slot : SlotName) : mentions ((slotName (R := R)).pieces slot) = [] := by
  obtain ⟨name, _ | init⟩ := slot <;> rfl

theorem alloca_describes : (alloca (R := R)).Describes .alloca :=
  .ofView (fun _ => rfl) fun (allocated, address, count, slot, extra, result) => by
    cases count <;> cases slot <;> simp

theorem stackSave_describes : (stackSave (R := R)).Describes .stackSave :=
  .ofView (fun _ => rfl) fun result => by simp

theorem stackRestore_describes : (stackRestore (R := R)).Describes .stackRestore :=
  .ofView (fun _ => rfl) fun (operand, result) => by simp

theorem load_describes : (load (R := R)).Describes .load :=
  .ofView (fun _ => rfl) fun (flags, address, extra, types) => by simp

theorem store_describes : (store (R := R)).Describes .store :=
  .ofView (fun _ => rfl) fun (flags, stored, address, extra, types) => by simp

theorem copyTo_describes : (copyTo (R := R)).Describes .copy :=
  .ofView (fun _ => rfl) fun (source, dest, result) => by simp

theorem copyComma_describes : (copyComma (R := R)).Describes .copy :=
  .ofView (fun _ => rfl) fun (dest, source, extra, result) => by
    simp only [pieces_seq, pieces_spaced, pieces_comma, pieces_value, pieces_recommended]
    simp [List.Perm.swap]

theorem getGlobal_describes : (getGlobal (R := R)).Describes .getGlobal :=
  .ofView (fun _ => rfl) fun (threadLocal, global, extra, result) => by simp

theorem structElementAddr_describes : (structElementAddr (R := R)).Describes .structElementAddr :=
  .ofView (fun _ => rfl) fun (base, index, extra, result) => by simp [integer]

theorem getMember_describes : (getMember (R := R)).Describes .getMember :=
  .ofView (fun _ => rfl) fun (base, index, extra, result) => by simp [integer]

theorem getRuntimeMember_describes : (getRuntimeMember (R := R)).Describes .getRuntimeMember :=
  .ofView (fun _ => rfl) fun (base, member, typing) => by simp

theorem strideInParens_describes : (strideInParens (R := R)).Describes .ptrStride :=
  .ofView (fun _ => rfl) fun ((base, stride), extra, result) => by simp

theorem strideBare_describes : (strideBare (R := R)).Describes .ptrStride :=
  .ofView (fun _ => rfl) fun (base, stride, typing) => by simp

theorem blockAddress_describes : (blockAddress (R := R)).Describes .blockAddress :=
  .ofView (fun _ => rfl) fun ((function, literal), result) => by simp [string]

/-! ## Transfer of control -/

theorem mentions_handedOver (extra : Option AttributeText) (both : Option Operands) :
    mentions ((handedOver (R := R)).pieces (extra, both)) =
      (Operands.references both).map .reference := by
  cases both <;> simp [handedOver, Operands.references]

@[simp]
theorem mentions_successor (target : Successor) :
    mentions ((successor (R := R)).pieces target) = target.references.map .reference := by
  obtain ⟨block, _ | args⟩ :=
    target <;> simp [successor, pieces, Successor.references, Operands.references]

@[simp]
theorem mentions_exception (thrown : Option Reference) :
    mentions ((exception (R := R)).pieces thrown) = thrown.toList.map .reference := by
  cases thrown <;> rfl

theorem ret_describes : (ret (R := R)).Describes .ret :=
  .ofView (fun _ => rfl) fun (extra, operands) => by simp [mentions_handedOver]

theorem yield_describes : (yield (R := R)).Describes .yield :=
  .ofView (fun _ => rfl) fun (extra, operands) => by simp [mentions_handedOver]

theorem condition_describes : (condition (R := R)).Describes .condition :=
  .ofView (fun _ => rfl) fun (cond, extra) => by simp

theorem bare_describes (terminator : BareTerminator) :
    (bare (R := R) terminator).Describes terminator.opcode :=
  .ofView (fun _ => rfl) fun extra => by simp

theorem br_describes : (br (R := R)).Describes .br :=
  .ofView (fun _ => rfl) fun (dest, extra) => by simp

theorem brcond_describes : (brcond (R := R)).Describes .brcond :=
  .ofView (fun _ => rfl) fun (cond, thenDest, elseDest, extra) => by simp

theorem indirectBr_describes : (indirectBr (R := R)).Describes .indirectBr :=
  .ofView (fun _ => rfl) fun (address, addressType, targets, extra) => by
    have labels : (targets.map (label (R := R)).pieces).flatMap mentions =
        targets.map .reference := mentions_values targets
    simp [labels]

theorem labelMark_describes : (labelMark (R := R)).Describes .label :=
  .ofView (fun _ => rfl) fun (literal, extra) => by simp [string]

theorem throw_describes : (throw (R := R)).Describes .throw :=
  .ofView (fun _ => rfl) fun (thrown, extra, result) => by simp

theorem catchParam_describes : (catchParam (R := R)).Describes .catchParam :=
  .ofView (fun _ => rfl) fun (caught, result) => by simp

/-! ## Structured control flow -/

@[simp]
theorem mentions_optionalRegion (text : String) (kind : RegionKind) (implicitTerminator : Bool)
    (inner : Option R) :
    mentions ((optionalRegion text kind implicitTerminator).pieces inner) =
      inner.toList.map .region := by
  cases inner <;> rfl

theorem ifElse_describes : (ifElse (R := R)).Describes .ifElse :=
  .ofView (fun _ => rfl) fun (cond, thenRegion, elseRegion, extra, result) => by simp

theorem ternary_describes : (ternary (R := R)).Describes .ternary :=
  .ofView (fun _ => rfl) fun ((cond, trueRegion, falseRegion), extra, typing) => by simp

theorem scope_describes : (scope (R := R)).Describes .scope :=
  .ofView (fun _ => rfl) fun (body, cleanup, extra, result) => by simp

theorem switch_describes : (switch (R := R)).Describes .switch :=
  .ofView (fun _ => rfl) fun (cond, body, extra) => by simp

theorem caseArm_describes : (caseArm (R := R)).Describes .caseArm :=
  .ofView (fun _ => rfl) fun ((kind, values), body) => by simp [pieces, identifier]

theorem loop_describes : (loop (R := R)).Describes .loop :=
  .ofView (fun _ => rfl) fun (kind, (cond, body, step), extra, result) => by
    cases cond <;> cases step <;> simp [identifier, colonRegion]

theorem forLoop_describes : (forLoop (R := R)).Describes .forLoop :=
  .ofView (fun _ => rfl) fun (cond, body, step, extra) => by simp [wordRegion]

/-- A grammar of one region has no other names and regions. -/
def Encloses (grammar : Grammar R R) : Prop :=
  ∀ inner, mentions (grammar.pieces inner) = [.region inner]

theorem whileOf_describes {cond body : Grammar R R} (first : cond.Encloses)
    (second : body.Encloses) : (whileOf cond body).Describes .whileLoop :=
  .ofView (fun _ => rfl) fun (cond, body, extra) => by simp [first cond, second body]

theorem doWhileOf_describes {body cond : Grammar R R} (first : body.Encloses)
    (second : cond.Encloses) : (doWhileOf body cond).Describes .doWhile :=
  .ofView (fun _ => rfl) fun (body, cond, extra) => by simp [first body, second cond]

theorem await_describes : (await (R := R)).Describes .await :=
  .ofView (fun _ => rfl) fun ((kind, ready, suspend, resume), extra) => by
    simp [identifier, colonRegion]

@[simp]
theorem mentions_handler (clause : Handler R) :
    mentions (handler.pieces clause) = [.region clause.region] := by
  obtain ⟨_ | _, handled, inner, _ | _⟩ := clause <;> rfl

@[simp]
theorem mentions_handlers (clauses : List (Handler R)) :
    mentions ((bracketed .blank handler).pieces clauses) =
      clauses.map fun clause => .region clause.region := by
  have inside : (clauses.map (handler (R := R)).pieces).flatMap mentions =
      clauses.map fun clause => .region clause.region := by
    induction clauses with
    | nil => rfl
    | cons clause clauses ih => rw [List.map_cons, List.flatMap_cons, ih, mentions_handler]; rfl
  simp [pieces, inside]

theorem tryCatch_describes : (tryCatch (R := R)).Describes .tryCatch :=
  .ofView (fun _ => rfl) fun (body, clauses, cleanup, extra) => by
    cases clauses <;> simp [Function.comp_def]

/-! ## Functions and globals -/

@[simp]
theorem mentions_beforeFunctionName (modifiers : FunctionModifiers) :
    mentions ((modifierRun (R := R) .beforeFunctionName).pieces modifiers) = [] := by
  obtain ⟨_ | _, _ | _, _ | _, _ | _, _ | _, _ | linkage⟩ := modifiers <;> rfl

@[simp]
theorem mentions_afterFunctionSignature (traits : FunctionTraits) :
    mentions ((modifierRun (R := R) .afterFunctionSignature).pieces traits) =
      traits.aliasFor.toList.map .reference := by
  obtain ⟨_ | convention, _ | aliasFor, _ | _ | ctor, _ | _ | dtor, _ | special⟩ := traits <;> rfl

@[simp]
theorem mentions_beforeGlobalName (modifiers : GlobalModifiers) :
    mentions ((modifierRun (R := R) .beforeGlobalName).pieces modifiers) = [] := by
  obtain ⟨_ | linkage, _ | _, _ | _, _ | tls, _ | _ | _⟩ := modifiers <;> rfl

@[simp]
theorem mentions_parameter (one : Parameter) :
    mentions ((parameter (R := R)).pieces one) = one.name.toList.map .definition := by
  obtain ⟨_ | defined, itsType, _ | attributes⟩ := one <;> rfl

@[simp]
theorem mentions_parameters (parameters : List Parameter) (variadic : Bool) :
    mentions ((listedWithEllipsis (parameter (R := R))).pieces (parameters, variadic)) =
      (parameters.filterMap (·.name)).map .definition := by
  have named : (parameters.map (parameter (R := R)).pieces).flatMap mentions =
      (parameters.filterMap (·.name)).map .definition := by
    induction parameters with
    | nil => rfl
    | cons one rest ih =>
      rw [List.map_cons, List.flatMap_cons, ih, mentions_parameter]
      cases name : one.name <;> simp [name]
  cases variadic <;> simp [pieces, named]

theorem func_describes : (func (R := R)).Describes .func :=
  .ofView (fun _ => rfl) fun (modifiers, defined, (parameters, variadic), result, traits,
      annotations, attributes, body) => by
    cases body <;> simp

@[simp]
theorem mentions_initializer (init : Initializer R) :
    mentions (initializer.pieces init) = init.regions.map .region := by
  cases init with
  | constructed itsType ctor dtor => cases dtor <;> rfl
  | destructed itsType dtor => rfl
  | given value => rfl

theorem global_describes : (global (R := R)).Describes .global :=
  .ofView (fun _ => rfl) fun (visibility, modifiers, defined, init, result, annotations,
      extra) => by
    cases init <;> simp [string]

/-! ## All operations -/

/-- What follows the keyword of an operation is a body of the operation, and the names and regions
in it are the ones that the operation mentions. -/
theorem body_describes (opcode : Opcode) (form : Form) :
    (body (R := R) opcode form).Describes opcode := by
  unfold body
  split
  · exact func_describes
  · exact callOf_value_describes
  · exact callOf_symbol_describes
  · exact tryCallWithPointer_describes
  · exact tryCallWithSuccessors_describes
  · exact ret_describes
  · exact alloca_describes
  · exact load_describes
  · exact store_describes
  · exact constOf_describes fun value => rfl
  · exact constOf_describes fun value => rfl
  · exact constOf_describes fun value => rfl
  · exact castInParens_describes
  · exact castBare_describes
  · exact binop_describes
  · exact cmp_describes
  · exact unary_describes
  · exact br_describes
  · exact brcond_describes
  · exact yield_describes
  · exact ifElse_describes
  · exact scope_describes
  · exact loop_describes
  · exact forLoop_describes
  · exact whileOf_describes (fun _ => rfl) fun _ => rfl
  · exact whileOf_describes (fun _ => rfl) fun _ => rfl
  · exact doWhileOf_describes (fun _ => rfl) fun _ => rfl
  · exact doWhileOf_describes (fun _ => rfl) fun _ => rfl
  · exact condition_describes
  · exact await_describes
  · exact global_describes
  · exact getGlobal_describes
  · exact strideInParens_describes
  · exact strideBare_describes
  · exact tryCatch_describes
  · exact throw_describes
  · exact catchParam_describes
  · exact bare_describes .resume
  · exact structElementAddr_describes
  · exact getMember_describes
  · exact switch_describes
  · exact caseArm_describes
  · exact ternary_describes
  · exact select_describes
  · exact copyTo_describes
  · exact copyComma_describes
  · exact bare_describes .breakLoop
  · exact bare_describes .continueLoop
  · exact bare_describes .unreachable
  · exact bare_describes .trap
  · exact objsizeInParens_describes
  · exact objsizeBare_describes
  · exact shiftInParens_describes
  · exact shiftBare_describes
  · exact countBits_describes .clrsb
  · exact countBits_describes .ffs
  · exact countBits_describes .parity
  · exact countBitsOrPoison_describes .clz
  · exact countBitsOrPoison_describes .ctz
  · exact countBitsOrPoison_describes .popcount
  · exact dynCastInParens_describes
  · exact dynCastBare_describes
  · exact blockAddress_describes
  · exact indirectBr_describes
  · exact labelMark_describes
  · exact memcpy_describes
  · exact memchrInParens_describes
  · exact memchr_describes
  · exact fabs_describes
  · exact stackSave_describes
  · exact stackRestore_describes
  · exact getRuntimeMember_describes

end Grammar

/-! ## Walks and references -/

theorem Operation.preorder_eq (op : Operation) :
    op.preorder = op :: op.children.flatMap Operation.preorder := by
  rw [Operation.preorder]
  simp [List.flatMap_subtype]

/-- The names that an operation refers to are the ones that its payload mentions. -/
theorem Node.references_perm (node : Node R) : node.references.Perm node.payload.references := by
  obtain ⟨_, _, payload, form, _, _⟩ := node
  cases payload with
  | compound structured => exact .refl _
  | instruction plain =>
    cases plain
    case copy source dest result =>
      simp only [Node.references]
      split
      · exact .swap _ _ _
      · exact .refl _
    all_goals exact .refl _

end CirText
