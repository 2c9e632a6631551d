import CirText.Grammar.Body

/-!
# Memory

Stack slots, loads and stores, addresses of globals, members and labels, and copies.
-/

namespace CirText.Grammar

variable {R : Type}

/-! ## Stack slots -/

/-- The name of a stack slot, `["name", init]`. -/
def slotName : Grammar R SlotName :=
  view
    { build := fun (literal, init) => ⟨literal, init⟩
      read := fun slot => some (slot.name, slot.init) } <|
  brackets <|
  seq string (optional (.punct .comma) (comma (identifier "an initialization kind")))

/-- A stack slot, `cir.alloca allocated, address, %n : type, ["name", init] attribute : type`. -/
def alloca : Grammar R (Body R) :=
  view
    { build := fun (allocated, address, count, slot, extra, result) =>
        ⟨.instruction (.alloca allocated address count slot result), extra⟩
      read := fun
        | ⟨.instruction (.alloca allocated address count slot result), extra⟩ =>
          some (allocated, address, count, slot, extra, result)
        | _ => none } <|
  seq (spaced type) <|
  seq (followedBy (comma type) (punct .comma)) <|
  seq (optional (.kind .value) (spaced (followedBy typedValue (punct .comma)))) <|
  seq (optional (.punct .leftBracket) (spaced slotName)) <|
  seq trailingAttribute <|
  optionalAnnotation

/-- The state of the stack, `cir.stack_save : type`. -/
def stackSave : Grammar R (Body R) :=
  view
    { build := fun result => ⟨.instruction (.stackSave result), none⟩
      read := fun
        | ⟨.instruction (.stackSave result), none⟩ => some result
        | _ => none }
    annotation

/-- Going back to a state of the stack, `cir.stack_restore %v : type`. -/
def stackRestore : Grammar R (Body R) :=
  view
    { build := fun (operand, result) => ⟨.instruction (.stackRestore operand result), none⟩
      read := fun
        | ⟨.instruction (.stackRestore operand result), none⟩ => some (operand, result)
        | _ => none }
    (seq (spaced value) annotation)

/-! ## Loads and stores -/

/-- The types of a memory access after a colon. -/
def accessTypes : Grammar R AccessTypes :=
  view
    { build := fun
        | (only, none) => .single only
        | (first, some second) => .dual first second
      read := fun
        | .single only => some (only, none)
        | .dual first second => some (first, some second)
      read_build := by rintro ⟨_, _ | _⟩ <;> rfl }
    (colon (seq type (optional (.punct .comma) (comma type))))

/-- A load, `cir.load flags %address attribute : types`. -/
def load : Grammar R (Body R) :=
  view
    { build := fun (flags, address, extra, types) =>
        ⟨.instruction (.load flags address types), extra⟩
      read := fun
        | ⟨.instruction (.load flags address types), extra⟩ => some (flags, address, extra, types)
        | _ => none } <|
  seq (modifierRun .ofMemoryAccess) <|
  seq (spaced value) <|
  seq trailingAttribute <|
  accessTypes

/-- A store, `cir.store flags %value, %address attribute : types`. -/
def store : Grammar R (Body R) :=
  view
    { build := fun (flags, stored, address, extra, types) =>
        ⟨.instruction (.store flags stored address types), extra⟩
      read := fun
        | ⟨.instruction (.store flags stored address types), extra⟩ =>
          some (flags, stored, address, extra, types)
        | _ => none } <|
  seq (modifierRun .ofMemoryAccess) <|
  seq (spaced value) <|
  seq (comma value) <|
  seq trailingAttribute <|
  accessTypes

/-- A copy from one place to another, `cir.copy %a to %b : types`. -/
def copyTo : Grammar R (Body R) :=
  view
    { build := fun (source, dest, result) =>
        ⟨.instruction (.copy source dest (some result)), none⟩
      read := fun
        | ⟨.instruction (.copy source dest (some result)), none⟩ => some (source, dest, result)
        | _ => none } <|
  seq (spaced value) <|
  seq (spacedWord "to" (spaced value)) <|
  annotation

/-- A copy with its destination first, `cir.copy %b, %a attribute : types`. -/
def copyComma : Grammar R (Body R) :=
  view
    { build := fun (dest, source, extra, result) =>
        ⟨.instruction (.copy source dest result), extra⟩
      read := fun
        | ⟨.instruction (.copy source dest result), extra⟩ => some (dest, source, extra, result)
        | _ => none } <|
  seq (spaced value) <|
  seq (comma value) <|
  seq trailingAttribute <|
  recommended .copy "comma-form `cir.copy` without a type annotation" optionalAnnotation

/-! ## Addresses -/

/-- The address of a global, `cir.get_global thread_local @name attribute : types`. -/
def getGlobal : Grammar R (Body R) :=
  view
    { build := fun (threadLocal, reference, extra, result) =>
        ⟨.instruction (.getGlobal threadLocal reference result), extra⟩
      read := fun
        | ⟨.instruction (.getGlobal threadLocal reference result), extra⟩ =>
          some (threadLocal, reference, extra, result)
        | _ => none } <|
  seq (optionalWord "thread_local") <|
  seq (spaced symbol) <|
  seq trailingAttribute <|
  annotation

/-- The address of an element of a structure, `cir.struct_element_addr %base, index attribute :
types`. -/
def structElementAddr : Grammar R (Body R) :=
  view
    { build := fun (base, index, extra, result) =>
        ⟨.instruction (.structElementAddr base index result), extra⟩
      read := fun
        | ⟨.instruction (.structElementAddr base index result), extra⟩ =>
          some (base, index, extra, result)
        | _ => none } <|
  seq (spaced value) <|
  seq (comma integer) <|
  seq trailingAttribute <|
  annotation

/-- The address of a member, `cir.get_member %base[index] attribute : types`. -/
def getMember : Grammar R (Body R) :=
  view
    { build := fun (base, index, extra, result) =>
        ⟨.instruction (.getMember base index result), extra⟩
      read := fun
        | ⟨.instruction (.getMember base index result), extra⟩ => some (base, index, extra, result)
        | _ => none } <|
  seq (spaced value) <|
  seq (brackets integer) <|
  seq trailingAttribute <|
  annotation

/-- The address of a member that is known only at run time, `cir.get_runtime_member %base[%member :
type] : signature`. -/
def getRuntimeMember : Grammar R (Body R) :=
  view
    { build := fun (base, member, typing) =>
        ⟨.instruction (.getRuntimeMember base member typing), none⟩
      read := fun
        | ⟨.instruction (.getRuntimeMember base member typing), none⟩ => some (base, member, typing)
        | _ => none } <|
  seq (spaced value) <|
  seq (brackets typedValue) <|
  signature

/-- The operands of a pointer stride with their types. -/
def strideInParens : Grammar R (Body R) :=
  view
    { build := fun ((base, stride), extra, result) =>
        ⟨.instruction (.ptrStride base.value stride.value
          (.parenthesized base.type stride.type result)), extra⟩
      read := fun
        | ⟨.instruction (.ptrStride base stride
            (.parenthesized baseType strideType result)), extra⟩ =>
          some ((⟨base, baseType⟩, ⟨stride, strideType⟩), extra, result)
        | _ => none } <|
  seq (parens (seq typedValue (comma typedValue))) <|
  seq trailingAttribute <|
  comma type

/-- A pointer stride without operand types, `cir.ptr_stride %base, %stride : signature`. -/
def strideBare : Grammar R (Body R) :=
  view
    { build := fun (base, stride, typing) =>
        ⟨.instruction (.ptrStride base stride (.bare typing)), none⟩
      read := fun
        | ⟨.instruction (.ptrStride base stride (.bare typing)), none⟩ =>
          some (base, stride, typing)
        | _ => none } <|
  seq (spaced value) <|
  seq (comma value) <|
  recommended .ptrStride "bare `cir.ptr_stride` without a type annotation" optionalSignature

/-- The address of a block, `cir.blockaddress <@function, "label"> -> type`. -/
def blockAddress : Grammar R (Body R) :=
  view
    { build := fun ((function, literal), result) =>
        ⟨.instruction (.blockAddress function literal result), none⟩
      read := fun
        | ⟨.instruction (.blockAddress function literal result), none⟩ =>
          some ((function, literal), result)
        | _ => none } <|
  seq (spaced (angles (seq symbol (comma string)))) resultTypes

end CirText.Grammar
