import CirText.Opcode
import CirText.Operation.Modifiers

/-!
# Operations without regions

`Instruction` has one constructor for each operation that contains no other operations, with exactly
the parts that its syntax provides for. Two groups of operations with the same parts share a
constructor: the ones that count bits, and the terminators without operands.
-/

namespace CirText

/-- The operations that count or find bits. -/
inductive BitCount where
  | clrsb
  | ffs
  | parity
  | clz
  | ctz
  | popcount
deriving DecidableEq, Repr

/-- The operation code. -/
def BitCount.opcode : BitCount → Opcode
  | clrsb => .clrsb
  | ffs => .ffs
  | parity => .parity
  | clz => .clz
  | ctz => .ctz
  | popcount => .popcount

/-- The terminators without operands. -/
inductive BareTerminator where
  | breakLoop
  | continueLoop
  | unreachable
  | trap
  | resume
deriving DecidableEq, Repr

/-- The operation code. -/
def BareTerminator.opcode : BareTerminator → Opcode
  | breakLoop => .breakLoop
  | continueLoop => .continueLoop
  | unreachable => .unreachable
  | trap => .trap
  | resume => .resume

/-- An operation that contains no other operations. -/
inductive Instruction where
  | call (callee : Reference) (args : List Reference) (signature : Signature)
      (modifiers : CallModifiers)
  | tryCall (callee : Reference) (args : List Reference) (target : TryTarget)
      (signature : Signature) (modifiers : CallModifiers)
  | ret (operands : Option Operands)
  | yield (operands : Option Operands)
  | alloca (allocated address : TypeText) (count : Option TypedValue) (slot : Option SlotName)
      (result : Option (List TypeText))
  | load (flags : AccessFlags) (address : Reference) (types : AccessTypes)
  | store (flags : AccessFlags) (value address : Reference) (types : AccessTypes)
  | const (value : AttributeText) (result : List TypeText)
  | cast (kind : Lexeme) (value : Reference) (typing : CastTyping)
  | binop (kind : Lexeme) (left right : Reference) (result : List TypeText)
  | cmp (predicate : Lexeme) (left right : Reference) (result : List TypeText)
  | unary (kind : Lexeme) (operand : Reference) (result : List TypeText)
  | br (dest : Successor)
  | brcond (cond : Reference) (thenDest elseDest : Successor)
  | condition (cond : Reference)
  | getGlobal (threadLocal : Bool) (name : Reference) (result : List TypeText)
  | ptrStride (base stride : Reference) (typing : StrideTyping)
  | throw (exception : Option Reference) (result : Option (List TypeText))
  | catchParam (exception : Option Reference) (result : TypeGroup)
  | structElementAddr (base : Reference) (index : Lexeme) (result : List TypeText)
  | getMember (base : Reference) (index : Lexeme) (result : List TypeText)
  | select (cond trueValue falseValue : Reference) (result : List TypeText)
  | copy (source dest : Reference) (result : Option (List TypeText))
  | bare (terminator : BareTerminator)
  | objsize (kind : Lexeme) (value : Reference) (typing : UnaryTyping)
  | shift (direction : Lexeme) (left right : Reference) (typing : BinaryTyping)
  | countBits (count : BitCount) (value : Reference) (zeroPoison : Bool) (result : List TypeText)
  | dynCast (kind : Lexeme) (relativeLayout : Bool) (value : Reference) (typing : UnaryTyping)
      (info : Option AttributeText)
  | blockAddress (function : Reference) (label : Lexeme) (result : TypeGroup)
  | indirectBr (address : Reference) (addressType : TypeText) (targets : List Reference)
  | label (name : Lexeme)
  | memcpy (length source dest : Reference) (signature : Signature)
  | memchr (source pattern length : Reference) (signature : Option Signature)
  | fabs (value : Reference) (result : List TypeText)
  | stackSave (result : List TypeText)
  | stackRestore (value : Reference) (result : List TypeText)
  | getRuntimeMember (base : Reference) (member : TypedValue) (signature : Signature)
deriving DecidableEq, Repr

namespace Instruction

/-- The operation code. -/
def opcode : Instruction → Opcode
  | call .. => .call
  | tryCall .. => .tryCall
  | ret .. => .ret
  | yield .. => .yield
  | alloca .. => .alloca
  | load .. => .load
  | store .. => .store
  | const .. => .const
  | cast .. => .cast
  | binop .. => .binop
  | cmp .. => .cmp
  | unary .. => .unary
  | br .. => .br
  | brcond .. => .brcond
  | condition .. => .condition
  | getGlobal .. => .getGlobal
  | ptrStride .. => .ptrStride
  | throw .. => .throw
  | catchParam .. => .catchParam
  | structElementAddr .. => .structElementAddr
  | getMember .. => .getMember
  | select .. => .select
  | copy .. => .copy
  | bare terminator => terminator.opcode
  | objsize .. => .objsize
  | shift .. => .shift
  | countBits count .. => count.opcode
  | dynCast .. => .dynCast
  | blockAddress .. => .blockAddress
  | indirectBr .. => .indirectBr
  | label .. => .label
  | memcpy .. => .memcpy
  | memchr .. => .memchr
  | fabs .. => .fabs
  | stackSave .. => .stackSave
  | stackRestore .. => .stackRestore
  | getRuntimeMember .. => .getRuntimeMember

end Instruction

/-- The values of an optional operand list. -/
def Operands.references : Option Operands → List Reference
  | none => []
  | some operands => operands.values

/-- The names in a branch target, the block first. -/
def Successor.references (successor : Successor) : List Reference :=
  successor.label :: Operands.references successor.args

namespace Instruction

/-- The names that the operation refers to, in the order of its arguments. -/
def references : Instruction → List Reference
  | call callee args .. => callee :: args
  | tryCall callee args (.exceptionPointer pointer) .. => pointer :: callee :: args
  | tryCall callee args (.successors normal unwind) .. => callee :: args ++ [normal, unwind]
  | ret operands | yield operands => Operands.references operands
  | alloca _ _ count .. => (count.map (·.value)).toList
  | load _ address _ => [address]
  | store _ value address _ => [value, address]
  | const .. => []
  | cast _ value _ => [value]
  | binop _ left right _ | cmp _ left right _ => [left, right]
  | unary _ operand _ => [operand]
  | br dest => dest.references
  | brcond cond thenDest elseDest => cond :: thenDest.references ++ elseDest.references
  | condition cond => [cond]
  | getGlobal _ name _ => [name]
  | ptrStride base stride _ => [base, stride]
  | throw exception _ => exception.toList
  | catchParam exception _ => exception.toList
  | structElementAddr base .. | getMember base .. => [base]
  | select cond trueValue falseValue _ => [cond, trueValue, falseValue]
  | copy source dest _ => [source, dest]
  | bare _ => []
  | objsize _ value _ => [value]
  | shift _ left right _ => [left, right]
  | countBits _ value .. => [value]
  | dynCast _ _ value .. => [value]
  | blockAddress function .. => [function]
  | indirectBr address _ targets => address :: targets
  | label _ => []
  | memcpy length source dest _ => [length, source, dest]
  | memchr source pattern length _ => [source, pattern, length]
  | fabs value _ | stackRestore value _ => [value]
  | stackSave _ => []
  | getRuntimeMember base member _ => [base, member.value]

end Instruction

end CirText
