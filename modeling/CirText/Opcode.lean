/-!
# Operation codes

The closed set of operations. Each has a dotted keyword; some end the block that they stand in, and
two declare a symbol of the module.
-/

namespace CirText

/-- The operations, in the order in which they are listed. -/
inductive Opcode where
  | func
  | call
  | tryCall
  | ret
  | alloca
  | load
  | store
  | const
  | cast
  | binop
  | cmp
  | unary
  | br
  | brcond
  | yield
  | ifElse
  | scope
  | loop
  | forLoop
  | whileLoop
  | doWhile
  | condition
  | await
  | global
  | getGlobal
  | ptrStride
  | tryCatch
  | throw
  | catchParam
  | resume
  | structElementAddr
  | getMember
  | switch
  | caseArm
  | ternary
  | select
  | copy
  | breakLoop
  | continueLoop
  | unreachable
  | trap
  | objsize
  | shift
  | clrsb
  | ffs
  | parity
  | clz
  | ctz
  | popcount
  | dynCast
  | blockAddress
  | indirectBr
  | label
  | memcpy
  | memchr
  | fabs
  | stackSave
  | stackRestore
  | getRuntimeMember
deriving DecidableEq, Repr

namespace Opcode

/-- The keyword that an operation starts with. -/
def keyword : Opcode → String
  | func => "cir.func"
  | call => "cir.call"
  | tryCall => "cir.try_call"
  | ret => "cir.return"
  | alloca => "cir.alloca"
  | load => "cir.load"
  | store => "cir.store"
  | const => "cir.const"
  | cast => "cir.cast"
  | binop => "cir.binop"
  | cmp => "cir.cmp"
  | unary => "cir.unary"
  | br => "cir.br"
  | brcond => "cir.brcond"
  | yield => "cir.yield"
  | ifElse => "cir.if"
  | scope => "cir.scope"
  | loop => "cir.loop"
  | forLoop => "cir.for"
  | whileLoop => "cir.while"
  | doWhile => "cir.do"
  | condition => "cir.condition"
  | await => "cir.await"
  | global => "cir.global"
  | getGlobal => "cir.get_global"
  | ptrStride => "cir.ptr_stride"
  | tryCatch => "cir.try"
  | throw => "cir.throw"
  | catchParam => "cir.catch_param"
  | resume => "cir.resume"
  | structElementAddr => "cir.struct_element_addr"
  | getMember => "cir.get_member"
  | switch => "cir.switch"
  | caseArm => "cir.case"
  | ternary => "cir.ternary"
  | select => "cir.select"
  | copy => "cir.copy"
  | breakLoop => "cir.break"
  | continueLoop => "cir.continue"
  | unreachable => "cir.unreachable"
  | trap => "cir.trap"
  | objsize => "cir.objsize"
  | shift => "cir.shift"
  | clrsb => "cir.clrsb"
  | ffs => "cir.ffs"
  | parity => "cir.parity"
  | clz => "cir.clz"
  | ctz => "cir.ctz"
  | popcount => "cir.popcount"
  | dynCast => "cir.dyn_cast"
  | blockAddress => "cir.blockaddress"
  | indirectBr => "cir.indirectbr"
  | label => "cir.label"
  | memcpy => "cir.libc.memcpy"
  | memchr => "cir.libc.memchr"
  | fabs => "cir.libc.fabs"
  | stackSave => "cir.stack_save"
  | stackRestore => "cir.stack_restore"
  | getRuntimeMember => "cir.get_runtime_member"

/-- All operations. -/
def all : List Opcode :=
  [func, call, tryCall, ret, alloca, load, store, const, cast, binop, cmp, unary, br, brcond, yield,
    ifElse, scope, loop, forLoop, whileLoop, doWhile, condition, await, global, getGlobal,
    ptrStride, tryCatch, throw, catchParam, resume, structElementAddr, getMember, switch,
    caseArm, ternary,
    select, copy, breakLoop, continueLoop, unreachable, trap, objsize, shift, clrsb, ffs, parity,
    clz, ctz, popcount, dynCast, blockAddress, indirectBr, label, memcpy, memchr, fabs, stackSave,
    stackRestore, getRuntimeMember]

/-- The operation that a keyword names. -/
def ofKeyword? (word : String) : Option Opcode :=
  all.find? fun opcode => opcode.keyword == word

/-- Whether an operation with this code always ends its block. -/
def isTerminator : Opcode → Bool
  | yield | ret | br | brcond | condition | breakLoop | continueLoop | unreachable | trap | throw
  | resume | indirectBr => true
  | _ => false

/-- Whether the operation declares a symbol of the module. -/
def isDeclaration : Opcode → Bool
  | func | global => true
  | _ => false

end Opcode

end CirText
