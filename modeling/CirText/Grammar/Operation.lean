import CirText.Grammar.Call
import CirText.Grammar.Compute
import CirText.Grammar.Declaration
import CirText.Grammar.Memory
import CirText.Grammar.Structured
import CirText.Grammar.Transfer

/-!
# The grammar of operations

`Grammar.body` gives for each operation and form how what follows the keyword is written. A form
that an operation does not have is treated as its last one.
-/

namespace CirText.Grammar

variable {R : Type}

/-- How an operation is written in a form, from behind its keyword. -/
def body : Opcode → Form → Grammar R (Body R)
  | .func, _ => func
  | .call, .indirect => callOf value
  | .call, _ => callOf symbol
  | .tryCall, .exceptionPointer => tryCallWithPointer
  | .tryCall, _ => tryCallWithSuccessors
  | .ret, _ => ret
  | .alloca, _ => alloca
  | .load, _ => load
  | .store, _ => store
  | .const, .parenthesizedValue => constOf (parens (attributeOf .value))
  | .const, .attributeAlias => constOf (attributeOf .aliasName)
  | .const, _ => constOf (attributeOf .dialect)
  | .cast, .parenthesized => castInParens
  | .cast, _ => castBare
  | .binop, _ => binop
  | .cmp, _ => cmp
  | .unary, _ => unary
  | .br, _ => br
  | .brcond, _ => brcond
  | .yield, _ => yield
  | .ifElse, _ => ifElse
  | .scope, _ => scope
  | .loop, _ => loop
  | .forLoop, _ => forLoop
  | .whileLoop, .labeled => whileLabeled
  | .whileLoop, _ => whileFluent
  | .doWhile, .labeled => doWhileLabeled
  | .doWhile, _ => doWhileFluent
  | .condition, _ => condition
  | .await, _ => await
  | .global, _ => global
  | .getGlobal, _ => getGlobal
  | .ptrStride, .parenthesized => strideInParens
  | .ptrStride, _ => strideBare
  | .tryCatch, _ => tryCatch
  | .throw, _ => throw
  | .catchParam, _ => catchParam
  | .resume, _ => bare .resume
  | .structElementAddr, _ => structElementAddr
  | .getMember, _ => getMember
  | .switch, _ => switch
  | .caseArm, _ => caseArm
  | .ternary, _ => ternary
  | .select, _ => select
  | .copy, .toForm => copyTo
  | .copy, _ => copyComma
  | .breakLoop, _ => bare .breakLoop
  | .continueLoop, _ => bare .continueLoop
  | .unreachable, _ => bare .unreachable
  | .trap, _ => bare .trap
  | .objsize, .parenthesized => objsizeInParens
  | .objsize, _ => objsizeBare
  | .shift, .parenthesized => shiftInParens
  | .shift, _ => shiftBare
  | .clrsb, _ => countBits .clrsb
  | .ffs, _ => countBits .ffs
  | .parity, _ => countBits .parity
  | .clz, _ => countBitsOrPoison .clz
  | .ctz, _ => countBitsOrPoison .ctz
  | .popcount, _ => countBitsOrPoison .popcount
  | .dynCast, .parenthesized => dynCastInParens
  | .dynCast, _ => dynCastBare
  | .blockAddress, _ => blockAddress
  | .indirectBr, _ => indirectBr
  | .label, _ => labelMark
  | .memcpy, _ => memcpy
  | .memchr, .parenthesized => memchrInParens
  | .memchr, _ => memchr
  | .fabs, _ => fabs
  | .stackSave, _ => stackSave
  | .stackRestore, _ => stackRestore
  | .getRuntimeMember, _ => getRuntimeMember

end CirText.Grammar
