import CirText.Cursor
import CirText.Opcode
import CirText.Operation.Basic

/-!
# Selecting the form of an operation

Some operations can be written in several forms. Which one it is, is decided by the two tokens after
the keyword before anything of the operation is read, so reading never has to go back.
-/

namespace CirText.Form

/-- The rules by which the form of an operation is selected. -/
inductive Rule where
  /-- There is one form only. -/
  | only
  /-- One form starts with a parenthesis, another with a token of a class. -/
  | parensOr (start : TokenKind) (other : Form) (expected : String)
  /-- Calls by name and through a value. -/
  | callee
  /-- Calls that may throw. -/
  | tryCallee
  /-- Checked conversions. -/
  | dynCast
  /-- Loops with one condition. -/
  | loop
  /-- Copies. -/
  | copy
  /-- Constants. -/
  | constant

/-- The rule for an operation. -/
def ruleOf : Opcode → Rule
  | .call => .callee
  | .tryCall => .tryCallee
  | .cast => .parensOr .identifier .bare "`(` or a cast kind"
  | .ptrStride => .parensOr .value .bare "`(` or a base value"
  | .objsize => .parensOr .identifier .bare "`(` or an object size kind"
  | .shift => .parensOr .identifier .bare "`(` or a shift direction"
  | .memchr => .parensOr .value .comma "`(` or a source value"
  | .dynCast => .dynCast
  | .whileLoop | .doWhile => .loop
  | .copy => .copy
  | .const => .constant
  | _ => .only

/-- The form that a rule selects, or what it expects instead of the tokens that are there. -/
def Rule.choose (rule : Rule) (cursor : Cursor) : Except String Form :=
  let first := cursor.peek
  let second := cursor.peekAt 1
  match rule with
  | .only => .ok .canonical
  | .parensOr start other expected =>
    if first.isPunct .leftParen then .ok .parenthesized
    else if first.kind == start then .ok other
    else .error expected
  | .callee =>
    if first.kind == .symbol then .ok .direct
    else if first.kind == .value then .ok .indirect
    else .error "`@callee` or `%callee`"
  | .tryCallee =>
    if first.isWord "exception" then .ok .exceptionPointer
    else if first.kind == .symbol then .ok .successors
    else .error "`exception` or `@callee`"
  | .dynCast =>
    if first.isPunct .leftParen then .ok .parenthesized
    else if first.isWord "ptr" || first.isWord "ref" then .ok .bare
    else .error "`(`, `ptr` or `ref`"
  | .loop =>
    if first.isPunct .colon then .ok .labeled
    else if first.isPunct .leftBrace then .ok .fluent
    else .error "`:` or `\x7b`"
  | .copy =>
    if first.kind != .value then .error "a value"
    else if second.isWord "to" then .ok .toForm
    else if second.isPunct .comma then .ok .comma
    else .error "`to` or `,` after the first value"
  | .constant =>
    if first.isPunct .leftParen then .ok .parenthesizedValue
    else if first.isAttributeAlias second then .ok .attributeAlias
    else if first.kind == .attributeName then .ok .dialectAttribute
    else .error "`(`, a dialect attribute or an attribute alias"

/-- The form of an operation by the tokens after its keyword, or what is expected in their place. -/
def choose (opcode : Opcode) (cursor : Cursor) : Except String Form :=
  (ruleOf opcode).choose cursor

end CirText.Form
