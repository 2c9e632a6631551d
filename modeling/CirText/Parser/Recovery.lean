import CirText.Parser.Basic

/-!
# Going on after an error

When an operation cannot be read, the parser skips to the next place where an operation or a block
can start, or to the brace that closes the region. Braces in between are skipped in pairs.
-/

namespace CirText

namespace Cursor

/-- Whether tokens start with result names and an equals sign. -/
def startsResults : List Token → Bool
  | name :: separator :: rest =>
    name.kind == .value &&
      (separator.isPunct .equal || separator.isPunct .comma && startsResults rest)
  | _ => false

/-- Whether the given number of parentheses are closed before any brace, with a colon after the
last. -/
def closesBeforeColon (depth : Nat) : List Token → Bool
  | [] => false
  | token :: rest =>
    if token.isPunct .leftParen then closesBeforeColon (depth + 1) rest
    else if token.isPunct .rightParen then
      if depth ≤ 1 then rest.head?.any (·.isPunct .colon) else closesBeforeColon (depth - 1) rest
    else if token.isPunct .leftBrace || token.isPunct .rightBrace then false
    else closesBeforeColon depth rest

/-- Whether tokens start with the header of a block, `^label:` or `^label(...):`. -/
def startsBlock : List Token → Bool
  | label :: next :: rest =>
    label.kind == .label &&
      (next.isPunct .colon || next.isPunct .leftParen && closesBeforeColon 1 rest)
  | _ => false

/-- Whether an operation or a block can start with the tokens. -/
def startsUnit (tokens : List Token) : Bool :=
  tokens.head?.any (·.kind == .keyword) || startsResults tokens || startsBlock tokens

/-- The tokens from the next place on at which parsing can go on, inside the given number of
braces. -/
def fromBoundary (depth : Nat) : List Token → List Token
  | [] => []
  | token :: rest =>
    if token.isPunct .leftBrace then fromBoundary (depth + 1) rest
    else if token.isPunct .rightBrace then
      match depth with
      | 0 => token :: rest
      | depth + 1 => fromBoundary depth rest
    else if depth == 0 && startsUnit (token :: rest) then token :: rest
    else fromBoundary depth rest

/-- The next place at which parsing can go on. -/
def toBoundary (cursor : Cursor) : Cursor :=
  cursor.advanceTo (fromBoundary 0 cursor.rest)

end Cursor

namespace Parser

/-- Skips to the next place at which parsing can go on, after a failure of what starts at the given
place. At least one token is skipped from there. -/
def resynchronize (start : Cursor) : Parser Unit :=
  change fun state =>
    if state.halted then state
    else
      let cursor := state.cursor
      let beyond := if cursor.position = start.position then cursor.next else cursor
      { state with cursor := beyond.toBoundary }

end Parser

end CirText
